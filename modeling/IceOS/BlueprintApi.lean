import IceOS.ActionRuns
import IceOS.OrderedDict
import Mathlib.Logic.Function.Basic

/-! The blueprint routes that change a stored blueprint, as processes over the database row and
the cache. Each await is a step of its own: loading the row, falling back to the cache,
fetching the row to be changed, committing, and refreshing the cache. -/
namespace IceOS

/-- `config` is the JSON of the fields beside these. -/
structure NodeSpec where
  id : String
  type : String
  dependencies : List String := []
  memoryAware : Bool := false
  prompt : Option String := none
  config : String := ""
  deriving DecidableEq, Repr

structure Blueprint where
  blueprintId : String
  schemaVersion : String := "1.2.0"
  nodes : List NodeSpec
  metadata : String := ""
  deriving DecidableEq, Repr

def mergeNode (mapping : OrderedDict String NodeSpec) (p : NodeSpec) : OrderedDict String NodeSpec :=
  if p.type = "__delete__" then mapping.erase p.id else mapping.set p.id p

/-- Add, update or remove by node id. -/
def mergeNodes (existing patchNodes : List NodeSpec) : List NodeSpec :=
  let mapping := OrderedDict.ofList (existing.map fun node => (node.id,node))
  (patchNodes.foldl mergeNode mapping).items.map Prod.snd

/-- A payload that does not validate is `none`. -/
inductive Method where
  | patch (nodes : Option (List NodeSpec))
  | put (payload : Option Blueprint)
  | delete
  deriving DecidableEq, Repr

/-- A request on the blueprint, with its `X-Version-Lock` header. -/
structure Request where
  method : Method
  versionLock : Option String
  deriving DecidableEq, Repr

/-- The hash of a blueprint's content, and the status with which the validation of a changed
blueprint, or of the tools it names, refuses it. -/
structure BlueprintChecks where
  calculateVersionLock : Blueprint → String
  refuses : Blueprint → Option Nat

/-- `lockVersion` is written and never read. -/
structure Row where
  body : Blueprint
  lockVersion : Nat
  deriving DecidableEq, Repr

/-- What a request that passed its checks is about to do: `seen` is the blueprint it loaded after
`loadedAt` successful requests, and `target` what it puts in its place. -/
structure Plan where
  seen : Blueprint
  loadedAt : Nat
  target : Option Blueprint
  deriving DecidableEq, Repr

/-- Where a request stands; it ends with a status code. -/
inductive Progress where
  | arrived
  | missed
  | checked (plan : Plan)
  | fetched (plan : Plan) (record : Option Row)
  | committed (target : Option Blueprint)
  | ended (status : Nat)
  deriving DecidableEq, Repr

/-- A request that succeeded, with the row's content before and after it. -/
structure Success where
  request : Request
  loadedAt : Nat
  before : Option Blueprint
  after : Option Blueprint
  deriving DecidableEq, Repr

structure Store (ι : Type) where
  row : Option Row
  cache : Option Blueprint
  progress : ι → Progress := fun _ => .arrived
  log : List Success := []

/-- `ok` tells whether the database or the cache answered. -/
inductive StoreAction (ι : Type) where
  | load (i : ι) (ok : Bool)
  | loadCache (i : ι) (ok : Bool)
  | fetch (i : ι) (ok : Bool)
  | commit (i : ι) (ok : Bool)
  | refresh (i : ι) (ok : Bool)

namespace BlueprintChecks

/-- `_assert_version_lock` -/
def assertVersionLock (x : BlueprintChecks) (r : Request) (bp : Blueprint) : Except Nat Unit :=
  match r.versionLock with
  | none => .error 428
  | some lock => if lock = x.calculateVersionLock bp then .ok () else .error 409

/-- What a request does between loading and fetching, without an await. -/
def prepare (x : BlueprintChecks) (r : Request) (bp : Blueprint) : Except Nat (Option Blueprint) := do
  x.assertVersionLock r bp
  let target ← match r.method with
    | .patch none | .put none => .error 422
    | .patch (some nodes) => .ok (some { bp with nodes := mergeNodes bp.nodes nodes })
    | .put (some payload) => .ok (some payload)
    | .delete => .ok none
  match target.bind x.refuses with
  | some status => .error status
  | none => .ok target

end BlueprintChecks

/-- The status of a request whose database step failed; only PATCH catches the exception. -/
def Method.unavailable : Method → Nat
  | .patch _ => 503
  | .put _ | .delete => 500

def Method.succeeded : Method → Nat
  | .delete => 204
  | _ => 200

/-- The ORM writes the columns that differ from the fetched record, found again by id. A record
that was inserted or removed meanwhile makes the flush fail, except that removing it twice is
only a warning. -/
def Plan.flush (plan : Plan) (record current : Option Row) : Option (Option Row) :=
  match plan.target,record,current with
  | some target,some record,some current =>
    some (some { body := if target = record.body then current.body else target
                 lockVersion := record.lockVersion + 1 })
  | some target,none,none => some (some { body := target,lockVersion := 1 })
  | some _,some _,none | some _,none,some _ => none
  | none,some _,_ => some none
  | none,none,current => some current

namespace Store

variable {ι : Type} [DecidableEq ι]

def moveTo (s : Store ι) (i : ι) (p : Progress) : Store ι :=
  { s with progress := Function.update s.progress i p }

@[simp] theorem moveTo_row (s : Store ι) (i : ι) (p : Progress) : (s.moveTo i p).row = s.row := rfl
@[simp] theorem moveTo_cache (s : Store ι) (i : ι) (p : Progress) : (s.moveTo i p).cache = s.cache := rfl
@[simp] theorem moveTo_log (s : Store ι) (i : ι) (p : Progress) : (s.moveTo i p).log = s.log := rfl

theorem moveTo_progress (s : Store ι) (i j : ι) (p : Progress) :
    (s.moveTo i p).progress j = if j = i then p else s.progress j := by
  simp [moveTo,Function.update_apply]

/-- A blueprint was loaded: check the request against it. -/
def check (x : BlueprintChecks) (r : Request) (s : Store ι) (i : ι) (bp : Blueprint) : Store ι :=
  match x.prepare r bp with
  | .error status => s.moveTo i (.ended status)
  | .ok target => s.moveTo i (.checked ⟨bp,s.log.length,target⟩)

def step (x : BlueprintChecks) (requests : ι → Request) (s : Store ι) : StoreAction ι → Option (Store ι)
  | .load i ok =>
    match s.progress i with
    | .arrived =>
      match ok,s.row with
      | true,some row => some (s.check x (requests i) i row.body)
      | _,_ => some (s.moveTo i .missed)
    | _ => none
  | .loadCache i ok =>
    match s.progress i with
    | .missed =>
      match ok,s.cache with
      | true,some bp => some (s.check x (requests i) i bp)
      | _,_ => some (s.moveTo i (.ended 404))
    | _ => none
  | .fetch i ok =>
    match s.progress i with
    | .checked plan =>
      if ok then some (s.moveTo i (.fetched plan s.row))
      else some (s.moveTo i (.ended (requests i).method.unavailable))
    | _ => none
  | .commit i ok =>
    match s.progress i with
    | .fetched plan record =>
      match ok,plan.flush record s.row with
      | true,some row =>
        some { s.moveTo i (.committed plan.target) with
          row,log := s.log ++ [⟨requests i,plan.loadedAt,s.row.map (·.body),row.map (·.body)⟩] }
      | _,_ => some (s.moveTo i (.ended (requests i).method.unavailable))
    | _ => none
  | .refresh i ok =>
    match s.progress i with
    | .committed target =>
      let s := if ok then { s with cache := target } else s
      some (s.moveTo i (.ended (requests i).method.succeeded))
    | _ => none

end Store

end IceOS
