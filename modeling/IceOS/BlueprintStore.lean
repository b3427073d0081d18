import IceOS.BlueprintApi
import IceOS.NodeModels
import IceOS.SchemaValidator

/-! All the routes that store blueprints: the REST routes, over the database and the cache, and those of
MCP, which only know the cache. The requests are served one after another. -/
namespace IceOS

/-- `_validate_node_dependencies` of the blueprint model. -/
def Blueprint.validates (bp : Blueprint) : Bool :=
  bp.nodes.all fun node => node.dependencies.all (bp.nodes.map (·.id)).contains

/-- `nodes` are the specifications to which finalizing converts the partial ones. -/
structure PartialBlueprint where
  blueprintId : String
  nodes : List NodeSpec
  isComplete : Bool
  metadata : String := ""
  deriving DecidableEq, Repr

/-- The database rows, the cached blueprints, and the partial ones with their locks, all by id. -/
structure BlueprintStore where
  records : OrderedDict String Blueprint := .empty
  cache : OrderedDict String Blueprint := .empty
  partials : OrderedDict String (PartialBlueprint × String) := .empty

/-- What the routes call on. `toolName` and `package` are read from the JSON of a node and are `none`
unless non-empty strings; `hasTool` is asked after the plugins have been loaded. -/
structure BlueprintRoutes where
  calculateVersionLock : Blueprint → String
  contentId : Blueprint → String
  toolName : NodeSpec → Option String
  package : NodeSpec → Option String
  hasTool : String → Bool
  isToolAllowed : String → Bool
  isAgentAllowed : String → Bool
  convertNodeSpecs : List NodeSpec → Except Exn (List NodeConfig)
  runtimeValidate : NodeConfig → Except Exn Unit
  overBudget : List NodeSpec → Bool

/-- A request, or whatever one of the routes for partial blueprints leaves under an id. -/
inductive WriteRequest where
  | create (payload : Blueprint) (versionLock : Option String)
  | change (id : String) (request : Request)
  | clone (id : String)
  | mcpCreate (payload : Blueprint)
  | finalize (id : String) (versionLock : Option String)
  | edit (id : String) (content : PartialBlueprint) (lock : String)

/-- Which reads and writes of a request are answered, and the uuid it draws. -/
structure Circumstances where
  databaseRead : Bool := true
  cacheRead : Bool := true
  databaseWrite : Bool := true
  cacheWrite : Bool := true
  newId : String := ""

def assertVersionLock (versionLock : Option String) (expected : String) : Except Nat Unit :=
  match versionLock with
  | none => .error 428
  | some lock => if lock = expected then .ok () else .error 409

/-- Go on unless the condition calls for the status. -/
def refuseIf (condition : Bool) (status : Nat) : Except Nat Unit := if condition then .error status else .ok ()

namespace BlueprintRoutes

def refusesNode (x : BlueprintRoutes) (node : NodeSpec) : Option Nat :=
  if node.type = "tool" then
    (x.toolName node).bind fun name =>
      if !x.hasTool name then some 422 else if !x.isToolAllowed name then some 403 else none
  else if node.type = "agent" then
    (x.package node).bind fun package => if !x.isAgentAllowed package then some 403 else none
  else none

def validateResolvableAndAllowed (x : BlueprintRoutes) (bp : Blueprint) : Option Nat := bp.nodes.findSome? x.refusesNode

/-- The exception of the model's own validator is none of pydantic's, so nobody turns it into a 422. -/
def checks (x : BlueprintRoutes) : BlueprintChecks where
  calculateVersionLock := x.calculateVersionLock
  refuses bp := if bp.validates then x.validateResolvableAndAllowed bp else some 500

def raisesAtRuntime (x : BlueprintRoutes) (nodes : List NodeSpec) : Bool :=
  match x.convertNodeSpecs nodes with
  | .error _ => true
  | .ok configs => configs.any fun config => !(x.runtimeValidate config).isOk

end BlueprintRoutes

/-- Everything but a completed partial blueprint raises. -/
def PartialBlueprint.toBlueprint (draft : PartialBlueprint) : Option Blueprint :=
  let bp : Blueprint :=
    { blueprintId := draft.blueprintId.replace "partial_" "",schemaVersion := "1.1.0",nodes := draft.nodes
      metadata := draft.metadata }
  if draft.isComplete && bp.validates then some bp else none

namespace BlueprintStore

def loadBlueprint (s : BlueprintStore) (c : Circumstances) (id : String) : Except Nat Blueprint :=
  let record := if c.databaseRead then (s.records.get? id).filter (·.validates) else none
  let cached := if c.cacheRead then (s.cache.get? id).filter (·.validates) else none
  match record.or cached with
  | some bp => .ok bp
  | none => .error 404

/-- `_save_blueprint`, which may fail unnoticed. -/
def saveBlueprint (s : BlueprintStore) (c : Circumstances) (id : String) (bp : Blueprint) : BlueprintStore :=
  if c.cacheWrite then { s with cache := s.cache.set id bp } else s

def store (s : BlueprintStore) (c : Circumstances) (id : String) (bp : Blueprint) : BlueprintStore :=
  { s with records := s.records.set id bp }.saveBlueprint c id bp

def createBlueprint (x : BlueprintRoutes) (c : Circumstances) (payload : Blueprint) (versionLock : Option String)
    (s : BlueprintStore) : Except Nat BlueprintStore := do
  refuseIf (!payload.validates) 500
  assertVersionLock versionLock "__new__"
  match x.validateResolvableAndAllowed payload with
  | some status => .error status
  | none =>
    refuseIf (!c.databaseWrite) 503
    return s.store c c.newId payload

/-- PATCH, PUT and DELETE. -/
def changeBlueprint (x : BlueprintRoutes) (c : Circumstances) (id : String) (r : Request) (s : BlueprintStore) :
    Except Nat BlueprintStore := do
  let bp ← s.loadBlueprint c id
  let target ← x.checks.prepare r bp
  refuseIf (!c.databaseWrite) r.method.unavailable
  match target with
  | some bp => return s.store c id bp
  | none =>
    let s := { s with records := s.records.erase id }
    return if c.cacheWrite then { s with cache := s.cache.erase id } else s

def cloneBlueprint (c : Circumstances) (id : String) (s : BlueprintStore) : Except Nat BlueprintStore := do
  let original ← s.loadBlueprint c id
  refuseIf (!c.databaseWrite || (s.records.get? c.newId).isSome) 500
  return s.store c c.newId original

/-- Under MCP a blueprint is stored under the hash of its content, which becomes its id. -/
def register (x : BlueprintRoutes) (c : Circumstances) (bp : Blueprint) (s : BlueprintStore) :
    Except Nat BlueprintStore := do
  let id := x.contentId bp
  refuseIf (!c.cacheWrite) 500
  return { s with cache := s.cache.set id { bp with blueprintId := id } }

def mcpCreateBlueprint (x : BlueprintRoutes) (c : Circumstances) (payload : Blueprint) (s : BlueprintStore) :
    Except Nat BlueprintStore := do
  refuseIf (!payload.validates) 500
  refuseIf (!(SchemaValidator.validateBlueprint payload).isOk) 400
  refuseIf (x.raisesAtRuntime payload.nodes) 400
  s.register x c payload

def finalizePartialBlueprint (x : BlueprintRoutes) (c : Circumstances) (id : String) (versionLock : Option String)
    (s : BlueprintStore) : Except Nat BlueprintStore := do
  refuseIf (!c.cacheRead) 500
  match s.partials.get? id with
  | none => .error 404
  | some (draft,lock) =>
    assertVersionLock versionLock lock
    refuseIf draft.nodes.isEmpty 400
    match draft.toBlueprint with
    | none => .error 500
    | some bp =>
      refuseIf (!(SchemaValidator.validateBlueprint bp).isOk) 400
      refuseIf (x.overBudget bp.nodes) 402
      let s ← s.register x c bp
      return { s with partials := s.partials.erase id }

def handle (x : BlueprintRoutes) (s : BlueprintStore) (c : Circumstances) : WriteRequest → Except Nat BlueprintStore
  | .create payload versionLock => s.createBlueprint x c payload versionLock
  | .change id request => s.changeBlueprint x c id request
  | .clone id => s.cloneBlueprint c id
  | .mcpCreate payload => s.mcpCreateBlueprint x c payload
  | .finalize id versionLock => s.finalizePartialBlueprint x c id versionLock
  | .edit id content lock => .ok { s with partials := s.partials.set id (content,lock) }

/-- Only a successful request is a step. -/
def step (x : BlueprintRoutes) (s : BlueprintStore) (a : WriteRequest × Circumstances) : Option BlueprintStore :=
  (s.handle x a.2 a.1).toOption

/-- The blueprint is in the store: in the database or in the cache. -/
def Stored (s : BlueprintStore) (bp : Blueprint) : Prop :=
  ∃ id, s.records.get? id = some bp ∨ s.cache.get? id = some bp

end BlueprintStore

end IceOS
