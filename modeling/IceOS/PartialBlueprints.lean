import IceOS.BlueprintStore
import IceOS.PythonText

/-! Partial blueprints: their model and the routes that create, edit and finalize them, as processes over the hash that
Redis holds under each id. Every read or write of one of its fields is a step of its own. -/
namespace IceOS.Incremental

open ActionRuns

/-! ### The model -/

/-- `isPartial` tells the class of a node; the fields beside these are in the `config`. -/
structure PartialNodeSpec extends NodeSpec where
  pendingInputs : Option (List String) := none
  pendingOutputs : Option (List String) := none
  isPartial : Bool := true
  deriving DecidableEq, Repr

structure PartialBlueprint where
  blueprintId : String
  nodes : List PartialNodeSpec := []
  isComplete : Bool := false
  validationErrors : List String := []
  nextSuggestions : List String := []
  deriving DecidableEq, Repr

/-- What is registered when a blueprint is validated. -/
structure RegistryView where
  hasTool : String → Bool
  hasAgent : String → Bool
  hasWorkflow : String → Bool

inductive UpdateAction where
  | addNode
  | removeNode
  | updateNode
  | suggest
  deriving DecidableEq, Repr

/-- `updates` is the JSON of a dictionary; an empty one counts as `none`, and so does an empty id. -/
structure PartialBlueprintUpdate where
  action : UpdateAction
  node : Option PartialNodeSpec := none
  nodeId : Option String := none
  updates : Option String := none
  deriving DecidableEq, Repr

/-- What the routes call on. `calculateLock` is the SHA-256 of a document, `readsPartial` the class with which a stored node
is read back, and `replaceFields` the node with some fields replaced, if that is still one; `toolName`, `package` and
`workflowRef` are read from the JSON of a node. -/
structure PartialRoutes where
  calculateLock : PartialBlueprint → String
  lock_nonempty : ∀ p, calculateLock p ≠ ""
  readsPartial : PartialNodeSpec → Bool
  replaceFields : PartialNodeSpec → String → Option PartialNodeSpec
  lower : String → String
  toolName : PartialNodeSpec → Option String
  package : PartialNodeSpec → Option String
  workflowRef : PartialNodeSpec → Option String
  contentId : Blueprint → String
  overBudget : List NodeSpec → Bool

namespace PartialRoutes

/-- The error and the suggestion for a node that refers to what is not registered. -/
def unresolved (x : PartialRoutes) (registry : RegistryView) (node : PartialNodeSpec) : Option (String × String) :=
  let missing (kind title name : String) :=
    (title ++ " '" ++ name ++ "' not found in registry",
      "Use /components/validate to validate and register " ++ kind ++ " '" ++ name ++ "'")
  let check (registered : String → Bool) (kind title : String) : Option String → Option (String × String)
    | some name => if registered name then none else some (missing kind title name)
    | none => none
  match node.type with
  | "tool" => check registry.hasTool "tool" "Tool" (x.toolName node)
  | "agent" => check registry.hasAgent "agent" "Agent" (x.package node)
  | "workflow" => check registry.hasWorkflow "workflow" "Workflow" (x.workflowRef node)
  | _ => none

def missingDependencies (nodes : List PartialNodeSpec) : List String :=
  nodes.flatMap fun node => (node.dependencies.filter fun dep => dep ∉ nodes.map (·.id)).map fun dep =>
    "Node " ++ node.id ++ " depends on non-existent node " ++ dep

def unconnectedInputs (nodes : List PartialNodeSpec) : List String :=
  nodes.filterMap fun node =>
    match node.isPartial,node.pendingInputs with
    | true,some (input :: inputs) =>
      some ("Node " ++ node.id ++ " has unconnected inputs: [" ++
        ", ".intercalate ((input :: inputs).map PythonText.repr) ++ "]")
    | _,_ => none

/-- `_validate_incremental` adds to the suggestions that are there. -/
def validateIncremental (x : PartialRoutes) (registry : RegistryView) (p : PartialBlueprint) : PartialBlueprint :=
  if p.nodes.isEmpty then { p with validationErrors := ["No nodes added yet"],isComplete := false }
  else
    let references := p.nodes.filterMap (x.unresolved registry)
    let errors := missingDependencies p.nodes ++ unconnectedInputs p.nodes ++ references.map Prod.fst
    let suggestions := p.nextSuggestions ++ references.map Prod.snd
    if errors.isEmpty then
      { p with
        validationErrors := [],isComplete := true
        nextSuggestions := suggestions ++ ["Blueprint is valid! Use to_blueprint() to finalize"] }
    else { p with validationErrors := errors,isComplete := false,nextSuggestions := suggestions }

def addNode (x : PartialRoutes) (registry : RegistryView) (p : PartialBlueprint) (node : PartialNodeSpec) :
    PartialBlueprint :=
  x.validateIncremental registry { p with nodes := p.nodes ++ [node] }

/-- The first node with the id is replaced; the replacement may not validate. -/
def updateNode (x : PartialRoutes) (nodeId updates : String) : List PartialNodeSpec → Option (List PartialNodeSpec)
  | [] => some []
  | node :: rest =>
    if node.id = nodeId then (x.replaceFields node updates).map (· :: rest)
    else (x.updateNode nodeId updates rest).map (node :: ·)

/-- What an update makes of a blueprint, if it does not raise. -/
def applyUpdate (x : PartialRoutes) (registry : RegistryView) (p : PartialBlueprint) (update : PartialBlueprintUpdate) :
    Option PartialBlueprint :=
  match update.action,update.node,update.nodeId,update.updates with
  | .addNode,some node,_,_ => some (x.addNode registry p node)
  | .removeNode,_,some nodeId,_ =>
    some (x.validateIncremental registry { p with nodes := p.nodes.filter (·.id ≠ nodeId) })
  | .updateNode,_,some nodeId,some updates =>
    (x.updateNode nodeId updates p.nodes).map fun nodes => x.validateIncremental registry { p with nodes }
  | .suggest,_,_,_ => some (x.validateIncremental registry p)
  | _,_,_,_ => some p

/-! ### Suggestions -/

def hasListHint (x : PartialRoutes) (node : PartialNodeSpec) : Bool :=
  let hints (names : Option (List String)) := (names.getD []).any fun name =>
    PythonText.contains "list" (x.lower name) || PythonText.contains "items" (x.lower name)
  node.isPartial && (hints node.pendingOutputs || hints node.pendingInputs)

/-- The types and reasons of `_compute_suggestions`. -/
def computeSuggestions (x : PartialRoutes) (p : PartialBlueprint) (allowed : Option (List String)) (topK : Nat) :
    List (String × String) :=
  let allowed :=
    match allowed with
    | some (type :: types) => type :: types
    | _ => ["tool","llm","condition","loop","parallel"]
  let candidates :=
    (if p.nodes.isEmpty then []
      else [("llm","Process outputs from previous nodes for summarization or transformation"),
        ("tool","Connect a downstream tool to use generated data")]) ++
    (if 2 ≤ p.nodes.length then [("parallel","Split independent branches for concurrency")] else []) ++
    (if p.nodes.any x.hasListHint then [("loop","Iterate over a collection output to process items")] else []) ++
    if 1 ≤ p.nodes.length then [("condition","Gate execution based on a boolean or expression")] else []
  (candidates.filter fun candidate => x.lower candidate.1 ∈ allowed.map x.lower).take topK

/-- The summary that a committed suggestion leaves in the document. -/
def suggest (x : PartialRoutes) (p : PartialBlueprint) (allowed : Option (List String)) (topK : Nat) : PartialBlueprint :=
  { p with nextSuggestions := (x.computeSuggestions p allowed topK).map fun s => s.1 ++ ": " ++ s.2 }

/-- `model_validate_json` of a stored document. -/
def reread (x : PartialRoutes) (p : PartialBlueprint) : PartialBlueprint :=
  { p with nodes := p.nodes.map fun node => { node with isPartial := x.readsPartial node } }

end PartialRoutes

def PartialBlueprint.toBlueprint (p : PartialBlueprint) : Option Blueprint :=
  (⟨p.blueprintId,p.nodes.map (·.toNodeSpec),p.isComplete,""⟩ : IceOS.PartialBlueprint).toBlueprint

/-! ### The routes -/

inductive PartialRequest where
  | create (initialNode : Option PartialNodeSpec)
  | designSession
  | update (blueprintId : String) (update : PartialBlueprintUpdate) (versionLock : Option String)
  | suggest (blueprintId : String) (allowedTypes : Option (List String)) (topK : Nat) (commit : Bool)
      (versionLock : Option String)
  | finalize (blueprintId : String) (versionLock : Option String)
  deriving DecidableEq, Repr

/-- Where a request stands; `seen` is the document that it has read. A request that is about to write knows the lock that
its client presented. -/
inductive PartialProgress where
  | arrived
  | read (seen : Option PartialBlueprint)
  | writing (seen : PartialBlueprint) (lock : String) (target : PartialBlueprint)
  | registering (seen : PartialBlueprint) (blueprint : Blueprint)
  | deleting (seen : PartialBlueprint)
  | ended (status : Nat)
  deriving DecidableEq, Repr

/-- What has happened to a partial blueprint; `stored` is the document that a write or a deletion found. -/
inductive PartialEvent where
  | created (blueprintId : String)
  | changed (blueprintId lock : String) (seen : PartialBlueprint) (stored : Option PartialBlueprint)
  | finalized (blueprintId : String) (seen : PartialBlueprint) (stored : Option PartialBlueprint)
  deriving DecidableEq, Repr

/-- The fields `json` and `lock` of the hashes, the registered blueprints and the progress of the requests. -/
structure PartialStore (ι : Type) where
  documents : OrderedDict String PartialBlueprint := .empty
  locks : OrderedDict String String := .empty
  blueprints : OrderedDict String Blueprint := .empty
  progress : ι → PartialProgress := fun _ => .arrived
  log : List PartialEvent := []

/-- The steps of a request, each up to its next await; it may also fail wherever it stands. -/
inductive PartialAction (ι : Type) where
  | create (i : ι) (drawnId : String) (registry : RegistryView)
  | readJson (i : ι)
  | readLock (i : ι) (registry : RegistryView)
  | write (i : ι)
  | register (i : ι)
  | delete (i : ι)
  | fail (i : ι)

namespace PartialRoutes

def initial (x : PartialRoutes) (drawnId : String) (registry : RegistryView) : Option PartialNodeSpec → PartialBlueprint
  | some node => x.addNode registry { blueprintId := drawnId } node
  | none => { blueprintId := drawnId }

/-- The lock that a client presented, if it is the one that the server has. -/
def checkLock (serverLock clientLock : Option String) : Except Nat String :=
  match clientLock,serverLock with
  | none,_ => .error 428
  | some lock,some server => if server = "" ∨ lock ≠ server then .error 409 else .ok lock
  | some _,none => .error 409

/-- What finalizing makes of a partial blueprint. -/
def finalBlueprint (x : PartialRoutes) (p : PartialBlueprint) : Except Nat Blueprint :=
  if p.nodes.isEmpty then .error 400
  else
    match p.toBlueprint with
    | none => .error 500
    | some bp =>
      if (SchemaValidator.validateBlueprint bp).isOk then
        if x.overBudget bp.nodes then .error 402 else .ok bp
      else .error 400

/-- How a request goes on once it has read the lock as well. -/
def proceed (x : PartialRoutes) (registry : RegistryView) (seen : Option PartialBlueprint) (serverLock : Option String) :
    PartialRequest → PartialProgress
  | .update _ update versionLock =>
    match seen,checkLock serverLock versionLock with
    | none,_ => .ended 404
    | some _,.error status => .ended status
    | some seen,.ok lock =>
      match x.applyUpdate registry (x.reread seen) update with
      | none => .ended 500
      | some target => .writing seen lock target
  | .suggest _ allowedTypes topK _ versionLock =>
    match seen,checkLock serverLock versionLock with
    | none,_ => .ended 404
    | some _,.error status => .ended status
    | some seen,.ok lock => .writing seen lock (x.suggest (x.reread seen) allowedTypes topK)
  | .finalize _ versionLock =>
    match seen,checkLock serverLock versionLock with
    | none,_ => .ended 404
    | some _,.error status => .ended status
    | some seen,.ok _ =>
      match x.finalBlueprint (x.reread seen) with
      | .error status => .ended status
      | .ok bp => .registering seen bp
  | _ => .ended 500

end PartialRoutes

def PartialRequest.blueprintId? : PartialRequest → Option String
  | .update id .. | .suggest id .. | .finalize id .. => some id
  | _ => none

namespace PartialStore

variable {ι : Type} [DecidableEq ι]

def moveTo (s : PartialStore ι) (i : ι) (p : PartialProgress) : PartialStore ι :=
  { s with progress := Function.update s.progress i p }

/-- Without `commit`, suggestions do not read the lock. -/
def afterJson (request : PartialRequest) (seen : Option PartialBlueprint) : PartialProgress :=
  match request,seen with
  | .suggest ..,none => .ended 404
  | .suggest _ _ _ false _,some _ => .ended 200
  | _,_ => .read seen

def step (x : PartialRoutes) (requests : ι → PartialRequest) (s : PartialStore ι) :
    PartialAction ι → Option (PartialStore ι)
  | .create i drawnId registry =>
    match s.progress i,requests i with
    | .arrived,.create initialNode =>
      let p := x.initial drawnId registry initialNode
      some { s.moveTo i (.ended 200) with
        documents := s.documents.set drawnId p,locks := s.locks.set drawnId (x.calculateLock p)
        log := s.log ++ [.created drawnId] }
    | .arrived,.designSession =>
      -- the lock is not written
      some { s.moveTo i (.ended 200) with
        documents := s.documents.set drawnId { blueprintId := drawnId },log := s.log ++ [.created drawnId] }
    | _,_ => none
  | .readJson i =>
    match s.progress i,(requests i).blueprintId? with
    | .arrived,some id => some (s.moveTo i (afterJson (requests i) (s.documents.get? id)))
    | _,_ => none
  | .readLock i registry =>
    match s.progress i,(requests i).blueprintId? with
    | .read seen,some id => some (s.moveTo i (x.proceed registry seen (s.locks.get? id) (requests i)))
    | _,_ => none
  | .write i =>
    match s.progress i with
    | .writing seen lock target =>
      let id := target.blueprintId
      some { s.moveTo i (.ended 200) with
        documents := s.documents.set id target,locks := s.locks.set id (x.calculateLock target)
        log := s.log ++ [.changed id lock seen (s.documents.get? id)] }
    | _ => none
  | .register i =>
    match s.progress i with
    | .registering seen bp =>
      let id := x.contentId bp
      some { s.moveTo i (.deleting seen) with blueprints := s.blueprints.set id { bp with blueprintId := id } }
    | _ => none
  | .delete i =>
    match s.progress i,(requests i).blueprintId? with
    | .deleting seen,some id =>
      -- the lock stays
      some { s.moveTo i (.ended 200) with
        documents := s.documents.erase id,log := s.log ++ [.finalized id seen (s.documents.get? id)] }
    | _,_ => none
  | .fail i =>
    match s.progress i with
    | .ended _ => none
    | _ => some (s.moveTo i (.ended 500))

end PartialStore

end IceOS.Incremental
