import IceOS.NodeModels
import IceOS.PythonJson

/-! The drafts of the Canvas and their two stores: one keeps the object, the other a JSON text in Redis. -/
namespace IceOS

variable {φ : Type}

/-- A node of a blueprint; fields that the model does not name are kept apart. -/
structure DraftNode (φ : Type) where
  id : String
  type : String
  dependencies : List String := []
  extra : List (String × Json φ) := []

structure DraftBlueprint (φ : Type) where
  blueprintId : String
  schemaVersion : String := "1.2.0"
  nodes : List (DraftNode φ)
  metadata : List (String × Json φ) := []

def strings (texts : List String) : Json φ := .list (texts.map .str)

namespace DraftNode

/-- `__dict__` has the fields that the model names. -/
def attributes (n : DraftNode φ) : List (String × Json φ) :=
  [("id",.str n.id),("type",.str n.type),("dependencies",strings n.dependencies)]

def modelDump (n : DraftNode φ) : Json φ := .dict (n.attributes ++ n.extra)

end DraftNode

namespace DraftBlueprint

def fields (b : DraftBlueprint φ) (node : DraftNode φ → Json φ) : List (String × Json φ) :=
  [("blueprint_id",.str b.blueprintId),("schema_version",.str b.schemaVersion),("nodes",.list (b.nodes.map node)),
    ("metadata",.dict b.metadata)]

/-- What `json.dumps` makes of a blueprint whose objects stand for their `__dict__`. -/
def attributes (b : DraftBlueprint φ) : List (String × Json φ) := b.fields fun n => .dict n.attributes

def modelDump (b : DraftBlueprint φ) : Json φ := .dict (b.fields DraftNode.modelDump)

end DraftBlueprint

/-- A position is recorded as a tuple, and comes back from a text as a list. -/
inductive PositionValue (φ : Type) where
  | tuple (x y : Int)
  | json (v : Json φ)

/-- A blueprint comes back as a dictionary. -/
inductive BlueprintValue (φ : Type) where
  | model (b : DraftBlueprint φ)
  | dict (entries : List (String × Json φ))

/-- The stage is anything; the pipeline sets it to a member of an enumeration. -/
inductive StageValue (φ : Type) where
  | member (name : String)
  | json (v : Json φ)

/-- By convention the scratch-pad has a status for each node. -/
structure DraftMeta where
  status : Option (OrderedDict String String) := some .empty
  schemaRev : Option Int := none

structure DraftState (φ : Type) where
  promptHistory : List String := []
  mermaidVersions : List String := []
  lockedNodes : List String := []
  nodePositions : OrderedDict String (PositionValue φ) := .empty
  nodes : OrderedDict String (Json φ) := .empty
  lastBlueprint : Option (BlueprintValue φ) := none
  specification : Option String := none
  mermaidDiagram : Option String := none
  warnings : List String := []
  questions : List String := []
  intentData : Option (List (String × Json φ)) := none
  planText : Option String := none
  currentStage : StageValue φ := .json .null
  blueprint : Option (BlueprintValue φ) := none
  draftMeta : DraftMeta := {}

/-- What the stored text says, field by field. -/
structure StoredDraft (φ : Type) where
  promptHistory : List String
  mermaidVersions : List String
  lockedNodes : List String
  nodePositions : OrderedDict String (Json φ)
  nodes : OrderedDict String (Json φ)
  lastBlueprint : Option (List (String × Json φ))
  specification : Option String
  mermaidDiagram : Option String
  warnings : List String
  questions : List String
  intentData : Option (List (String × Json φ))
  planText : Option String
  currentStage : Json φ
  blueprint : Option (List (String × Json φ))
  draftMeta : DraftMeta

def PositionValue.encode : PositionValue φ → Json φ
  | .tuple x y => .list [.int x,.int y]
  | .json v => v

def BlueprintValue.encode : BlueprintValue φ → List (String × Json φ)
  | .model b => b.attributes
  | .dict entries => entries

def mappingproxyError : Exn :=
  ⟨"'mappingproxy' object has no attribute '__dict__'",
    "AttributeError(\"'mappingproxy' object has no attribute '__dict__'\")"⟩

/-- The `__dict__` of a member holds its class, of which `json.dumps` makes nothing. -/
def StageValue.encode : StageValue φ → Except Exn (Json φ)
  | .member _ => .error mappingproxyError
  | .json v => .ok v

namespace RedisDraftStore

def save (s : DraftState φ) : Except Exn (StoredDraft φ) :=
  s.currentStage.encode.map fun stage =>
    { promptHistory := s.promptHistory
      mermaidVersions := s.mermaidVersions
      lockedNodes := s.lockedNodes
      nodePositions := s.nodePositions.mapValues PositionValue.encode
      nodes := s.nodes
      lastBlueprint := s.lastBlueprint.map BlueprintValue.encode
      specification := s.specification
      mermaidDiagram := s.mermaidDiagram
      warnings := s.warnings
      questions := s.questions
      intentData := s.intentData
      planText := s.planText
      currentStage := stage
      blueprint := s.blueprint.map BlueprintValue.encode
      draftMeta := s.draftMeta }

def load (kept : StoredDraft φ) : DraftState φ where
  promptHistory := kept.promptHistory
  mermaidVersions := kept.mermaidVersions
  lockedNodes := kept.lockedNodes
  nodePositions := kept.nodePositions.mapValues .json
  nodes := kept.nodes
  lastBlueprint := kept.lastBlueprint.map .dict
  specification := kept.specification
  mermaidDiagram := kept.mermaidDiagram
  warnings := kept.warnings
  questions := kept.questions
  intentData := kept.intentData
  planText := kept.planText
  currentStage := .json kept.currentStage
  blueprint := kept.blueprint.map .dict
  draftMeta := kept.draftMeta

end RedisDraftStore

/-- A store of drafts; `shared` says that it returns the object it keeps, and no copy. -/
structure DraftStore (κ φ : Type) where
  load : κ → DraftState φ
  save : DraftState φ → Except Exn κ
  shared : Bool

def inMemoryDraftStore : DraftStore (DraftState φ) φ := ⟨id,.ok,true⟩

def redisDraftStore : DraftStore (StoredDraft φ) φ := ⟨RedisDraftStore.load,RedisDraftStore.save,false⟩

/-! ### The routes -/

inductive DraftEdit where
  | lock (nodeId : String)
  | position (nodeId : String) (x y : Int)
  | instantiate (nodeId : String)

inductive DraftCall where
  | createOrGet
  | get
  | edit (e : DraftEdit)

structure DraftReply (φ : Type) where
  promptHistory : List String
  mermaidVersions : List String
  lockedNodes : List String
  nodePositions : OrderedDict String (Json φ)
  draftMeta : DraftMeta
  blueprint : Json φ

inductive DraftResponse (φ : Type) where
  | state (reply : DraftReply φ)
  | failed (status : Nat) (detail : String)
  | raised (e : Exn)

/-- An empty dictionary counts as no blueprint. -/
def replyBlueprint : Option (BlueprintValue φ) → Except Exn (Json φ)
  | none | some (.dict []) => .ok .null
  | some (.model b) => .ok b.modelDump
  | some (.dict (_ :: _)) => .error
    ⟨"'dict' object has no attribute 'model_dump'","AttributeError(\"'dict' object has no attribute 'model_dump'\")"⟩

def asJson (s : DraftState φ) : DraftResponse φ :=
  match replyBlueprint s.lastBlueprint with
  | .error e => .raised e
  | .ok blueprint => .state
    { promptHistory := s.promptHistory
      mermaidVersions := s.mermaidVersions
      lockedNodes := s.lockedNodes
      nodePositions := s.nodePositions.mapValues PositionValue.encode
      draftMeta := s.draftMeta
      blueprint }

def DraftMeta.setStatus (m : DraftMeta) (nodeId status : String) : DraftMeta :=
  { m with status := some ((m.status.getD .empty).set nodeId status) }

def DraftEdit.apply (s : DraftState φ) : DraftEdit → DraftState φ
  | .lock nodeId =>
    { s with
      lockedNodes := if nodeId ∈ s.lockedNodes then s.lockedNodes else s.lockedNodes ++ [nodeId]
      draftMeta := s.draftMeta.setStatus nodeId "locked" }
  | .position nodeId x y => { s with nodePositions := s.nodePositions.set nodeId (.tuple x y) }
  | .instantiate nodeId =>
    { s with draftMeta := { s.draftMeta.setStatus nodeId "real" with schemaRev := some (s.draftMeta.schemaRev.getD 0 + 1) } }

namespace DraftStore

variable {κ : Type} (store : DraftStore κ φ)

/-- The answer to a call that finds what the store keeps, and what is kept afterwards. -/
def handle (kept : Option κ) : DraftCall → DraftResponse φ × Option κ
  | .createOrGet =>
    match kept with
    | some k => (asJson (store.load k),kept)
    | none =>
      match store.save {} with
      | .ok k => (asJson {},some k)
      | .error e => (.raised e,none)
  | .get =>
    match kept with
    | some k => (asJson (store.load k),kept)
    | none => (.failed 404 "Draft not found",none)
  | .edit e =>
    match kept with
    | none => (.failed 404 "Draft not found",none)
    | some k =>
      let state := e.apply (store.load k)
      match store.save state with
      | .ok saved => (asJson state,some saved)
      | .error raised => (.raised raised,kept)

def responses : Option κ → List DraftCall → List (DraftResponse φ)
  | _,[] => []
  | kept,c :: calls => (store.handle kept c).1 :: responses (store.handle kept c).2 calls

end DraftStore

end IceOS
