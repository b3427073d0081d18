import IceOS.NodeModels

/-! The fluent builder of workflows: nodes with declared dependencies, connections between them, and what the builder
makes of both. -/
namespace IceOS

/-- The part of a node's configuration that the graph is made of. -/
structure BuilderNode where
  id : String
  type : NodeType
  dependencies : List String := []

/-- A blueprint that was built, without its random id. -/
structure BuiltBlueprint where
  nodes : List BuilderNode
  draftName : String
  schemaVersion : String

structure WorkflowBuilder where
  name : String
  nodes : List BuilderNode := []
  edges : List (String × String) := []

/-- No node may be declared to depend on itself. -/
def BuilderNode.selfDependent (n : BuilderNode) : Bool := n.id ≠ "" && n.dependencies.contains n.id

def selfDependency (id : String) : Exn := valueError ("Node '" ++ id ++ "' cannot depend on itself")

def missingDependency (id dependency : String) : Exn :=
  let text := "Node " ++ id ++ " references missing dependency " ++ dependency
  ⟨text,"ValidationError(" ++ PythonText.repr text ++ ")"⟩

namespace WorkflowBuilder

/-- A node whose configuration is refused is not added. -/
def append (b : WorkflowBuilder) (n : BuilderNode) : Except Exn Unit × WorkflowBuilder :=
  if n.selfDependent then (.error (selfDependency n.id),b) else (.ok (),{ b with nodes := b.nodes ++ [n] })

/-- Whatever else a tool node is given is an argument of its tool, and of a workflow node an override. -/
def addTool (b : WorkflowBuilder) (id : String) := b.append { id,type := .tool }
def addWorkflow (b : WorkflowBuilder) (id : String) := b.append { id,type := .workflow }
def addLlm (b : WorkflowBuilder) (id : String) (dependencies : List String) := b.append { id,type := .llm,dependencies }
def addAgent (b : WorkflowBuilder) (id : String) (dependencies : List String) :=
  b.append { id,type := .agent,dependencies }
def addCondition (b : WorkflowBuilder) (id : String) (dependencies : List String) :=
  b.append { id,type := .condition,dependencies }
def addLoop (b : WorkflowBuilder) (id : String) (dependencies : List String) :=
  b.append { id,type := .loop,dependencies }
def addParallel (b : WorkflowBuilder) (id : String) (dependencies : List String) :=
  b.append { id,type := .parallel,dependencies }
def addCode (b : WorkflowBuilder) (id : String) (dependencies : List String) :=
  b.append { id,type := .code,dependencies }
def addHuman (b : WorkflowBuilder) (id : String) (dependencies : List String) :=
  b.append { id,type := .human,dependencies }
def addMonitor (b : WorkflowBuilder) (id : String) (dependencies : List String) :=
  b.append { id,type := .monitor,dependencies }
def addSwarm (b : WorkflowBuilder) (id : String) (dependencies : List String) :=
  b.append { id,type := .swarm,dependencies }
def addRecursive (b : WorkflowBuilder) (id : String) (dependencies : List String) :=
  b.append { id,type := .recursive,dependencies }

def depend (source target : String) (n : BuilderNode) : BuilderNode :=
  if n.id = target ∧ source ∉ n.dependencies then { n with dependencies := n.dependencies ++ [source] } else n

/-- Only the nodes that are there already learn of a connection. -/
def connect (b : WorkflowBuilder) (source target : String) : WorkflowBuilder :=
  { b with
    edges := b.edges ++ [(source,target)]
    nodes := b.nodes.map (depend source target) }

/-- `_apply_connections` -/
def applyConnections (b : WorkflowBuilder) : WorkflowBuilder :=
  { b with
    nodes := b.edges.foldl (fun nodes edge => nodes.map (depend edge.1 edge.2))
      (b.nodes.map fun n => { n with dependencies := [] }) }

/-- The first dependency on a node that is not there. -/
def missing (nodes : List BuilderNode) : Option (String × String) :=
  nodes.findSome? fun n => (n.dependencies.find? (· ∉ nodes.map (·.id))).map fun dependency => (n.id,dependency)

def build (b : WorkflowBuilder) : Except Exn BuiltBlueprint × WorkflowBuilder :=
  let b := b.applyConnections
  match missing b.nodes with
  | some gap => (.error (missingDependency gap.1 gap.2),b)
  | none => (.ok ⟨b.nodes,b.name,"1.1.0"⟩,b)

/-- The name and the nodes that the workflow's class is given. -/
def toWorkflow (b : WorkflowBuilder) : String × List BuilderNode := (b.name,b.nodes)

def preview (b : WorkflowBuilder) : String × WorkflowBuilder :=
  let b := b.applyConnections
  let declared := b.nodes.map fun n => "    " ++ n.id ++ "[\"" ++ n.id ++ " (" ++ n.type.text ++ ")\"];"
  let edges := b.edges.map fun edge => "    " ++ edge.1 ++ " --> " ++ edge.2 ++ ";"
  ("\n".intercalate ("graph TD;" :: declared ++ edges),b)

end WorkflowBuilder

/-! ### Calls -/

inductive BuilderCall where
  | add (node : BuilderNode)
  | connect (source target : String)
  | build
  | preview
  | toWorkflow

namespace WorkflowBuilder

def handle (b : WorkflowBuilder) : BuilderCall → WorkflowBuilder
  | .add node => (b.append node).2
  | .connect source target => b.connect source target
  | .build => b.build.2
  | .preview => b.preview.2
  | .toWorkflow => b

def handleAll (name : String) (calls : List BuilderCall) : WorkflowBuilder := calls.foldl handle { name }

/-- A dependency of some node. -/
def Denotes (nodes : List BuilderNode) (source target : String) : Prop :=
  ∃ n ∈ nodes, n.id = target ∧ source ∈ n.dependencies

def Added (calls : List BuilderCall) (id : String) : Prop :=
  ∃ node, .add node ∈ calls ∧ node.selfDependent = false ∧ node.id = id

def Declared (calls : List BuilderCall) (source target : String) : Prop :=
  ∃ node, .add node ∈ calls ∧ node.selfDependent = false ∧ node.id = target ∧ source ∈ node.dependencies

/-- The graph of the calls. -/
def Wanted (calls : List BuilderCall) (source target : String) : Prop :=
  Declared calls source target ∨ .connect source target ∈ calls

def Terminal : BuilderCall → Prop
  | .build | .preview | .toWorkflow => True
  | _ => False

/-- Both translations denote the graph of the calls, after any number of further ones. -/
def Faithful (name : String) (calls : List BuilderCall) : Prop :=
  ∀ terminals : List BuilderCall, (∀ c ∈ terminals, Terminal c) →
    let b := handleAll name (calls ++ terminals)
    (∃ blueprint, b.build.1 = .ok blueprint ∧
      ∀ source target, Denotes blueprint.nodes source target ↔ Wanted calls source target) ∧
    ∀ source target, Denotes b.toWorkflow.2 source target ↔ Wanted calls source target

/-- A node came to know of a connection: it was declared, or the node was there when it was made or when the
connections were applied. -/
def Known (calls : List BuilderCall) (source target : String) : Prop :=
  Declared calls source target ∨ ∃ node c, node.selfDependent = false ∧ node.id = target ∧
    (c = .connect source target ∨ c = .build ∨ c = .preview) ∧ [.add node,c].Sublist calls

/-- What is declared is connected as well, connections are between nodes that are added, and the nodes came to know of
them. -/
structure Careful (calls : List BuilderCall) : Prop where
  connected : ∀ source target, Declared calls source target → .connect source target ∈ calls
  added : ∀ source target, .connect source target ∈ calls → Added calls source ∧ Added calls target
  known : ∀ source target, .connect source target ∈ calls → Known calls source target

section

variable {nodes : List BuilderNode} {source target : String}

def Present (nodes : List BuilderNode) (id : String) : Prop := ∃ n ∈ nodes, n.id = id

theorem present_of_denotes (denotes : Denotes nodes source target) : Present nodes target := by
  obtain ⟨n,member,same,_⟩ := denotes
  exact ⟨n,member,same⟩

@[simp] theorem depend_id (a b : String) (n : BuilderNode) : (depend a b n).id = n.id := by
  rw [depend]
  split <;> rfl

theorem mem_depend (a b : String) (n : BuilderNode) :
    source ∈ (depend a b n).dependencies ↔ source ∈ n.dependencies ∨ n.id = b ∧ source = a := by
  rw [depend]
  split
  · next new => simp [new.1]
  · next old =>
    constructor
    · exact .inl
    · rintro (there | ⟨same,rfl⟩)
      · exact there
      · by_contra absent
        exact old ⟨same,absent⟩

theorem present_depend (a b id : String) : Present (nodes.map (depend a b)) id ↔ Present nodes id := by
  simp [Present]

theorem denotes_depend (a b : String) : Denotes (nodes.map (depend a b)) source target ↔
    Denotes nodes source target ∨ (source,target) = (a,b) ∧ Present nodes target := by
  simp only [Denotes,Present,List.mem_map,exists_exists_and_eq_and,depend_id,mem_depend,Prod.mk.injEq]
  constructor
  · rintro ⟨n,member,same,there | ⟨here,new⟩⟩
    · exact .inl ⟨n,member,same,there⟩
    · exact .inr ⟨⟨new,same.symm.trans here⟩,n,member,same⟩
  · rintro (⟨n,member,same,there⟩ | ⟨⟨new,here⟩,n,member,same⟩)
    · exact ⟨n,member,same,.inl there⟩
    · exact ⟨n,member,same,.inr ⟨same.trans here,new⟩⟩

/-- Connections are added to the nodes that are there. -/
theorem denotes_connections (edges : List (String × String)) :
    Denotes (edges.foldl (fun nodes edge => nodes.map (depend edge.1 edge.2)) nodes) source target ↔
      Denotes nodes source target ∨ (source,target) ∈ edges ∧ Present nodes target := by
  induction edges generalizing nodes with
  | nil => simp
  | cons edge edges ih =>
    rw [List.foldl_cons,ih,denotes_depend,present_depend,List.mem_cons,or_assoc,or_and_right]

theorem present_connections (edges : List (String × String)) (id : String) :
    Present (edges.foldl (fun nodes edge => nodes.map (depend edge.1 edge.2)) nodes) id ↔ Present nodes id := by
  induction edges generalizing nodes with
  | nil => exact Iff.rfl
  | cons edge edges ih => rw [List.foldl_cons,ih,present_depend]

theorem present_apply (b : WorkflowBuilder) (id : String) : Present b.applyConnections.nodes id ↔ Present b.nodes id := by
  rw [applyConnections,present_connections]
  simp [Present]

/-- Applying the connections forgets what was declared. -/
theorem denotes_apply (b : WorkflowBuilder) : Denotes b.applyConnections.nodes source target ↔
    (source,target) ∈ b.edges ∧ Present b.nodes target := by
  rw [applyConnections,denotes_connections]
  simp [Denotes,Present]

theorem missing_eq_none : missing nodes = none ↔ ∀ source target, Denotes nodes source target → Present nodes source := by
  simp only [missing,List.findSome?_eq_none_iff,Option.map_eq_none_iff,List.find?_eq_none,decide_eq_true_eq,not_not,
    List.mem_map]
  constructor
  · rintro none source target ⟨n,member,_,inside⟩
    exact none n member source inside
  · intro known n member dependency inside
    exact known dependency n.id ⟨n,member,rfl,inside⟩

theorem build_state (b : WorkflowBuilder) : b.build.2 = b.applyConnections := by
  rw [build]
  split <;> rfl

theorem build_ok (b : WorkflowBuilder) (blueprint : BuiltBlueprint) : b.build.1 = .ok blueprint ↔
    blueprint = ⟨b.applyConnections.nodes,b.name,"1.1.0"⟩ ∧
      ∀ source target, (source,target) ∈ b.edges → Present b.nodes target → Present b.nodes source := by
  have resolved : missing b.applyConnections.nodes = none ↔
      ∀ source target, (source,target) ∈ b.edges → Present b.nodes target → Present b.nodes source := by
    simp only [missing_eq_none,denotes_apply,present_apply,and_imp]
  rw [← resolved,build]
  cases gap : missing b.applyConnections.nodes with
  | none => simp [applyConnections,eq_comm]
  | some gap => simp

/-! ### The builder after its calls -/

/-- What the builder holds, in terms of the calls. -/
structure Tracks (calls : List BuilderCall) (b : WorkflowBuilder) : Prop where
  edges : ∀ source target, (source,target) ∈ b.edges ↔ .connect source target ∈ calls
  present : ∀ id, Present b.nodes id ↔ Added calls id
  sound : ∀ source target, Denotes b.nodes source target → Wanted calls source target
  known : ∀ source target, .connect source target ∈ calls → (Denotes b.nodes source target ↔ Known calls source target)

theorem pair_sublist {α : Type} {a c x : α} {l : List α} :
    [a,c].Sublist (l ++ [x]) ↔ [a,c].Sublist l ∨ c = x ∧ a ∈ l := by
  constructor
  · intro sublist
    have reversed : [c,a].Sublist (x :: l.reverse) := by
      simpa using List.reverse_sublist.mpr sublist
    rcases List.sublist_cons_iff.mp reversed with later | ⟨rest,parts,later⟩
    · refine .inl (List.reverse_sublist.mp ?_)
      simpa using later
    · cases parts
      exact .inr ⟨rfl,by simpa using later⟩
  · rintro (early | ⟨rfl,member⟩)
    · exact early.trans (List.sublist_append_left l [x])
    · exact (List.singleton_sublist.mpr member).append (List.Sublist.refl [c])

section

variable {calls : List BuilderCall} {b : WorkflowBuilder} {source target : String}

theorem added_append (c : BuilderCall) (id : String) : Added (calls ++ [c]) id ↔
    Added calls id ∨ ∃ node, c = .add node ∧ node.selfDependent = false ∧ node.id = id := by
  simp only [Added,List.mem_append,List.mem_singleton,or_and_right,exists_or,eq_comm (b := c)]

theorem declared_append (c : BuilderCall) : Declared (calls ++ [c]) source target ↔ Declared calls source target ∨
    ∃ node, c = .add node ∧ node.selfDependent = false ∧ node.id = target ∧ source ∈ node.dependencies := by
  simp only [Declared,List.mem_append,List.mem_singleton,or_and_right,exists_or,eq_comm (b := c)]

theorem added_of_declared (declared : Declared calls source target) : Added calls target := by
  obtain ⟨node,member,fine,same,_⟩ := declared
  exact ⟨node,member,fine,same⟩

theorem wanted_append (c : BuilderCall) (wanted : Wanted calls source target) : Wanted (calls ++ [c]) source target :=
  wanted.imp (fun declared => (declared_append c).mpr (.inl declared)) (List.mem_append_left [c])

/-- A call that is none of those from which nodes learn of the connection leaves it as it is. -/
theorem known_append {c : BuilderCall} (silent : ∀ node, c ≠ .add node) (other : c ≠ .connect source target)
    (notBuild : c ≠ .build) (notPreview : c ≠ .preview) :
    Known (calls ++ [c]) source target ↔ Known calls source target := by
  have declared : Declared (calls ++ [c]) source target ↔ Declared calls source target := by
    rw [declared_append]
    constructor
    · rintro (old | ⟨node,same,_⟩)
      · exact old
      · exact absurd same (silent node)
    · exact .inl
  have learned (node : BuilderNode) (d : BuilderCall) (kind : d = .connect source target ∨ d = .build ∨ d = .preview) :
      [.add node,d].Sublist (calls ++ [c]) ↔ [.add node,d].Sublist calls := by
    rw [pair_sublist]
    constructor
    · rintro (old | ⟨rfl,_⟩)
      · exact old
      · rcases kind with same | same | same
        · exact absurd same other
        · exact absurd same notBuild
        · exact absurd same notPreview
    · exact .inl
  rw [Known,Known,declared]
  refine or_congr Iff.rfl (exists_congr fun node => exists_congr fun d => ?_)
  refine and_congr_right fun _ => and_congr_right fun _ => and_congr_right fun kind => learned node d kind

/-- A call from which every node that is there learns of the connection. -/
theorem known_learned {c : BuilderCall} (kind : c = .connect source target ∨ c = .build ∨ c = .preview) :
    Known (calls ++ [c]) source target ↔ Added calls target := by
  have silent (node : BuilderNode) : c ≠ .add node := by
    rcases kind with rfl | rfl | rfl <;> exact BuilderCall.noConfusion
  constructor
  · rintro (declared | ⟨node,d,fine,same,_,sublist⟩)
    · rw [declared_append] at declared
      rcases declared with old | ⟨node,same,_⟩
      · exact added_of_declared old
      · exact absurd same (silent node)
    · rcases pair_sublist.mp sublist with old | ⟨_,member⟩
      · exact ⟨node,old.subset List.mem_cons_self,fine,same⟩
      · exact ⟨node,member,fine,same⟩
  · rintro ⟨node,member,fine,same⟩
    exact .inr ⟨node,c,fine,same,kind,pair_sublist.mpr (.inr ⟨rfl,member⟩)⟩

theorem known_add (node : BuilderNode) : Known (calls ++ [.add node]) source target ↔ Known calls source target ∨
    node.selfDependent = false ∧ node.id = target ∧ source ∈ node.dependencies := by
  have learned (n : BuilderNode) (d : BuilderCall) (kind : d = .connect source target ∨ d = .build ∨ d = .preview) :
      [.add n,d].Sublist (calls ++ [.add node]) ↔ [.add n,d].Sublist calls := by
    rw [pair_sublist]
    constructor
    · rintro (old | ⟨rfl,_⟩)
      · exact old
      · rcases kind with same | same | same <;> cases same
    · exact .inl
  have later : (∃ n d, n.selfDependent = false ∧ n.id = target ∧
      (d = .connect source target ∨ d = .build ∨ d = .preview) ∧ [.add n,d].Sublist (calls ++ [.add node])) ↔
      ∃ n d, n.selfDependent = false ∧ n.id = target ∧
        (d = .connect source target ∨ d = .build ∨ d = .preview) ∧ [.add n,d].Sublist calls :=
    exists_congr fun n => exists_congr fun d => and_congr_right fun _ => and_congr_right fun _ =>
      and_congr_right fun kind => learned n d kind
  have declared : (∃ n, BuilderCall.add node = .add n ∧ n.selfDependent = false ∧ n.id = target ∧
      source ∈ n.dependencies) ↔ node.selfDependent = false ∧ node.id = target ∧ source ∈ node.dependencies := by
    simp
  rw [Known,Known,declared_append,later,declared]
  exact or_right_comm

theorem tracks_start (name : String) : Tracks [] { name } where
  edges _ _ := by simp
  present id := by simp [Present,Added]
  sound _ _ denotes := by simp [Denotes] at denotes
  known _ _ connected := by cases connected

theorem Tracks.refused (tracks : Tracks calls b) {node : BuilderNode} (refused : node.selfDependent = true) :
    Tracks (calls ++ [.add node]) b where
  edges source target := by
    rw [tracks.edges]
    simp
  present id := by
    rw [tracks.present,added_append]
    simp [refused]
  sound source target denotes := wanted_append _ (tracks.sound source target denotes)
  known source target connected := by
    rw [known_add,tracks.known source target (by simpa using connected)]
    simp [refused]

theorem Tracks.accepted (tracks : Tracks calls b) {node : BuilderNode} (fine : node.selfDependent = false) :
    Tracks (calls ++ [.add node]) { b with nodes := b.nodes ++ [node] } where
  edges source target := by
    rw [tracks.edges]
    simp
  present id := by
    have old := tracks.present id
    rw [added_append,← old]
    simp [Present,or_and_right,exists_or,fine]
  sound source target denotes := by
    obtain ⟨n,member,same,inside⟩ := denotes
    rcases List.mem_append.mp member with old | new
    · exact wanted_append _ (tracks.sound source target ⟨n,old,same,inside⟩)
    · cases List.mem_singleton.mp new
      exact .inl ((declared_append _).mpr (.inr ⟨_,rfl,fine,same,inside⟩))
  known source target connected := by
    rw [known_add,← tracks.known source target (by simpa using connected)]
    simp [Denotes,or_and_right,exists_or,fine]

theorem Tracks.connect (tracks : Tracks calls b) (a c : String) :
    Tracks (calls ++ [.connect a c]) (b.connect a c) where
  edges source target := by
    have old := tracks.edges source target
    simp only [WorkflowBuilder.connect,List.mem_append,old,List.mem_singleton,Prod.mk.injEq,BuilderCall.connect.injEq]
  present id := by
    rw [WorkflowBuilder.connect,present_depend,tracks.present,added_append]
    simp
  sound source target denotes := by
    rcases (denotes_depend a c).mp denotes with old | ⟨new,_⟩
    · exact wanted_append _ (tracks.sound source target old)
    · cases new
      exact .inr (List.mem_append_right _ (List.mem_singleton.mpr rfl))
  known source target connected := by
    rw [WorkflowBuilder.connect,denotes_depend,tracks.present]
    by_cases same : (source,target) = (a,c)
    · cases same
      rw [known_learned (.inl rfl)]
      constructor
      · rintro (old | ⟨_,added⟩)
        · exact (tracks.present _).mp (present_of_denotes old)
        · exact added
      · exact fun added => .inr ⟨rfl,added⟩
    · have other : BuilderCall.connect a c ≠ .connect source target := by
        rintro ⟨⟩
        exact same rfl
      have before : .connect source target ∈ calls := by
        rcases List.mem_append.mp connected with old | new
        · exact old
        · exact absurd (List.mem_singleton.mp new).symm other
      rw [known_append (fun _ => BuilderCall.noConfusion) other BuilderCall.noConfusion BuilderCall.noConfusion,
        ← tracks.known source target before]
      simp [same]

theorem Tracks.apply (tracks : Tracks calls b) {call : BuilderCall} (applies : call = .build ∨ call = .preview) :
    Tracks (calls ++ [call]) b.applyConnections where
  edges source target := by
    have old := tracks.edges source target
    rcases applies with rfl | rfl <;> simp [applyConnections,old]
  present id := by
    rw [present_apply,tracks.present,added_append]
    rcases applies with rfl | rfl <;> simp
  sound source target denotes := by
    rw [denotes_apply,tracks.edges] at denotes
    exact .inr (List.mem_append_left _ denotes.1)
  known source target connected := by
    have before : .connect source target ∈ calls := by
      rcases applies with rfl | rfl <;> simpa using connected
    rw [denotes_apply,tracks.edges,tracks.present,known_learned (.inr applies)]
    exact ⟨And.right,fun added => ⟨before,added⟩⟩

theorem Tracks.same (tracks : Tracks calls b) : Tracks (calls ++ [.toWorkflow]) b where
  edges source target := by
    rw [tracks.edges]
    simp
  present id := by
    rw [tracks.present,added_append]
    simp
  sound source target denotes := wanted_append _ (tracks.sound source target denotes)
  known source target connected := by
    rw [known_append (fun _ => BuilderCall.noConfusion) BuilderCall.noConfusion BuilderCall.noConfusion
      BuilderCall.noConfusion,tracks.known source target (by simpa using connected)]

theorem tracks_handle (tracks : Tracks calls b) (call : BuilderCall) : Tracks (calls ++ [call]) (b.handle call) := by
  cases call with
  | add node =>
    rw [handle,append]
    split
    · next refused => exact tracks.refused refused
    · next fine => exact tracks.accepted (Bool.not_eq_true _ ▸ fine)
  | connect a c => exact tracks.connect a c
  | build =>
    rw [handle,build_state]
    exact tracks.apply (.inl rfl)
  | preview => exact tracks.apply (.inr rfl)
  | toWorkflow => exact tracks.same

theorem tracks_handleAll (name : String) (calls : List BuilderCall) : Tracks calls (handleAll name calls) := by
  induction calls using List.reverseRecOn with
  | nil => exact tracks_start name
  | append_singleton calls call ih =>
    rw [handleAll,List.foldl_append]
    exact tracks_handle ih call

/-! ### When both translations denote the graph of the calls -/

theorem wanted_iff_connected (careful : Careful calls) :
    Wanted calls source target ↔ .connect source target ∈ calls :=
  ⟨fun wanted => wanted.elim (careful.connected source target) id,.inr⟩

theorem build_of_careful (tracks : Tracks calls b) (careful : Careful calls) :
    ∃ blueprint, b.build.1 = .ok blueprint ∧
      ∀ source target, Denotes blueprint.nodes source target ↔ Wanted calls source target := by
  refine ⟨_,(build_ok b _).mpr ⟨rfl,fun source target edge _ => ?_⟩,fun source target => ?_⟩
  · exact (tracks.present source).mpr (careful.added source target ((tracks.edges source target).mp edge)).1
  · rw [denotes_apply,tracks.edges,tracks.present,wanted_iff_connected careful]
    exact ⟨And.left,fun connected => ⟨connected,(careful.added source target connected).2⟩⟩

theorem workflow_of_careful (tracks : Tracks calls b) (careful : Careful calls) (source target : String) :
    Denotes b.toWorkflow.2 source target ↔ Wanted calls source target := by
  refine ⟨tracks.sound source target,fun wanted => ?_⟩
  have connected := (wanted_iff_connected careful).mp wanted
  exact (tracks.known source target connected).mpr (careful.known source target connected)

theorem careful_of_faithful (tracks : Tracks calls b) {blueprint : BuiltBlueprint} (built : b.build.1 = .ok blueprint)
    (builds : ∀ source target, Denotes blueprint.nodes source target ↔ Wanted calls source target)
    (makes : ∀ source target, Denotes b.toWorkflow.2 source target ↔ Wanted calls source target) : Careful calls := by
  obtain ⟨rfl,resolved⟩ := (build_ok b blueprint).mp built
  have applied (source target : String) (wanted : Wanted calls source target) :
      .connect source target ∈ calls ∧ Added calls target := by
    have denotes := (builds source target).mpr wanted
    rwa [denotes_apply,tracks.edges,tracks.present] at denotes
  refine ⟨fun source target declared => (applied source target (.inl declared)).1,fun source target connected => ?_,
    fun source target connected => ?_⟩
  · have added := (applied source target (.inr connected)).2
    have present := resolved source target ((tracks.edges source target).mpr connected) ((tracks.present target).mpr added)
    exact ⟨(tracks.present source).mp present,added⟩
  · exact (tracks.known source target connected).mp ((makes source target).mpr (.inr connected))

section

variable {terminals : List BuilderCall} (only : ∀ c ∈ terminals, Terminal c)
include only

theorem add_terminals (node : BuilderNode) : .add node ∈ calls ++ terminals ↔ .add node ∈ calls := by
  rw [List.mem_append]
  exact ⟨fun either => either.resolve_right (only _),.inl⟩

theorem connect_terminals : .connect source target ∈ calls ++ terminals ↔ .connect source target ∈ calls := by
  rw [List.mem_append]
  exact ⟨fun either => either.resolve_right (only _),.inl⟩

theorem declared_terminals : Declared (calls ++ terminals) source target ↔ Declared calls source target := by
  simp only [Declared,add_terminals only]

theorem wanted_terminals : Wanted (calls ++ terminals) source target ↔ Wanted calls source target := by
  rw [Wanted,Wanted,declared_terminals only,connect_terminals only]

theorem careful_terminals (careful : Careful calls) : Careful (calls ++ terminals) where
  connected source target := by
    rw [declared_terminals only,connect_terminals only]
    exact careful.connected source target
  added source target := by
    simp only [connect_terminals only,Added,add_terminals only]
    exact careful.added source target
  known source target := by
    rw [connect_terminals only,Known,declared_terminals only]
    intro connected
    refine (careful.known source target connected).imp_right ?_
    rintro ⟨node,c,fine,same,kind,sublist⟩
    exact ⟨node,c,fine,same,kind,sublist.trans (List.sublist_append_left calls terminals)⟩

end

theorem careful_of_always {name : String} (faithful : Faithful name calls) : Careful calls := by
  obtain ⟨⟨blueprint,built,builds⟩,makes⟩ := faithful [] (fun _ member => by cases member)
  rw [List.append_nil] at built makes
  exact careful_of_faithful (tracks_handleAll name calls) built builds makes

/-- Both translations denote the graph of the calls, however often they are used, exactly where every declared
dependency is connected as well, every connection is between nodes that are added, and every node came to know of its
connections. -/
theorem faithful_iff (name : String) (calls : List BuilderCall) : Faithful name calls ↔ Careful calls := by
  refine ⟨careful_of_always,fun careful terminals only => ?_⟩
  have tracks := tracks_handleAll name (calls ++ terminals)
  have still := careful_terminals only careful
  refine ⟨?_,fun source target => ?_⟩
  · obtain ⟨blueprint,built,builds⟩ := build_of_careful tracks still
    exact ⟨blueprint,built,fun source target => (builds source target).trans (wanted_terminals only)⟩
  · exact (workflow_of_careful tracks still source target).trans (wanted_terminals only)

/-- A dependency that is only declared is lost when the blueprint is built. -/
theorem declared_dependency_lost : ¬∀ calls, Faithful "draft" calls := by
  intro always
  have careful := careful_of_always
    (always [.add { id := "a",type := .tool },.add { id := "b",type := .llm,dependencies := ["a"] }])
  have connected := careful.connected "a" "b" ⟨_,List.mem_cons_of_mem _ List.mem_cons_self,by decide,rfl,by simp⟩
  simp at connected

end

end

end WorkflowBuilder

end IceOS
