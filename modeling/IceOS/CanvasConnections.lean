import IceOS.CanvasStore
import IceOS.DirectedGraph
import IceOS.StackSearch

/-! The canvas's check of a new connection. It follows dependencies from the target, and so finds out whether the
target depends on the source already; the new edge closes a cycle if the source depends on the target. -/
namespace IceOS.CanvasStore

variable {φ ν ι : Type}

/-- Later nodes override, and an unknown id has no dependencies. -/
def depsOf (nodes : List (CanvasNode φ ι)) (nodeId : String) : List String :=
  ((OrderedDict.ofList (nodes.map fun n => (n.id,n.dependencies.getD []))).get? nodeId).getD []

/-- The fuel is enough for every search. -/
def hasPath (bp : Option (CanvasBlueprint φ ι)) (start goal : String) : Bool :=
  let nodes := (bp.bind (·.nodes)).getD []
  let fuel := StackSearch.work (depsOf nodes) (nodes.map (·.id)) [start] []
  StackSearch.search (depsOf nodes) goal fuel [start] [] = some true

structure Connection where
  source : Option String
  target : Option String

/-- An id that is empty counts as none. -/
def isValidConnection (bp : Option (CanvasBlueprint φ ι)) (conn : Connection) : Bool :=
  match conn.source,conn.target with
  | some source,some target =>
    if source = "" ∨ target = "" ∨ source = target then false
    else !hasPath bp target source
  | _,_ => false

/-! ### What the check finds -/

/-- Some node with the id has the dependency. -/
def Depends (nodes : List (CanvasNode φ ι)) (nodeId dep : String) : Prop :=
  ∃ n ∈ nodes, n.id = nodeId ∧ dep ∈ n.dependencies.getD []

def Acyclic (nodes : List (CanvasNode φ ι)) : Prop := ∀ nodeId, ¬Relation.TransGen (Depends nodes) nodeId nodeId

theorem depsOf_outside (nodes : List (CanvasNode φ ι)) {nodeId : String} (outside : nodeId ∉ nodes.map (·.id)) :
    depsOf nodes nodeId = [] :=
  OrderedDict.getD_ofList_absent (fun n : CanvasNode φ ι => n.id) (fun n => n.dependencies.getD []) outside

theorem depsOf_depends {nodes : List (CanvasNode φ ι)} {nodeId dep : String} (member : dep ∈ depsOf nodes nodeId) :
    Depends nodes nodeId dep := by
  unfold depsOf at member
  cases found : (OrderedDict.ofList (nodes.map fun n => (n.id,n.dependencies.getD []))).get? nodeId with
  | none => simp [found] at member
  | some deps =>
    obtain ⟨n,inside,same⟩ := List.mem_map.mp (OrderedDict.get?_ofList _ found)
    cases same
    exact ⟨n,inside,rfl,by simpa [found] using member⟩

theorem hasPath_iff (bp : Option (CanvasBlueprint φ ι)) (start goal : String) :
    hasPath bp start goal = true ↔ StackSearch.Leads (depsOf ((bp.bind (·.nodes)).getD [])) start goal := by
  simp only [hasPath,decide_eq_true_eq]
  exact StackSearch.search_iff (fun _ => depsOf_outside _) (le_refl _)

theorem isValidConnection_iff (bp : Option (CanvasBlueprint φ ι)) {source target : String} (distinct : source ≠ target) :
    isValidConnection bp ⟨some source,some target⟩ = true ↔
      source ≠ "" ∧ target ≠ "" ∧ ¬StackSearch.Leads (depsOf ((bp.bind (·.nodes)).getD [])) target source := by
  rw [← hasPath_iff]
  by_cases first : source = "" <;> by_cases second : target = "" <;> simp [isValidConnection,first,second,distinct]

/-! ### What the connection makes of the blueprint -/

theorem mem_set_of_mem {α : Type} {xs : List α} {i : Nat} {a x : α} (found : xs[i]? = some a) (b : α) (member : x ∈ xs) :
    x = a ∨ x ∈ xs.set i b := by
  obtain ⟨j,there⟩ := List.mem_iff_getElem?.mp member
  by_cases here : i = j
  · subst here
    exact .inl (Option.some.inj (there.symm.trans found))
  · exact .inr (List.mem_of_getElem? ((List.getElem?_set_ne here).trans there))

/-- An element is replaced by one with all its properties of a kind. -/
theorem exists_mem_set {α : Type} {p : α → Prop} {xs : List α} {i : Nat} {a b : α} (found : xs[i]? = some a)
    (keeps : p a → p b) : (∃ x ∈ xs.set i b, p x) ↔ (∃ x ∈ xs, p x) ∨ p b := by
  have new := List.mem_set (List.getElem?_eq_some_iff.mp found).1 b
  constructor
  · rintro ⟨x,member,own⟩
    rcases List.mem_or_eq_of_mem_set member with old | rfl
    · exact .inl ⟨x,old,own⟩
    · exact .inr own
  · rintro (⟨x,member,own⟩ | own)
    · rcases mem_set_of_mem found b member with rfl | still
      · exact ⟨b,new,keeps own⟩
      · exact ⟨x,still,own⟩
    · exact ⟨b,new,own⟩

theorem found_named {nodes : List (CanvasNode φ ι)} {nodeId : String} {node : CanvasNode φ ι}
    (found : nodes[nodes.findIdx (·.id = nodeId)]? = some node) : node.id = nodeId := by
  rw [← List.find?_eq_getElem?_findIdx] at found
  simpa using List.find?_some found

theorem first_named {nodes : List (CanvasNode φ ι)} {nodeId : String} (known : nodeId ∈ nodes.map (·.id)) :
    ∃ node, nodes[nodes.findIdx (·.id = nodeId)]? = some node ∧ node.id = nodeId := by
  obtain ⟨n,member,own⟩ := List.mem_map.mp known
  have bound : nodes.findIdx (·.id = nodeId) < nodes.length :=
    List.findIdx_lt_length_of_exists ⟨n,member,by simpa using own⟩
  have found := List.getElem?_eq_getElem bound
  exact ⟨_,found,found_named found⟩

/-- The first node with the id of the target gets the dependency, unless it has it. -/
theorem connectEdge_depends {s : Canvas φ ν} {bp : CanvasBlueprint φ Nat} (loaded : s.blueprint = some bp)
    (source : String) {target : String} (targetHandle : String) (known : target ∈ (bp.nodes.getD []).map (·.id)) :
    ∃ after, (connectEdge source target targetHandle s).blueprint = some after ∧
      ∀ nodeId dep, Depends (after.nodes.getD []) nodeId dep ↔
        Depends (bp.nodes.getD []) nodeId dep ∨ (nodeId = target ∧ dep = source) := by
  obtain ⟨node,found,named⟩ := first_named known
  have grows (dep : String) : dep ∈ (if source ∈ node.dependencies.getD [] then node.dependencies.getD []
      else node.dependencies.getD [] ++ [source]) ↔ dep ∈ node.dependencies.getD [] ∨ dep = source := by
    split
    · next there => exact ⟨.inl,fun h => h.elim id fun same => same ▸ there⟩
    · rw [List.mem_append,List.mem_singleton]
  have old (dep : String) (member : dep ∈ node.dependencies.getD []) : Depends (bp.nodes.getD []) target dep :=
    ⟨node,List.mem_of_getElem? found,named,member⟩
  simp only [connectEdge,loaded,found,Option.some.injEq,exists_eq_left',Option.getD_some]
  intro nodeId dep
  rw [Depends,exists_mem_set found (fun h => ⟨h.1,(grows dep).mpr (.inl h.2)⟩),Option.getD_some,grows,named]
  constructor
  · rintro (before | ⟨rfl,here | rfl⟩)
    · exact .inl before
    · exact .inl (old dep here)
    · exact .inr ⟨rfl,rfl⟩
  · rintro (before | ⟨rfl,rfl⟩)
    · exact .inl before
    · exact .inr ⟨rfl,.inr rfl⟩

/-- The connection is accepted if and only if the blueprint with it is acyclic. -/
def Accurate (s : Canvas φ ν) (source target targetHandle : String) : Prop :=
  isValidConnection s.blueprint ⟨some source,some target⟩ = true ↔
    ∀ after ∈ (connectEdge source target targetHandle s).blueprint, Acyclic (after.nodes.getD [])

theorem connected_acyclic_iff {s : Canvas φ ν} {bp : CanvasBlueprint φ Nat} (loaded : s.blueprint = some bp)
    (acyclic : Acyclic (bp.nodes.getD [])) {source target : String} (targetHandle : String)
    (known : target ∈ (bp.nodes.getD []).map (·.id)) :
    (∀ after ∈ (connectEdge source target targetHandle s).blueprint, Acyclic (after.nodes.getD [])) ↔
      ¬Relation.ReflTransGen (Depends (bp.nodes.getD [])) source target := by
  obtain ⟨after,done,adds⟩ := connectEdge_depends loaded source targetHandle known
  simp only [done,Option.mem_def,Option.some.injEq,forall_eq']
  exact DirectedGraph.acyclic_insert_iff adds acyclic

/-- What the source depends on is not asked: the check is right only where the answer would be no, or for an id that
it refuses anyway where the answer would be yes. -/
theorem connections_accurate_iff {s : Canvas φ ν} {bp : CanvasBlueprint φ Nat} (loaded : s.blueprint = some bp)
    (acyclic : Acyclic (bp.nodes.getD [])) {source target : String} (targetHandle : String)
    (known : target ∈ (bp.nodes.getD []).map (·.id)) (distinct : source ≠ target) :
    Accurate s source target targetHandle ↔
      if source = "" ∨ target = "" then Relation.ReflTransGen (Depends (bp.nodes.getD [])) source target
      else ¬Relation.ReflTransGen (Depends (bp.nodes.getD [])) source target ∧
        ¬StackSearch.Leads (depsOf (bp.nodes.getD [])) target source := by
  have apart (there : Relation.ReflTransGen (Depends (bp.nodes.getD [])) source target) :
      ¬StackSearch.Leads (depsOf (bp.nodes.getD [])) target source := by
    intro back
    have back := Relation.ReflTransGen.mono (fun _ _ member => depsOf_depends member) _ _ back
    rcases Relation.reflTransGen_iff_eq_or_transGen.mp there with same | path
    · exact distinct same.symm
    · exact acyclic source (path.trans_left back)
  rw [Accurate,connected_acyclic_iff loaded acyclic targetHandle known,isValidConnection_iff _ distinct,loaded,
    Option.bind_some]
  split
  · next empty => tauto
  · next named =>
    obtain ⟨first,second⟩ := not_or.mp named
    constructor
    · intro accurate
      by_cases there : Relation.ReflTransGen (Depends (bp.nodes.getD [])) source target
      · exact absurd there (accurate.mp ⟨first,second,apart there⟩)
      · exact ⟨there,(accurate.mpr there).2.2⟩
    · rintro ⟨there,back⟩
      exact ⟨fun _ => there,fun _ => ⟨first,second,back⟩⟩

/-- `b` depends on `a`. -/
def orderedBlueprint : CanvasBlueprint Unit Nat where
  nodes := some [{ id := "a" },{ id := "b",dependencies := some ["a"] },{ id := "c" }]

def orderedCanvas : Canvas Unit Int := { blueprint := some orderedBlueprint }

theorem orderedBlueprint_depends (u v : String) :
    Depends (orderedBlueprint.nodes.getD []) u v ↔ u = "b" ∧ v = "a" := by
  have named : "b" = u ↔ u = "b" := eq_comm
  simp [orderedBlueprint,Depends,named]

theorem orderedBlueprint_acyclic : Acyclic (orderedBlueprint.nodes.getD []) := by
  intro nodeId cycle
  obtain ⟨next,first,_⟩ := Relation.TransGen.head'_iff.mp cycle
  obtain ⟨last,_,into⟩ := Relation.TransGen.tail'_iff.mp cycle
  have start := ((orderedBlueprint_depends _ _).mp first).1
  have goal := ((orderedBlueprint_depends _ _).mp into).2
  exact absurd (start.symm.trans goal) (by decide)

/-- Connecting `b` back to `a` is accepted and closes a cycle. -/
theorem orderedCanvas_connects_back :
    Acyclic (orderedBlueprint.nodes.getD []) ∧ ¬Accurate orderedCanvas "b" "a" "in" := by
  refine ⟨orderedBlueprint_acyclic,fun accurate => ?_⟩
  have still := accurate.mp (by decide)
  rw [connected_acyclic_iff (s := orderedCanvas) rfl orderedBlueprint_acyclic "in" (by decide)] at still
  exact still (.single ((orderedBlueprint_depends "b" "a").mpr ⟨rfl,rfl⟩))

/-- `b` may be made to depend on `c` as well. -/
theorem orderedCanvas_connects_on : Accurate orderedCanvas "c" "b" "in" := by
  refine (connections_accurate_iff rfl orderedBlueprint_acyclic "in" (by decide) (by decide)).mpr ?_
  rw [if_neg (by decide)]
  refine ⟨fun path => ?_,fun path => ?_⟩
  · rcases Relation.ReflTransGen.cases_head path with same | ⟨next,depends,_⟩
    · exact absurd same (by decide)
    · exact absurd ((orderedBlueprint_depends _ _).mp depends).1 (by decide)
  · have found := (hasPath_iff (some orderedBlueprint) "b" "c").mpr path
    exact absurd found (by decide)

end IceOS.CanvasStore
