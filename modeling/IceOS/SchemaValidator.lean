import IceOS.BlueprintApi
import IceOS.DirectedPaths
import IceOS.KahnSort

/-! `validate_blueprint`: the schema version, and a cycle check with Kahn's algorithm over the node
specifications. It compares the number of nodes taken with the length of the list. -/
namespace IceOS

def supportedVersions : List String := ["1.1.0","1.2.0"]

inductive BlueprintError where
  | version (declared : String)
  | circularDependency
  deriving DecidableEq, Repr

namespace SchemaValidator

/-- How many dependencies each id has. Nodes of one id are counted together. -/
def countDependencies (inDegree : OrderedDict String Int) (node : NodeSpec) : OrderedDict String Int :=
  node.dependencies.foldl (fun d _ => d.set node.id (KahnSort.degree d node.id + 1)) inDegree

def inDegrees (nodes : List NodeSpec) : OrderedDict String Int :=
  nodes.foldl countDependencies (.ofList (nodes.map fun node => (node.id,0)))

def addNeighbours (adjacency : OrderedDict String (List String)) (node : NodeSpec) :
    OrderedDict String (List String) :=
  node.dependencies.foldl (fun a dep => a.set dep ((a.get? dep).getD [] ++ [node.id])) adjacency

def adjacency (nodes : List NodeSpec) : OrderedDict String (List String) := nodes.foldl addNeighbours .empty

def neighbours (nodes : List NodeSpec) (id : String) : List String := ((adjacency nodes).get? id).getD []

/-- The ids in the order in which they are processed. -/
def processed (nodes : List NodeSpec) : List String :=
  let inDegree := inDegrees nodes
  KahnSort.take (neighbours nodes) nodes.length ((inDegree.items.filter (·.2 = 0)).map Prod.fst) inDegree

def validateBlueprint (bp : Blueprint) : Except BlueprintError Unit :=
  if bp.schemaVersion ∉ supportedVersions then .error (.version bp.schemaVersion)
  else if (processed bp.nodes).length ≠ bp.nodes.length then .error .circularDependency
  else .ok ()

/-! ### The check as an instance of the algorithm -/

def waits (nodes : List NodeSpec) (id : String) : List String :=
  (nodes.filter (·.id = id)).flatMap (·.dependencies)

theorem waits_cons (node : NodeSpec) (rest : List NodeSpec) (id : String) :
    waits (node :: rest) id = (if node.id = id then node.dependencies else []) ++ waits rest id := by
  by_cases same : node.id = id <;> simp [waits,same]

theorem countDependencies_degree (d : OrderedDict String Int) (node : NodeSpec) (id : String) :
    KahnSort.degree (countDependencies d node) id =
      KahnSort.degree d id + if node.id = id then node.dependencies.length else 0 := by
  unfold countDependencies
  induction node.dependencies generalizing d with
  | nil => simp
  | cons dep rest ih =>
    rw [List.foldl_cons,ih,KahnSort.degree_set]
    by_cases same : node.id = id
    · subst same
      simp only [if_true,List.length_cons]
      omega
    · simp [same]

theorem inDegrees_degree (nodes : List NodeSpec) (id : String) :
    KahnSort.degree (inDegrees nodes) id = (waits nodes id).length := by
  have step (todo : List NodeSpec) (d : OrderedDict String Int) :
      KahnSort.degree (todo.foldl countDependencies d) id = KahnSort.degree d id + (waits todo id).length := by
    induction todo generalizing d with
    | nil => simp [waits]
    | cons node rest ih =>
      rw [List.foldl_cons,ih,countDependencies_degree,waits_cons]
      by_cases same : node.id = id
      · simp only [same,if_true,List.length_append]
        omega
      · simp [same]
  have start : KahnSort.degree (OrderedDict.ofList (nodes.map fun node => (node.id,(0 : Int)))) id = 0 := by
    unfold KahnSort.degree
    cases found : (OrderedDict.ofList (nodes.map fun node => (node.id,(0 : Int)))).get? id with
    | none => rfl
    | some n =>
      obtain ⟨node,_,same⟩ := List.mem_map.mp (OrderedDict.get?_ofList _ found)
      cases same
      rfl
  rw [inDegrees,step,start,Int.zero_add]

/-- Every id is in the dictionary from the start. -/
theorem countDependencies_keys (d : OrderedDict String Int) (node : NodeSpec) (known : node.id ∈ d.keys) (key : String) :
    key ∈ (countDependencies d node).keys ↔ key ∈ d.keys := by
  unfold countDependencies
  induction node.dependencies generalizing d with
  | nil => rfl
  | cons dep rest ih =>
    rw [List.foldl_cons,ih _ ((d.mem_keys_set _ _ _).mpr (.inl rfl)),OrderedDict.mem_keys_set]
    exact or_iff_right_of_imp fun same => same ▸ known

theorem mem_inDegrees (nodes : List NodeSpec) (key : String) :
    key ∈ (inDegrees nodes).keys ↔ key ∈ nodes.map (·.id) := by
  have step (todo : List NodeSpec) (d : OrderedDict String Int) (known : ∀ node ∈ todo, node.id ∈ d.keys) :
      key ∈ (todo.foldl countDependencies d).keys ↔ key ∈ d.keys := by
    induction todo generalizing d with
    | nil => rfl
    | cons node rest ih =>
      have here := countDependencies_keys d node (known node List.mem_cons_self)
      rw [List.foldl_cons,ih _ fun other later => ?_,here]
      exact (here other.id).mpr (known other (List.mem_cons_of_mem node later))
  rw [inDegrees,step]
  · simp
  · intro node member
    simp only [OrderedDict.mem_keys_ofList,List.map_map]
    exact List.mem_map_of_mem member

theorem addNeighbours_get? (a : OrderedDict String (List String)) (node : NodeSpec) (key : String) :
    ((addNeighbours a node).get? key).getD [] =
      (a.get? key).getD [] ++ List.replicate (node.dependencies.count key) node.id := by
  unfold addNeighbours
  induction node.dependencies generalizing a with
  | nil => simp
  | cons dep rest ih =>
    rw [List.foldl_cons,ih,OrderedDict.get?_set,List.count_cons]
    by_cases same : dep = key
    · simp [same,List.replicate_succ]
    · simp [same]

theorem neighbours_eq (nodes : List NodeSpec) (key : String) :
    neighbours nodes key = nodes.flatMap fun node => List.replicate (node.dependencies.count key) node.id := by
  have step (todo : List NodeSpec) (a : OrderedDict String (List String)) :
      ((todo.foldl addNeighbours a).get? key).getD [] = (a.get? key).getD [] ++
        todo.flatMap fun node => List.replicate (node.dependencies.count key) node.id := by
    induction todo generalizing a with
    | nil => simp
    | cons node rest ih => rw [List.foldl_cons,ih,addNeighbours_get?,List.flatMap_cons,List.append_assoc]
  simpa [neighbours,adjacency] using step nodes .empty

theorem count_neighbours (nodes : List NodeSpec) (key other : String) :
    (neighbours nodes key).count other = (waits nodes other).count key := by
  rw [neighbours_eq]
  induction nodes with
  | nil => rfl
  | cons node rest ih =>
    rw [List.flatMap_cons,List.count_append,ih,waits_cons,List.count_append]
    by_cases same : node.id = other <;> simp [same,List.count_replicate]

/-- A node waits for each of its dependencies as often as it lists it. -/
def problem (nodes : List NodeSpec) : KahnSort.Problem String where
  keys := (inDegrees nodes).keys
  nodup := (inDegrees nodes).keys_nodup
  waits := waits nodes
  neighbours := neighbours nodes
  inside key other listed := by
    rw [neighbours_eq] at listed
    obtain ⟨node,member,listed⟩ := List.mem_flatMap.mp listed
    rw [mem_inDegrees,List.eq_of_mem_replicate listed]
    exact List.mem_map_of_mem member
  counted key other _ := count_neighbours nodes key other

theorem processed_state (nodes : List NodeSpec) : ∃ d, (problem nodes).State (processed nodes) [] d := by
  let d := inDegrees nodes
  let queue := (d.items.filter (·.2 = 0)).map Prod.fst
  have ready (key : String) (known : key ∈ d.keys) : key ∈ queue ↔ KahnSort.degree d key = 0 := by
    obtain ⟨n,found⟩ := Option.isSome_iff_exists.mp ((d.mem_keys key).mp known)
    have listed := (d.get?_eq_some key n).mp found
    simp only [KahnSort.degree,found,Option.getD_some]
    constructor
    · intro queued
      obtain ⟨⟨_,m⟩,member,rfl⟩ := List.mem_map.mp queued
      obtain ⟨member,zero⟩ := List.mem_filter.mp member
      have same := ((d.get?_eq_some _ m).mpr member).symm.trans found
      cases same
      simpa using zero
    · rintro rfl
      exact List.mem_map.mpr ⟨(key,0),List.mem_filter.mpr ⟨listed,by simp⟩,rfl⟩
  have start : (problem nodes).State [] queue d :=
    { nodup := (List.filter_sublist.map Prod.fst).nodup d.keys_nodup
      inside := fun key queued => (List.filter_sublist.map Prod.fst).subset queued
      open' := fun key _ => by
        rw [inDegrees_degree]
        simp [problem]
      ready := ready
      ordered := fun before key after parts => by simp at parts }
  have enough : (problem nodes).keys.length ≤ nodes.length := by
    rw [← List.length_map (f := fun node : NodeSpec => node.id)]
    exact (List.subperm_of_subset (problem nodes).nodup fun key known => (mem_inDegrees nodes key).mp known).length_le
  exact KahnSort.Problem.take_state start (by simpa using enough)

end SchemaValidator

/-- `u` is a dependency of a node with the id `v`. -/
def DependsOn (nodes : List NodeSpec) (u v : String) : Prop := ∃ node ∈ nodes, node.id = v ∧ u ∈ node.dependencies

namespace SchemaValidator

theorem mem_waits (nodes : List NodeSpec) (u v : String) : u ∈ waits nodes v ↔ DependsOn nodes u v := by
  simp [waits,DependsOn,and_assoc]

theorem keys_length (nodes : List NodeSpec) : (problem nodes).keys.length ≤ nodes.length ∧
    ((problem nodes).keys.length = nodes.length ↔ (nodes.map (·.id)).Nodup) := by
  have inside : (problem nodes).keys ⊆ nodes.map (·.id) := fun key known => (mem_inDegrees nodes key).mp known
  have outside : nodes.map (·.id) ⊆ (problem nodes).keys := fun key known => (mem_inDegrees nodes key).mpr known
  have short := List.subperm_of_subset (problem nodes).nodup inside
  have lengths : (nodes.map (·.id)).length = nodes.length := List.length_map _
  refine ⟨lengths ▸ short.length_le,fun same => ?_,fun distinct => ?_⟩
  · have perm := short.perm_of_length_le (by omega)
    exact perm.nodup_iff.mp (problem nodes).nodup
  · have long := (List.subperm_of_subset distinct outside).length_le
    have short := short.length_le
    omega

/-- All nodes were processed: the ids are distinct and the nodes can be ranked along the dependencies. -/
theorem processed_length (nodes : List NodeSpec) :
    (processed nodes).length = nodes.length ↔ (nodes.map (·.id)).Nodup ∧
      ∃ rank : String → Nat, ∀ u v, DependsOn nodes u v → u ∈ nodes.map (·.id) ∧ rank u < rank v := by
  obtain ⟨d,finished⟩ := processed_state nodes
  obtain ⟨short,distinct⟩ := keys_length nodes
  have keys (key : String) : key ∈ (problem nodes).keys ↔ key ∈ nodes.map (·.id) := mem_inDegrees nodes key
  have ranked : (∀ key ∈ (problem nodes).keys, key ∈ processed nodes) ↔
      ∃ rank : String → Nat, ∀ u v, DependsOn nodes u v → u ∈ nodes.map (·.id) ∧ rank u < rank v := by
    rw [finished.complete_iff]
    refine exists_congr fun rank => ⟨fun rising u v depends => ?_,fun rising v _ u waited => ?_⟩
    · have known : v ∈ (problem nodes).keys := by
        obtain ⟨node,member,same,_⟩ := depends
        exact (keys v).mpr (same ▸ List.mem_map_of_mem member)
      obtain ⟨inside,below⟩ := rising v known u ((mem_waits nodes u v).mpr depends)
      exact ⟨(keys u).mp inside,below⟩
    · obtain ⟨inside,below⟩ := rising u v ((mem_waits nodes u v).mp waited)
      exact ⟨(keys u).mpr inside,below⟩
  rw [← distinct,← ranked,← finished.length_iff]
  have bounded : (processed nodes).length ≤ (problem nodes).keys.length := by
    have nodup : (processed nodes).Nodup := by simpa using finished.nodup
    exact (List.subperm_of_subset nodup fun key taken => finished.inside key (by simpa using taken)).length_le
  omega

theorem processed_perm {nodes : List NodeSpec} (all : (processed nodes).length = nodes.length) :
    (processed nodes).Perm (nodes.map (·.id)) := by
  obtain ⟨d,finished⟩ := processed_state nodes
  have nodup : (processed nodes).Nodup := by simpa using finished.nodup
  have inside : processed nodes ⊆ nodes.map (·.id) := fun key taken =>
    (mem_inDegrees nodes key).mp (finished.inside key (by simpa using taken))
  refine (List.subperm_of_subset nodup inside).perm_of_length_le ?_
  rw [List.length_map]
  exact Nat.le_of_eq all.symm

theorem validateBlueprint_iff (bp : Blueprint) :
    validateBlueprint bp = .ok () ↔ bp.schemaVersion ∈ supportedVersions ∧ (bp.nodes.map (·.id)).Nodup ∧
      ∃ rank : String → Nat, ∀ u v, DependsOn bp.nodes u v → u ∈ bp.nodes.map (·.id) ∧ rank u < rank v := by
  rw [← processed_length,validateBlueprint]
  by_cases supported : bp.schemaVersion ∈ supportedVersions
  · by_cases all : (processed bp.nodes).length = bp.nodes.length <;> simp [supported,all]
  · simp [supported]

/-- The dependencies as a graph. A dependency that is listed twice is an edge twice. -/
def specGraph (nodes : List NodeSpec) (distinct : (nodes.map (·.id)).Nodup)
    (resolves : ∀ node ∈ nodes, ∀ dep ∈ node.dependencies, dep ∈ nodes.map (·.id)) : DirectedGraph String where
  nodes := nodes.map (·.id)
  edges := nodes.flatMap fun node => node.dependencies.map (·,node.id)
  nodup := distinct
  closed := by
    intro e member
    obtain ⟨node,inside,listed⟩ := List.mem_flatMap.mp member
    obtain ⟨dep,depends,rfl⟩ := List.mem_map.mp listed
    exact ⟨resolves node inside dep depends,List.mem_map_of_mem inside⟩

theorem specGraph_edge {nodes : List NodeSpec} (distinct : (nodes.map (·.id)).Nodup)
    (resolves : ∀ node ∈ nodes, ∀ dep ∈ node.dependencies, dep ∈ nodes.map (·.id)) :
    (specGraph nodes distinct resolves).Edge = DependsOn nodes := by
  funext u v
  simp only [DirectedGraph.Edge,specGraph,List.mem_flatMap,List.mem_map,Prod.mk.injEq]
  apply propext
  constructor
  · rintro ⟨node,inside,dep,depends,rfl,rfl⟩
    exact ⟨node,inside,rfl,depends⟩
  · rintro ⟨node,inside,rfl,depends⟩
    exact ⟨node,inside,u,depends,rfl,rfl⟩

/-- What is accepted are the supported blueprints with distinct ids whose dependencies all name a node and
form no cycle. -/
theorem validateBlueprint_accepts_iff (bp : Blueprint) :
    validateBlueprint bp = .ok () ↔ bp.schemaVersion ∈ supportedVersions ∧ (bp.nodes.map (·.id)).Nodup ∧
      (∀ node ∈ bp.nodes, ∀ dep ∈ node.dependencies, dep ∈ bp.nodes.map (·.id)) ∧
      ∀ id, ¬Relation.TransGen (DependsOn bp.nodes) id id := by
  rw [validateBlueprint_iff]
  apply and_congr_right'
  apply and_congr_right
  intro distinct
  constructor
  · rintro ⟨rank,rising⟩
    have resolves (node : NodeSpec) (inside : node ∈ bp.nodes) (dep : String) (depends : dep ∈ node.dependencies) :
        dep ∈ bp.nodes.map (·.id) := (rising dep node.id ⟨node,inside,rfl,depends⟩).1
    refine ⟨resolves,DirectedGraph.acyclic_iff.mpr ?_⟩
    rw [← specGraph_edge distinct resolves] at rising ⊢
    apply (specGraph bp.nodes distinct resolves).ranked_iff.mp
    exact ⟨rank,fun u v edge => (rising u v edge).2⟩
  · rintro ⟨resolves,acyclic⟩
    have none := DirectedGraph.acyclic_iff.mp acyclic
    rw [← specGraph_edge distinct resolves] at none
    obtain ⟨rank,rising⟩ := (specGraph bp.nodes distinct resolves).ranked_iff.mpr none
    refine ⟨rank,fun u v depends => ⟨?_,?_⟩⟩
    · obtain ⟨node,inside,_,listed⟩ := depends
      exact resolves node inside u listed
    · apply rising
      rwa [specGraph_edge]

/-- In the order of processing a node comes after everything it depends on. -/
theorem processed_order {nodes : List NodeSpec} {u v : String} (depends : DependsOn nodes u v) {before after : List String}
    (parts : processed nodes = before ++ v :: after) : u ∈ before := by
  obtain ⟨d,finished⟩ := processed_state nodes
  exact finished.ordered before v after parts u ((mem_waits nodes u v).mpr depends)

end SchemaValidator

end IceOS
