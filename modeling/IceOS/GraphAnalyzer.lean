import IceOS.ExceptRules
import IceOS.LevelAssignment

/-! The metrics of a dependency graph. The scores are rational numbers here, not floats. -/
namespace IceOS

open DirectedGraph (TopologicalOrder)

/-- The further networkx functions: the nodes that are reached from a source and how far they are, and the length of
a longest path. -/
structure NetworkxLengths extends Networkx where
  shortestPathLength : DirectedGraph String → String → List (String × Nat)
  dagLongestPathLength : DirectedGraph String → Nat

/-- A source reaches itself. -/
structure NetworkxLengths.Correct (nx : NetworkxLengths) : Prop where
  toNetworkx : nx.toNetworkx.Correct
  reached : ∀ g u, u ∈ g.nodes → (u,0) ∈ nx.shortestPathLength g u

/-- What `max_depth` is set to: `max` of views of dictionaries is a view. -/
inductive Depth where
  | number (n : Nat)
  | view (lengths : List Nat)
  deriving DecidableEq, Repr

structure GraphMetrics where
  totalNodes : Nat
  totalEdges : Nat
  maxDepth : Depth
  parallelOpportunities : Nat
  criticalPathLength : Nat
  complexityScore : Rat
  bottleneckNodes : List String
  leafNodes : List String
  rootNodes : List String

/-- It is no `NetworkXError`. -/
def networkXUnfeasible : Exn :=
  let text := "Graph contains a cycle or graph changed during iteration"
  ⟨text,"NetworkXUnfeasible(" ++ PythonText.repr text ++ ")"⟩

def stopIteration : Exn := ⟨"","StopIteration()"⟩

namespace GraphAnalyzer

def fromNodes (nodes : List NodeConfig) : DirectedGraph String :=
  nodes.foldl (fun g node => node.dependencies.foldl (fun g dep => g.addEdge dep node.id) (g.addNode node.id)) .empty

section

variable (nx : NetworkxLengths) (g : DirectedGraph String)

def getRootNodes : List String := g.nodes.filter fun n => (g.predecessors n).isEmpty

def getLeafNodes : List String := g.sinks

/-- The first level whose nodes include this one. -/
def levelOf (levels : OrderedDict Int (List String)) (id : String) : Option Int :=
  (levels.items.find? fun level => level.2.contains id).map Prod.fst

def placeNode (levels : OrderedDict Int (List String)) (node : String) : Except Exn (OrderedDict Int (List String)) := do
  let level ← (g.predecessors node).foldlM (fun (level : Int) pred =>
    match levelOf levels pred with
    | some predLevel => .ok (max level (predLevel + 1))
    | none => .error stopIteration) 0
  return DependencyGraph.fileNode levels (node,level)

/-- The sort yields nodes until it raises. The exception for a cycle is not the one that is caught. -/
def computeLevels : Except Exn (OrderedDict Int (List String)) := do
  let (order,unfeasible) := nx.topologicalSort g
  let levels ← order.foldlM (placeNode g) .empty
  if unfeasible then throw networkXUnfeasible else return levels

/-- `max` over the roots' dictionaries of path lengths, where it does not raise a `ValueError`. -/
def maxDepth : Except Exn Depth :=
  match (getRootNodes g).map fun source => (nx.shortestPathLength g source).map Prod.snd with
  | [] => .ok (.number 0)
  | [lengths] => .ok (if lengths = [] then .number 0 else .view lengths)
  | _ => .error (typeError "'>' not supported between instances of 'dict_values' and 'dict_values'")

def computeCriticalPathLength : Except Exn Nat :=
  if (nx.topologicalSort g).2 then .error networkXUnfeasible else .ok (max (nx.dagLongestPathLength g) 0)

def degree (n : String) : Nat := (g.predecessors n).length + (g.successors n).length

def computeComplexityScore (depth : Nat) : Rat :=
  let n : Rat := g.nodes.length
  if g.nodes = [] then 0
  else
    let density := if 1 < g.nodes.length then g.edges.length / (n * (n - 1)) else 0
    let averageDegree := ((g.nodes.map (degree g)).foldl (· + ·) 0 : Nat) / n
    density * 5 + averageDegree * 2 + depth * (1 / 2)

def identifyBottlenecks : List String := g.nodes.filter fun n => 3 < (g.successors n).length

def getMetrics : Except Exn GraphMetrics := do
  let maxDepth ← maxDepth nx g
  let levels ← computeLevels nx g
  let criticalPathLength ← computeCriticalPathLength nx g
  return {
    totalNodes := g.nodes.length
    totalEdges := g.edges.length
    maxDepth
    parallelOpportunities := ((levels.items.filter fun level => 1 < level.2.length).map (·.2.length)).foldl (· + ·) 0
    criticalPathLength
    complexityScore := computeComplexityScore g criticalPathLength
    bottleneckNodes := identifyBottlenecks g
    leafNodes := getLeafNodes g
    rootNodes := getRootNodes g }

end

/-- The analyzer's metrics exist, its levels are those of the dependency graph unless there are cycles, and the depth
is the highest level. -/
structure Agrees (nx : NetworkxLengths) (nodes : List NodeConfig) (d : DependencyGraph) : Prop where
  depth : ∃ m, getMetrics nx (fromNodes nodes) = .ok m ∧
    ∃ n : Nat, m.maxDepth = .number n ∧ (n : Int) = (d.nodeLevels.items.map Prod.snd).foldl max 0
  levels : (fromNodes nodes).Acyclic → ∃ levels, computeLevels nx (fromNodes nodes) = .ok levels ∧
    ∀ id ∈ nodes.map (·.id), levelOf levels id = some (d.level id)

/-! ### The graph -/

theorem fromNodes_eq {nodes : List NodeConfig} {g : DirectedGraph String}
    (built : DependencyGraph.buildGraph nodes = .ok g) : fromNodes nodes = g := by
  have edges (ids : List String) (id : String) (deps : List String) (g h : DirectedGraph String)
      (done : deps.foldlM (DependencyGraph.addDependency ids id) g = .ok h) :
      deps.foldl (fun g dep => g.addEdge dep id) g = h := by
    induction deps generalizing g with
    | nil =>
      cases done
      rfl
    | cons dep rest ih =>
      simp only [List.foldlM_cons,DependencyGraph.addDependency] at done
      split at done
      · exact ih _ done
      · cases done
  have all (ids : List String) (todo : List NodeConfig) (g h : DirectedGraph String)
      (done : todo.foldlM (fun g node =>
        node.dependencies.foldlM (DependencyGraph.addDependency ids node.id) (g.addNode node.id)) g = .ok h) :
      todo.foldl (fun g node => node.dependencies.foldl (fun g dep => g.addEdge dep node.id) (g.addNode node.id)) g =
        h := by
    induction todo generalizing g with
    | nil =>
      cases done
      rfl
    | cons node rest ih =>
      rw [List.foldlM_cons] at done
      obtain ⟨k,first,later⟩ := ExceptRules.bind_eq_ok.mp done
      rw [List.foldl_cons,edges _ _ _ _ _ first,ih k later]
  exact all _ nodes .empty g built

/-- A graph without cycles that has nodes has a root. -/
theorem getRootNodes_ne_nil {g : DirectedGraph String} (acyclic : g.Acyclic) (some : g.nodes ≠ []) :
    getRootNodes g ≠ [] := by
  obtain ⟨n,member,first⟩ := Finset.exists_min_image g.nodes.toFinset g.rank
    (List.toFinset_nonempty_iff g.nodes |>.mpr some)
  refine List.ne_nil_of_mem (List.mem_filter.mpr ⟨List.mem_toFinset.mp member,?_⟩)
  rw [List.isEmpty_iff,List.eq_nil_iff_forall_not_mem]
  intro u before
  have edge := (g.mem_predecessors u n).mp before
  have lower := g.rank_lt acyclic edge
  have least := first u (List.mem_toFinset.mpr (g.closed (u,n) edge).1)
  omega

/-! ### Levels -/

section

variable {g : DirectedGraph String} {levels : OrderedDict Int (List String)}

theorem levelOf_eq_some {id : String} {k : Int} (found : levelOf levels id = some k) :
    ∃ ids, levels.get? k = some ids ∧ id ∈ ids := by
  obtain ⟨⟨_,ids⟩,first,rfl⟩ := Option.map_eq_some_iff.mp found
  refine ⟨ids,(levels.get?_eq_some _ ids).mpr (List.mem_of_find?_eq_some first),?_⟩
  simpa using List.find?_some first

theorem levelOf_isSome {id : String} {k : Int} {ids : List String} (filed : levels.get? k = some ids)
    (inside : id ∈ ids) : ∃ k, levelOf levels id = some k := by
  have found : (levels.items.find? fun level => level.2.contains id).isSome = true := by
    rw [List.find?_isSome]
    exact ⟨(k,ids),(levels.get?_eq_some k ids).mp filed,by simpa using inside⟩
  obtain ⟨entry,first⟩ := Option.isSome_iff_exists.mp found
  exact ⟨entry.1,by rw [levelOf,first]; rfl⟩

/-- Where the predecessors have levels, the node comes one above the highest of them. -/
theorem placeNode_eq {node : String} (L : String → Int)
    (known : ∀ u ∈ g.predecessors node, levelOf levels u = some (L u)) :
    placeNode g levels node =
      .ok (DependencyGraph.fileNode levels (node,((g.predecessors node).map L).foldl max (-1) + 1)) := by
  have each (preds : List String) (inside : preds ⊆ g.predecessors node) (start : Int) :
      preds.foldlM (fun (level : Int) pred =>
        match levelOf levels pred with
        | some predLevel => .ok (max level (predLevel + 1))
        | none => .error stopIteration) (start + 1) =
        (.ok ((preds.map L).foldl max start + 1) : Except Exn Int) := by
    induction preds generalizing start with
    | nil => rfl
    | cons u rest ih =>
      obtain ⟨here,later⟩ := List.cons_subset.mp inside
      simp only [List.foldlM_cons,known u here,List.map_cons,List.foldl_cons]
      rw [← ih later (max start (L u)),show max (start + 1) (L u + 1) = max start (L u) + 1 by omega]
      rfl
  have all := each (g.predecessors node) (List.Subset.refl _) (-1)
  rw [placeNode,show (0 : Int) = -1 + 1 from rfl,all]
  rfl

/-- The nodes placed so far are filed under their levels, and nothing else is. -/
structure Filed (L : String → Int) (done : List String) (levels : OrderedDict Int (List String)) : Prop where
  complete : ∀ id ∈ done, ∃ ids, levels.get? (L id) = some ids ∧ id ∈ ids
  sound : ∀ k ids, levels.get? k = some ids → ∀ id ∈ ids, L id = k

theorem Filed.levelOf {L : String → Int} {done : List String} (filed : Filed L done levels) {id : String}
    (member : id ∈ done) : levelOf levels id = some (L id) := by
  obtain ⟨ids,there,inside⟩ := filed.complete id member
  obtain ⟨k,found⟩ := levelOf_isSome there inside
  obtain ⟨ids',there',inside'⟩ := levelOf_eq_some found
  rw [found,filed.sound k ids' there' id inside']

theorem Filed.fileNode {L : String → Int} {done : List String} (filed : Filed L done levels) (node : String) :
    Filed L (done ++ [node]) (DependencyGraph.fileNode levels (node,L node)) where
  complete id member := by
    simp only [DependencyGraph.fileNode,OrderedDict.get?_set]
    rcases List.mem_append.mp member with old | new
    · obtain ⟨ids,there,inside⟩ := filed.complete id old
      split
      · next same => exact ⟨_,rfl,by simp [same,there,inside]⟩
      · exact ⟨ids,there,inside⟩
    · rw [List.mem_singleton.mp new,if_pos rfl]
      exact ⟨_,rfl,by simp⟩
  sound k ids there id inside := by
    simp only [DependencyGraph.fileNode,OrderedDict.get?_set] at there
    split at there
    · next same =>
      cases there
      rcases List.mem_append.mp inside with old | new
      · cases before : levels.get? (L node) with
        | none => simp [before] at old
        | some ids =>
          rw [filed.sound (L node) ids before id (by simpa [before] using old),same]
      · rw [List.mem_singleton.mp new,same]
    · exact filed.sound k ids there id inside

/-- Along a topological order every node finds its predecessors. -/
theorem placeNodes {L : String → Int} (exact : ∀ n, L n = ((g.predecessors n).map L).foldl max (-1) + 1)
    (order : List String) (sorted : ∀ before n after, order = before ++ n :: after → ∀ u, g.Edge u n → u ∈ before) :
    ∃ levels, order.foldlM (placeNode g) .empty = .ok levels ∧ Filed L order levels := by
  induction order using List.reverseRecOn with
  | nil => exact ⟨.empty,rfl,by simp,by simp⟩
  | append_singleton done n ih =>
    obtain ⟨levels,placed,filed⟩ := ih fun before m after parts u edge =>
      sorted before m (after ++ [n]) (by rw [parts,List.append_assoc]; rfl) u edge
    have known (u : String) (before : u ∈ g.predecessors n) : levelOf levels u = some (L u) :=
      filed.levelOf (sorted done n [] rfl u ((g.mem_predecessors u n).mp before))
    refine ⟨DependencyGraph.fileNode levels (n,L n),?_,filed.fileNode n⟩
    rw [List.foldlM_append,placed]
    simp only [bind,Except.bind,List.foldlM_cons,List.foldlM_nil,placeNode_eq L known,← exact n,pure,Except.pure]

end

section

variable {nx : NetworkxLengths} {g : DirectedGraph String}

/-- A node of a graph without cycles is placed at its height. -/
theorem computeLevels_height (correct : nx.Correct) (acyclic : g.Acyclic) :
    ∃ levels, computeLevels nx g = .ok levels ∧ ∀ n ∈ g.nodes, levelOf levels n = some (g.height acyclic n) := by
  have order := nx.sorts g acyclic
  obtain ⟨levels,placed,filed⟩ := placeNodes (g.height_eq acyclic) _ order.sorted
  have feasible : (nx.topologicalSort g).2 = false := by
    rw [← Bool.not_eq_true,correct.toNetworkx.unfeasible]
    exact not_not.mpr acyclic
  refine ⟨levels,?_,fun n member => filed.levelOf (order.complete n member)⟩
  rw [computeLevels]
  simp only [placed,feasible,bind,Except.bind]
  rfl

/-- The sort raises on a cycle, and nothing catches it. -/
theorem acyclic_of_computeLevels (correct : nx.Correct) {levels : OrderedDict Int (List String)}
    (computed : computeLevels nx g = .ok levels) : g.Acyclic := by
  by_contra cyclic
  have unfeasible := (correct.toNetworkx.unfeasible g).mpr cyclic
  obtain ⟨_,_,ended⟩ := ExceptRules.bind_eq_ok.mp computed
  rw [if_pos unfeasible] at ended
  cases ended

theorem maxDepth_cases (correct : nx.Correct) :
    (getRootNodes g = [] ∧ maxDepth nx g = .ok (.number 0)) ∨
      (∃ root lengths, getRootNodes g = [root] ∧ maxDepth nx g = .ok (.view lengths)) ∨
      1 < (getRootNodes g).length ∧ ∃ e, maxDepth nx g = .error e := by
  unfold maxDepth
  cases roots : getRootNodes g with
  | nil => exact .inl ⟨rfl,rfl⟩
  | cons root rest =>
    cases rest with
    | nil =>
      have member : root ∈ g.nodes := (List.mem_filter.mp (roots ▸ List.mem_singleton_self root : root ∈ getRootNodes g)).1
      have reached : (nx.shortestPathLength g root).map Prod.snd ≠ [] :=
        List.ne_nil_of_mem (List.mem_map_of_mem (correct.reached g root member))
      refine .inr (.inl ⟨root,(nx.shortestPathLength g root).map Prod.snd,rfl,?_⟩)
      rw [List.map_singleton]
      simp only [if_neg reached]
    | cons other rest => exact .inr (.inr ⟨by simp,_,rfl⟩)

theorem getMetrics_maxDepth {m : GraphMetrics} (computed : getMetrics nx g = .ok m) :
    maxDepth nx g = .ok m.maxDepth := by
  obtain ⟨depth,deep,rest⟩ := ExceptRules.bind_eq_ok.mp computed
  obtain ⟨_,_,rest⟩ := ExceptRules.bind_eq_ok.mp rest
  obtain ⟨_,_,rest⟩ := ExceptRules.bind_eq_ok.mp rest
  cases rest
  exact deep

/-- The metrics are computed for graphs without cycles and with at most one root. -/
theorem getMetrics_iff (correct : nx.Correct) :
    (∃ m, getMetrics nx g = .ok m) ↔ g.Acyclic ∧ (getRootNodes g).length ≤ 1 := by
  constructor
  · rintro ⟨m,computed⟩
    obtain ⟨depth,deep,rest⟩ := ExceptRules.bind_eq_ok.mp computed
    obtain ⟨levels,placed,_⟩ := ExceptRules.bind_eq_ok.mp rest
    refine ⟨acyclic_of_computeLevels correct placed,?_⟩
    rcases maxDepth_cases (g := g) correct with ⟨none,_⟩ | ⟨root,_,single,_⟩ | ⟨_,e,raised⟩
    · simp [none]
    · simp [single]
    · simp [raised] at deep
  · rintro ⟨acyclic,few⟩
    obtain ⟨levels,placed,_⟩ := computeLevels_height correct acyclic
    have feasible : ¬(nx.topologicalSort g).2 = true := by
      rw [correct.toNetworkx.unfeasible]
      exact not_not.mpr acyclic
    obtain ⟨depth,deep⟩ : ∃ depth, maxDepth nx g = .ok depth := by
      rcases maxDepth_cases (g := g) correct with ⟨_,deep⟩ | ⟨_,_,_,deep⟩ | ⟨many,_⟩
      · exact ⟨_,deep⟩
      · exact ⟨_,deep⟩
      · omega
    simp only [getMetrics,deep,placed,computeCriticalPathLength,if_neg feasible,bind,Except.bind]
    exact ⟨_,rfl⟩

end

theorem foldl_max_congr {xs ys : List Int} (same : ∀ x, x ∈ xs ↔ x ∈ ys) (start : Int) :
    xs.foldl max start = ys.foldl max start := by
  have le (xs ys : List Int) (inside : ∀ x ∈ xs, x ∈ ys) : xs.foldl max start ≤ ys.foldl max start := by
    obtain ⟨low,high⟩ := DependencyGraph.le_foldl_max ys start
    rcases DependencyGraph.foldl_max_mem xs start with none | member
    · rw [none]
      exact low
    · exact high _ (inside _ member)
  exact le_antisymm (le xs ys fun x => (same x).mp) (le ys xs fun x => (same x).mpr)

/-- The dependency graph's levels are the heights, too. -/
theorem level_height {nx : Networkx} (correct : nx.Correct) {nodes : List NodeConfig}
    (distinct : (nodes.map (·.id)).Nodup) {d : DependencyGraph} (made : DependencyGraph.new nx nodes = .ok d)
    (acyclic : d.graph.Acyclic) {id : String} (member : id ∈ nodes.map (·.id)) :
    d.level id = d.graph.height acyclic id := by
  have built := (DependencyGraph.new_eq_ok made).1
  refine d.graph.eq_height acyclic (fun n inside => ?_) ((DependencyGraph.buildGraph_nodes built id).mpr member)
  obtain ⟨node,listed,rfl⟩ := List.mem_map.mp ((DependencyGraph.buildGraph_nodes built n).mp inside)
  rw [DependencyGraph.levels_exact correct distinct made node listed]
  congr 1
  refine foldl_max_congr (fun level => ?_) (-1)
  have kept (dep : String) : dep ∈ DependencyGraph.keptDependencies
      (DependencyGraph.cutRecursiveEdges nx (recursiveIds nodes) d.graph).2 node ↔
        dep ∈ d.graph.predecessors node.id := by
    rw [d.graph.mem_predecessors,DependencyGraph.keptDependencies,List.mem_filter]
    constructor
    · rintro ⟨depends,_⟩
      exact (DependencyGraph.buildGraph_edges built node listed dep depends).2
    · intro edge
      have uncut : (dep,node.id) ∉ (DependencyGraph.cutRecursiveEdges nx (recursiveIds nodes) d.graph).2 := by
        intro cut
        obtain ⟨forth,back,_⟩ := DependencyGraph.cut_looping correct made cut
        exact acyclic dep (Relation.TransGen.head' forth back)
      obtain ⟨other,listed',same,depends⟩ := (DependencyGraph.buildGraph_edge_iff built dep node.id).mp edge
      rw [List.inj_on_of_nodup_map distinct listed' listed same] at depends
      exact ⟨depends,decide_eq_true uncut⟩
  simp only [List.mem_map,kept]

/-- Where ids are distinct and nothing depends on itself, both level computations agree. -/
theorem computeLevels_agrees {nx : NetworkxLengths} (correct : nx.Correct) {nodes : List NodeConfig}
    (distinct : (nodes.map (·.id)).Nodup) {d : DependencyGraph}
    (made : DependencyGraph.new nx.toNetworkx nodes = .ok d) (acyclic : (fromNodes nodes).Acyclic) :
    ∃ levels, computeLevels nx (fromNodes nodes) = .ok levels ∧
      ∀ id ∈ nodes.map (·.id), levelOf levels id = some (d.level id) := by
  have built := (DependencyGraph.new_eq_ok made).1
  rw [fromNodes_eq built] at acyclic ⊢
  obtain ⟨levels,computed,placed⟩ := computeLevels_height correct acyclic
  refine ⟨levels,computed,fun id member => ?_⟩
  rw [placed id ((DependencyGraph.buildGraph_nodes built id).mpr member),
    level_height correct.toNetworkx distinct made acyclic member]

/-- Only of no nodes are the metrics what they are meant to be: two roots are not compared, one root's depth is no
number, and without a root there is a cycle. -/
theorem metrics_agree_iff (nx : NetworkxLengths) (correct : nx.Correct) (nodes : List NodeConfig) (d : DependencyGraph)
    (made : DependencyGraph.new nx.toNetworkx nodes = .ok d) : Agrees nx nodes d ↔ nodes = [] := by
  have built := (DependencyGraph.new_eq_ok made).1
  constructor
  · intro agrees
    obtain ⟨m,computed,n,deep,_⟩ := agrees.depth
    rw [fromNodes_eq built] at computed
    obtain ⟨acyclic,_⟩ := (getMetrics_iff correct).mp ⟨m,computed⟩
    have found := getMetrics_maxDepth computed
    rw [deep] at found
    by_contra some
    have nodes : d.graph.nodes ≠ [] := by
      obtain ⟨node,member⟩ := List.exists_mem_of_ne_nil _ some
      exact List.ne_nil_of_mem ((DependencyGraph.buildGraph_nodes built node.id).mpr (List.mem_map_of_mem member))
    rcases maxDepth_cases (g := d.graph) correct with ⟨none,_⟩ | ⟨_,_,_,view⟩ | ⟨_,_,raised⟩
    · exact getRootNodes_ne_nil acyclic nodes none
    · rw [view] at found
      cases found
    · rw [raised] at found
      cases found
  · rintro rfl
    have acyclic : (fromNodes []).Acyclic := by
      intro n cycle
      obtain ⟨_,edge,_⟩ := Relation.TransGen.head'_iff.mp cycle
      cases edge
    obtain ⟨m,computed⟩ := (getMetrics_iff correct).mpr ⟨acyclic,Nat.zero_le 1⟩
    have deep : m.maxDepth = .number 0 := Except.ok.inj (getMetrics_maxDepth computed).symm
    have levels : d.nodeLevels.items = [] := by
      rw [(DependencyGraph.new_eq_ok made).2]
      rfl
    refine ⟨⟨m,computed,0,deep,?_⟩,computeLevels_agrees correct (by simp) made⟩
    rw [levels]
    rfl

/-- `networkx` on small graphs: a node is as far as the first search that finds it, and the longest path is as long
as sorting by generations takes. -/
def direct : NetworkxLengths where
  toNetworkx := .direct
  shortestPathLength g source :=
    (g.spread g.nodes.length [source]).map fun v =>
      (v,((List.range g.nodes.length).find? fun steps => v ∈ g.spread steps [source]).getD 0)
  dagLongestPathLength g :=
    ((List.range g.nodes.length).find? fun rounds => (g.generations (rounds + 1) []).length = g.nodes.length).getD 0

theorem direct_reaches : direct.Correct where
  toNetworkx := Networkx.direct_correct
  reached g u member := by
    refine List.mem_map.mpr ⟨u,g.spread_keeps _ _ (List.mem_singleton_self u),?_⟩
    obtain ⟨k,size⟩ : ∃ k, g.nodes.length = k + 1 := Nat.exists_eq_succ_of_ne_zero (List.length_pos_of_mem member).ne'
    simp [size,List.range_succ_eq_map,DirectedGraph.spread]

theorem noNodes_agree : ∃ d, DependencyGraph.new direct.toNetworkx [] = .ok d ∧ Agrees direct [] d :=
  ⟨_,rfl,(metrics_agree_iff direct direct_reaches [] _ rfl).mpr rfl⟩

def twoRoots : List NodeConfig := [{ id := "fetch",type := .tool },{ id := "search",type := .tool }]

/-- The path lengths of two roots cannot be compared. -/
theorem twoRoots_raise : ¬∀ (nx : NetworkxLengths) (nodes : List NodeConfig) (d : DependencyGraph), nx.Correct →
    DependencyGraph.new nx.toNetworkx nodes = .ok d → Agrees nx nodes d := by
  intro agrees
  obtain ⟨m,computed,_⟩ := (agrees direct twoRoots _ direct_reaches rfl).depth
  have few := ((getMetrics_iff direct_reaches).mp ⟨m,computed⟩).2
  revert few
  decide

end GraphAnalyzer

end IceOS
