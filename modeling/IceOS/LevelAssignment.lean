import IceOS.CycleCheck

/-! The levels of an accepted graph. The loop that cuts recursive edges leaves an acyclic graph, cuts
only edges of cycles at recursive nodes, and the levels follow the edges that it retains. -/
namespace IceOS

namespace DependencyGraph

open Relation (TransGen ReflTransGen)

def Touches (recursive : List String) (e : String × String) : Prop := e.1 ∈ recursive ∨ e.2 ∈ recursive

instance (recursive : List String) (e : String × String) : Decidable (Touches recursive e) :=
  inferInstanceAs (Decidable (_ ∨ _))

/-- One turn of the loop over the edges. -/
def cutEdge (nx : Networkx) (recursive : List String) (acc : DirectedGraph String × List (String × String))
    (e : String × String) : DirectedGraph String × List (String × String) :=
  if Touches recursive e then
    let without := acc.1.removeEdge e.1 e.2
    if nx.hasPath without e.2 e.1 then (without,acc.2 ++ [e]) else (without.addEdge e.1 e.2,acc.2)
  else acc

theorem cutRecursiveEdges_eq (nx : Networkx) (recursive : List String) (g : DirectedGraph String) :
    cutRecursiveEdges nx recursive g = g.edgesByNode.foldl (cutEdge nx recursive) (g,[]) := rfl

theorem mem_edgesByNode (g : DirectedGraph String) (e : String × String) : e ∈ g.edgesByNode ↔ g.Edge e.1 e.2 := by
  obtain ⟨u,v⟩ := e
  simp only [DirectedGraph.edgesByNode,List.mem_flatMap,List.mem_map,DirectedGraph.mem_successors,Prod.mk.injEq]
  constructor
  · rintro ⟨a,_,b,edge,rfl,rfl⟩
    exact edge
  · intro edge
    exact ⟨u,(g.closed _ edge).1,v,edge,rfl,rfl⟩

/-- The loop after the edges `done`: what is left is the graph without the cut edges, and an edge that
was kept lay on no cycle then. -/
structure Cutting (recursive : List String) (g : DirectedGraph String) (done : List (String × String))
    (temp : DirectedGraph String) (cut : List (String × String)) : Prop where
  edges : ∀ u v, temp.Edge u v ↔ g.Edge u v ∧ (u,v) ∉ cut
  nodes : ∀ n, n ∈ temp.nodes ↔ n ∈ g.nodes
  cuts : ∀ e ∈ cut, e ∈ done ∧ g.Edge e.1 e.2 ∧ Touches recursive e ∧ ReflTransGen g.Edge e.2 e.1
  kept : ∀ e ∈ done, Touches recursive e → e ∉ cut →
    ¬ReflTransGen (fun u v => temp.Edge u v ∧ (u,v) ≠ e) e.2 e.1

theorem removeEdge_edge (g : DirectedGraph String) (e : String × String) (u v : String) :
    (g.removeEdge e.1 e.2).Edge u v ↔ g.Edge u v ∧ (u,v) ≠ e := by
  rw [g.edge_removeEdge]
  simp [Prod.ext_iff]

theorem hasPath_iff {nx : Networkx} (correct : nx.Correct) {g : DirectedGraph String} {u v : String}
    (inside : u ∈ g.nodes) : nx.hasPath g u v = true ↔ ReflTransGen g.Edge u v := by
  rw [Relation.reflTransGen_iff_eq_or_transGen]
  constructor
  · intro found
    exact (nx.pathExists g u v found).imp Eq.symm id
  · intro path
    exact correct.paths g u v inside (path.imp Eq.symm id)

section

variable {recursive : List String} {g temp : DirectedGraph String} {done cut : List (String × String)}
  (inv : Cutting recursive g done temp cut) {e : String × String}

include inv

theorem Cutting.uncut (fresh : e ∉ done) : e ∉ cut := fun old => fresh (inv.cuts e old).1

/-- An edge that lies on a cycle is cut. -/
theorem Cutting.remove (edge : g.Edge e.1 e.2) (touches : Touches recursive e)
    (back : ReflTransGen (fun u v => temp.Edge u v ∧ (u,v) ≠ e) e.2 e.1) :
    Cutting recursive g (done ++ [e]) (temp.removeEdge e.1 e.2) (cut ++ [e]) := by
  constructor
  · intro u v
    rw [removeEdge_edge,inv.edges,List.mem_append,List.mem_singleton,not_or,and_assoc]
  · exact inv.nodes
  · intro f member
    rcases List.mem_append.mp member with old | new
    · exact ⟨List.mem_append_left _ (inv.cuts f old).1,(inv.cuts f old).2⟩
    · rw [List.mem_singleton.mp new]
      exact ⟨List.mem_append_right _ List.mem_cons_self,edge,touches,
        ReflTransGen.mono (fun u v step => ((inv.edges u v).mp step.1).1) _ _ back⟩
  · intro f member touches' kept
    rw [List.mem_append,not_or] at kept
    rcases List.mem_append.mp member with old | new
    · intro path
      exact inv.kept f old touches' kept.1 (ReflTransGen.mono
        (fun u v edge => ⟨((removeEdge_edge temp e u v).mp edge.1).1,edge.2⟩) _ _ path)
    · exact absurd new kept.2

/-- An edge that lies on no cycle is put back. -/
theorem Cutting.restore (edge : g.Edge e.1 e.2) (fresh : e ∉ done)
    (lost : ¬ReflTransGen (fun u v => temp.Edge u v ∧ (u,v) ≠ e) e.2 e.1) :
    Cutting recursive g (done ++ [e]) ((temp.removeEdge e.1 e.2).addEdge e.1 e.2) cut := by
  have present : temp.Edge e.1 e.2 := (inv.edges e.1 e.2).mpr ⟨edge,inv.uncut fresh⟩
  have ends := g.closed _ edge
  have same (u v : String) : ((temp.removeEdge e.1 e.2).addEdge e.1 e.2).Edge u v ↔ temp.Edge u v := by
    rw [DirectedGraph.edge_addEdge,removeEdge_edge]
    constructor
    · rintro (⟨old,_⟩ | ⟨rfl,rfl⟩)
      · exact old
      · exact present
    · intro old
      by_cases here : (u,v) = e
      · exact .inr ⟨congrArg Prod.fst here,congrArg Prod.snd here⟩
      · exact .inl ⟨old,here⟩
  constructor
  · intro u v
    rw [same,inv.edges]
  · intro n
    simp only [DirectedGraph.addEdge,DirectedGraph.mem_addNode,DirectedGraph.removeEdge,inv.nodes]
    constructor
    · rintro ((old | rfl) | rfl)
      · exact old
      · exact ends.1
      · exact ends.2
    · exact fun old => .inl (.inl old)
  · intro f member
    exact ⟨List.mem_append_left _ (inv.cuts f member).1,(inv.cuts f member).2⟩
  · intro f member touches kept path
    have path' : ReflTransGen (fun u v => temp.Edge u v ∧ (u,v) ≠ f) f.2 f.1 :=
      ReflTransGen.mono (fun u v edge => ⟨(same u v).mp edge.1,edge.2⟩) _ _ path
    rcases List.mem_append.mp member with old | new
    · exact inv.kept f old touches kept path'
    · rw [List.mem_singleton.mp new] at path'
      exact lost path'

/-- An edge away from the recursive nodes is passed over. -/
theorem Cutting.pass (apart : ¬Touches recursive e) : Cutting recursive g (done ++ [e]) temp cut := by
  refine ⟨inv.edges,inv.nodes,fun f member => ⟨List.mem_append_left _ (inv.cuts f member).1,(inv.cuts f member).2⟩,
    fun f member touches kept => ?_⟩
  rcases List.mem_append.mp member with old | new
  · exact inv.kept f old touches kept
  · exact absurd (List.mem_singleton.mp new ▸ touches) apart

theorem Cutting.step {nx : Networkx} (correct : nx.Correct) (edge : g.Edge e.1 e.2) (fresh : e ∉ done) :
    Cutting recursive g (done ++ [e]) (cutEdge nx recursive (temp,cut) e).1 (cutEdge nx recursive (temp,cut) e).2 := by
  have target : e.2 ∈ (temp.removeEdge e.1 e.2).nodes := (inv.nodes e.2).mpr (g.closed _ edge).2
  have path : nx.hasPath (temp.removeEdge e.1 e.2) e.2 e.1 = true ↔
      ReflTransGen (fun u v => temp.Edge u v ∧ (u,v) ≠ e) e.2 e.1 := by
    have same : (temp.removeEdge e.1 e.2).Edge = fun u v => temp.Edge u v ∧ (u,v) ≠ e :=
      funext fun u => funext fun v => propext (removeEdge_edge temp e u v)
    rw [hasPath_iff correct target,same]
  simp only [cutEdge]
  split
  · next touches =>
    split
    · next found => exact inv.remove edge touches (path.mp found)
    · next lost => exact inv.restore edge fresh (mt path.mpr lost)
  · next apart => exact inv.pass apart

end

theorem cutting {nx : Networkx} (correct : nx.Correct) (recursive : List String) (g : DirectedGraph String)
    {done todo : List (String × String)} {temp : DirectedGraph String} {cut : List (String × String)}
    (inv : Cutting recursive g done temp cut) (edges : ∀ e ∈ todo, g.Edge e.1 e.2) (nodup : (done ++ todo).Nodup) :
    Cutting recursive g (done ++ todo) (todo.foldl (cutEdge nx recursive) (temp,cut)).1
      (todo.foldl (cutEdge nx recursive) (temp,cut)).2 := by
  induction todo generalizing done temp cut with
  | nil => simpa using inv
  | cons e rest ih =>
    have fresh : e ∉ done := fun old => (List.nodup_append.mp nodup).2.2 e old e List.mem_cons_self rfl
    have next := inv.step correct (edges e List.mem_cons_self) fresh
    have split : done ++ e :: rest = done ++ [e] ++ rest := by simp
    rw [split] at nodup ⊢
    exact ih next (fun f member => edges f (List.mem_cons_of_mem e member)) nodup

theorem edgesByNode_nodup {g : DirectedGraph String} (nodup : g.edges.Nodup) : g.edgesByNode.Nodup := by
  refine List.nodup_flatMap.mpr ⟨fun u _ => ?_,?_⟩
  · refine List.Nodup.map (fun a b same => congrArg Prod.snd same) ?_
    refine List.Nodup.map_on ?_ (nodup.filter _)
    intro e member f member' same
    have source := of_decide_eq_true (List.mem_filter.mp member).2
    have source' := of_decide_eq_true (List.mem_filter.mp member').2
    exact Prod.ext (source.trans source'.symm) same
  · refine g.nodup.imp fun {u v} other e left right => ?_
    obtain ⟨_,_,rfl⟩ := List.mem_map.mp left
    obtain ⟨_,_,same⟩ := List.mem_map.mp right
    exact other (congrArg Prod.fst same).symm

/-- The loop has gone over all edges. -/
theorem cutting_all {nx : Networkx} (correct : nx.Correct) (recursive : List String) {g : DirectedGraph String}
    (nodup : g.edges.Nodup) : Cutting recursive g g.edgesByNode (cutRecursiveEdges nx recursive g).1
      (cutRecursiveEdges nx recursive g).2 := by
  have start : Cutting recursive g [] g [] :=
    ⟨by simp,fun _ => Iff.rfl,by simp,by simp⟩
  exact cutting correct recursive g start (fun e member => (mem_edgesByNode g e).mp member) (edgesByNode_nodup nodup)

/-- Every cycle of an accepted graph has an edge at a recursive node, and the last such edge that is
still on a cycle when its turn comes is cut. -/
theorem cut_acyclic {nx : Networkx} (correct : nx.Correct) {nodes : List NodeConfig} {g : DirectedGraph String}
    (nodup : g.edges.Nodup) (accepted : checkCycles nx nodes g = .ok ()) :
    (cutRecursiveEdges nx (recursiveIds nodes) g).1.Acyclic := by
  have inv := cutting_all correct (recursiveIds nodes) nodup
  intro n cycle
  rcases DirectedGraph.meets_or_avoids (· ∈ recursiveIds nodes) cycle with ⟨r,recursive,cycle⟩ | away
  · obtain ⟨x,edge,path⟩ := TransGen.head'_iff.mp cycle
    obtain ⟨old,uncut⟩ := (inv.edges r x).mp edge
    refine inv.kept (r,x) ((mem_edgesByNode g (r,x)).mpr old) (.inl recursive) uncut ?_
    exact ReflTransGen.mono (fun u v step => ⟨step.1,fun same => step.2 (congrArg Prod.fst same)⟩) _ _
      (DirectedGraph.path_avoids path)
  · exact accepted_guarded correct accepted n
      (TransGen.mono (fun u v step => ⟨((inv.edges u v).mp step.1).1,step.2⟩) _ _ away)

/-! ### Levels -/

/-- In topological order a node gets its final level from the final levels of what it keeps. -/
theorem assignLevel_exact (nodes : OrderedDict String NodeConfig) (cut : List (String × String)) {order : List String}
    (nodup : order.Nodup) (levels : OrderedDict String Int) {node : NodeConfig} (found : nodes.get? node.id = some node)
    (member : node.id ∈ order) (sorted : ∀ before after, order = before ++ node.id :: after →
      ∀ dep ∈ keptDependencies cut node, dep ∈ before) :
    (order.foldl (assignLevel nodes cut) levels).get? node.id = some (((keptDependencies cut node).map fun dep =>
      ((order.foldl (assignLevel nodes cut) levels).get? dep).getD 0).foldl max (-1) + 1) := by
  obtain ⟨before,after,parts⟩ := List.append_of_mem member
  have earlier := sorted before after parts
  subst parts
  obtain ⟨_,back,disjoint⟩ := List.nodup_append.mp nodup
  have later := (List.nodup_cons.mp back).1
  have own : ((before ++ node.id :: after).foldl (assignLevel nodes cut) levels).get? node.id =
      (assignLevel nodes cut (before.foldl (assignLevel nodes cut) levels) node.id).get? node.id := by
    rw [List.foldl_append,List.foldl_cons,assignLevel_other nodes cut after _ later]
  have placed (dep : String) (kept : dep ∈ keptDependencies cut node) :
      ((before ++ node.id :: after).foldl (assignLevel nodes cut) levels).get? dep =
        (before.foldl (assignLevel nodes cut) levels).get? dep := by
    have gone : dep ∉ node.id :: after := fun again => disjoint dep (earlier dep kept) dep again rfl
    rw [List.foldl_append,assignLevel_other nodes cut (node.id :: after) _ gone]
  rw [own]
  simp only [assignLevel,OrderedDict.get?_set_same,found,Option.map_some,Option.getD_some]
  congr 3
  refine List.map_congr_left fun dep kept => ?_
  rw [placed dep kept]

theorem nodeMap_get? {nodes : List NodeConfig} (distinct : (nodes.map (·.id)).Nodup) {node : NodeConfig}
    (member : node ∈ nodes) : (OrderedDict.ofList (nodes.map fun node => (node.id,node))).get? node.id = some node := by
  rw [OrderedDict.get?_eq_some,OrderedDict.ofList_items]
  · exact List.mem_map_of_mem (f := fun node => (node.id,node)) member
  · simpa [Function.comp_def] using distinct

/-- The level of a node is what the assignment over the topological order gave it last. -/
theorem level_assigned {nx : Networkx} {nodes : List NodeConfig} {g : DirectedGraph String} {id : String}
    (member : id ∈ nodes.map (·.id)) {k : Int}
    (final : ((nx.topologicalSort (cutRecursiveEdges nx (recursiveIds nodes) g).1).1.foldl
      (assignLevel (OrderedDict.ofList (nodes.map fun node => (node.id,node))) (cutRecursiveEdges nx (recursiveIds nodes) g).2)
      (OrderedDict.ofList (nodes.map fun node => (node.id,node.level)))).get? id = some k) :
    level ⟨g,assignLevels nx nodes g⟩ id = k := by
  have known : id ∈ (assignLevels nx nodes g).keys := by simpa [assignLevels] using member
  obtain ⟨value,present⟩ := Option.isSome_iff_exists.mp ((OrderedDict.mem_keys _ id).mp known)
  obtain ⟨node,_,same⟩ := List.mem_map.mp (OrderedDict.get?_ofList _ present)
  cases same
  simp only [level,present,Option.getD_some]
  exact congrArg (·.getD node.level) final

/-- What `_assign_levels` guarantees: the levels obey the equation of a longest path over the edges that
were not cut. -/
structure LevelsSound (nx : Networkx) (nodes : List NodeConfig) (d : DependencyGraph)
    (temp : DirectedGraph String) (cut : List (String × String)) : Prop where
  acyclic : temp.Acyclic
  feasible : (nx.topologicalSort temp).2 = false
  retained : ∀ u v, temp.Edge u v ↔ d.graph.Edge u v ∧ (u,v) ∉ cut
  rising : ∀ u v, d.graph.Edge u v → (u,v) ∉ cut → d.level u < d.level v
  roots : ∀ node ∈ nodes, keptDependencies cut node = [] → d.level node.id = 0
  longest : ∀ node ∈ nodes, keptDependencies cut node ≠ [] →
    (∃ dep ∈ keptDependencies cut node, d.level node.id = 1 + d.level dep) ∧
      ∀ dep ∈ keptDependencies cut node, d.level dep ≤ d.level node.id - 1
  cuts : ∀ e ∈ cut, d.graph.Edge e.1 e.2 ∧ ReflTransGen d.graph.Edge e.2 e.1 ∧
    (e.1 ∈ recursiveIds nodes ∨ e.2 ∈ recursiveIds nodes)

theorem foldl_max_mem (xs : List Int) (start : Int) : xs.foldl max start = start ∨ xs.foldl max start ∈ xs := by
  induction xs generalizing start with
  | nil => exact .inl rfl
  | cons x rest ih =>
    rw [List.foldl_cons]
    rcases ih (max start x) with same | later
    · rcases max_choice start x with left | right
      · exact .inl (same.trans left)
      · right
        rw [same,right]
        exact List.mem_cons_self
    · exact .inr (List.mem_cons_of_mem x later)

theorem levels_exact {nx : Networkx} (correct : nx.Correct) {nodes : List NodeConfig}
    (distinct : (nodes.map (·.id)).Nodup) {d : DependencyGraph} (made : new nx nodes = .ok d) :
    ∀ node ∈ nodes, d.level node.id = ((keptDependencies (cutRecursiveEdges nx (recursiveIds nodes) d.graph).2 node).map
      d.level).foldl max (-1) + 1 := by
  obtain ⟨built,levels⟩ := new_eq_ok made
  have inv := cutting_all correct (recursiveIds nodes) (buildGraph_edges_nodup built)
  have order := nx.sorts _ (cut_acyclic correct (buildGraph_edges_nodup built) (new_checked made))
  have exact (node : NodeConfig) (member : node ∈ nodes) := assignLevel_exact
    (OrderedDict.ofList (nodes.map fun node => (node.id,node))) (cutRecursiveEdges nx (recursiveIds nodes) d.graph).2
    order.nodup (OrderedDict.ofList (nodes.map fun node => (node.id,node.level))) (nodeMap_get? distinct member)
    (order.complete node.id ((inv.nodes node.id).mpr ((buildGraph_nodes built node.id).mpr (List.mem_map_of_mem member))))
    (fun before after parts dep kept => by
      obtain ⟨depends,uncut⟩ := List.mem_filter.mp kept
      exact order.sorted before node.id after parts dep
        ((inv.edges dep node.id).mpr ⟨(buildGraph_edges built node member dep depends).2,of_decide_eq_true uncut⟩))
  have same : d = ⟨d.graph,assignLevels nx nodes d.graph⟩ := by rw [← levels]
  intro node member
  rw [same]
  rw [level_assigned (List.mem_map_of_mem member) (exact node member)]
  congr 2
  refine List.map_congr_left fun dep kept => ?_
  obtain ⟨depends,_⟩ := List.mem_filter.mp kept
  obtain ⟨known,_⟩ := buildGraph_edges built node member dep depends
  obtain ⟨other,inside,rfl⟩ := List.mem_map.mp known
  rw [level_assigned known (exact other inside),exact other inside]
  rfl

/-- What is cut lies on a cycle, at a recursive node. -/
theorem cut_looping {nx : Networkx} (correct : nx.Correct) {nodes : List NodeConfig} {d : DependencyGraph}
    (made : new nx nodes = .ok d) {e : String × String}
    (cut : e ∈ (cutRecursiveEdges nx (recursiveIds nodes) d.graph).2) :
    d.graph.Edge e.1 e.2 ∧ ReflTransGen d.graph.Edge e.2 e.1 ∧ Touches (recursiveIds nodes) e := by
  have inv := cutting_all correct (recursiveIds nodes) (buildGraph_edges_nodup (new_eq_ok made).1)
  obtain ⟨_,edge,touches,back⟩ := inv.cuts e cut
  exact ⟨edge,back,touches⟩

/-- A node is above all that it keeps. -/
theorem kept_below {nx : Networkx} (correct : nx.Correct) {nodes : List NodeConfig}
    (distinct : (nodes.map (·.id)).Nodup) {d : DependencyGraph} (made : new nx nodes = .ok d) {node : NodeConfig}
    (member : node ∈ nodes) {dep : String}
    (kept : dep ∈ keptDependencies (cutRecursiveEdges nx (recursiveIds nodes) d.graph).2 node) :
    d.level dep < d.level node.id := by
  have bound := (le_foldl_max ((keptDependencies (cutRecursiveEdges nx (recursiveIds nodes) d.graph).2 node).map
    d.level) (-1)).2 _ (List.mem_map_of_mem kept)
  rw [levels_exact correct distinct made node member]
  omega

theorem levels_rising {nx : Networkx} (correct : nx.Correct) {nodes : List NodeConfig}
    (distinct : (nodes.map (·.id)).Nodup) {d : DependencyGraph} (made : new nx nodes = .ok d) {u v : String}
    (edge : d.graph.Edge u v) (uncut : (u,v) ∉ (cutRecursiveEdges nx (recursiveIds nodes) d.graph).2) :
    d.level u < d.level v := by
  obtain ⟨node,member,rfl,depends⟩ := (buildGraph_edge_iff (new_eq_ok made).1 u v).mp edge
  exact kept_below correct distinct made member (List.mem_filter.mpr ⟨depends,decide_eq_true uncut⟩)

end DependencyGraph

open DependencyGraph in
/-- Level assignment is sound on every accepted node list. -/
theorem assignLevels_sound (nx : Networkx) (correct : nx.Correct) (nodes : List NodeConfig)
    (distinct : (nodes.map (·.id)).Nodup) (d : DependencyGraph) (made : DependencyGraph.new nx nodes = .ok d) :
    LevelsSound nx nodes d (cutRecursiveEdges nx (recursiveIds nodes) d.graph).1
      (cutRecursiveEdges nx (recursiveIds nodes) d.graph).2 := by
  have built := (new_eq_ok made).1
  have inv := cutting_all correct (recursiveIds nodes) (buildGraph_edges_nodup built)
  have acyclic := cut_acyclic correct (buildGraph_edges_nodup built) (new_checked made)
  have levels := levels_exact correct distinct made
  have low (node : NodeConfig) (member : node ∈ nodes) : 0 ≤ d.level node.id := by
    have bound := (le_foldl_max ((keptDependencies (cutRecursiveEdges nx (recursiveIds nodes) d.graph).2 node).map
      d.level) (-1)).1
    rw [levels node member]
    omega
  constructor
  · exact acyclic
  · exact Bool.eq_false_iff.mpr fun raised => (correct.unfeasible _).mp raised acyclic
  · exact inv.edges
  · intro u v edge uncut
    exact levels_rising correct distinct made edge uncut
  · intro node member none
    rw [levels node member,none]
    rfl
  · intro node member some
    refine ⟨?_,fun dep kept => ?_⟩
    · rcases foldl_max_mem ((keptDependencies (cutRecursiveEdges nx (recursiveIds nodes) d.graph).2 node).map d.level)
        (-1) with same | top
      · obtain ⟨dep,kept⟩ := List.exists_mem_of_ne_nil _ some
        have less := kept_below correct distinct made member kept
        obtain ⟨depends,_⟩ := List.mem_filter.mp kept
        obtain ⟨other,inside,rfl⟩ := List.mem_map.mp (buildGraph_edges built node member dep depends).1
        have positive := low other inside
        rw [levels node member,same] at less
        omega
      · obtain ⟨dep,kept,same⟩ := List.mem_map.mp top
        refine ⟨dep,kept,?_⟩
        rw [levels node member,same]
        omega
    · have less := kept_below correct distinct made member kept
      omega
  · intro e member
    exact cut_looping correct made member

def negotiationNodes : List NodeConfig :=
  [{ id := "buyer",type := .agent,dependencies := ["negotiation"] },{ id := "seller",type := .agent },
   { id := "negotiation",type := .recursive,dependencies := ["buyer","seller"]
     recursiveSources := ["buyer","seller"] }]

theorem negotiation_accepted : ∃ d, DependencyGraph.new .direct negotiationNodes = .ok d := by
  have accepted : (DependencyGraph.new .direct negotiationNodes).toOption.isSome = true := by decide +kernel
  cases made : DependencyGraph.new .direct negotiationNodes with
  | error e => simp [made,Except.toOption] at accepted
  | ok d => exact ⟨d,rfl⟩

theorem negotiation_sound : ∃ d, DependencyGraph.new .direct negotiationNodes = .ok d ∧
    DependencyGraph.LevelsSound .direct negotiationNodes d
      (DependencyGraph.cutRecursiveEdges .direct (recursiveIds negotiationNodes) d.graph).1
      (DependencyGraph.cutRecursiveEdges .direct (recursiveIds negotiationNodes) d.graph).2 := by
  obtain ⟨d,made⟩ := negotiation_accepted
  exact ⟨d,made,assignLevels_sound .direct Networkx.direct_correct negotiationNodes (by decide) d made⟩

end IceOS
