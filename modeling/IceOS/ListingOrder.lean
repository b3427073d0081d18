import IceOS.LevelAssignment

/-! Whether the levels depend on the order in which the nodes are listed. Edges are examined in the order
in which their sources became nodes of the graph, and the first one found on a cycle is cut, so they do
on every graph with a cycle. -/
namespace IceOS

namespace DependencyGraph

open Relation (TransGen ReflTransGen)

/-- Every listing of the nodes is accepted and gives the same levels, and no recursive node is below a
source that it depends on. -/
def OrderFree (nx : Networkx) (nodes : List NodeConfig) (d : DependencyGraph) : Prop :=
  ∀ listing : List NodeConfig, listing.Perm nodes → ∃ other, new nx listing = .ok other ∧
    (∀ node ∈ nodes, other.level node.id = d.level node.id) ∧
    ∀ node ∈ nodes, node.type = .recursive → ∀ source ∈ node.recursiveSources, source ∈ node.dependencies →
      other.level source ≤ other.level node.id

/-! ### Other listings are accepted -/

theorem buildGraph_accepts {nodes : List NodeConfig}
    (known : ∀ node ∈ nodes, ∀ dep ∈ node.dependencies, dep ∈ nodes.map (·.id)) : ∃ g, buildGraph nodes = .ok g := by
  have edges (nodeIds : List String) (id : String) (deps : List String) (known : ∀ dep ∈ deps, dep ∈ nodeIds)
      (g : DirectedGraph String) : ∃ h, deps.foldlM (addDependency nodeIds id) g = .ok h := by
    induction deps generalizing g with
    | nil => exact ⟨g,rfl⟩
    | cons dep rest ih =>
      simp only [List.foldlM_cons,addDependency,known dep List.mem_cons_self,if_true]
      exact ih (fun other member => known other (List.mem_cons_of_mem dep member)) (g.addEdge dep id)
  have grown (nodeIds : List String) (todo : List NodeConfig)
      (known : ∀ node ∈ todo, ∀ dep ∈ node.dependencies, dep ∈ nodeIds) (g : DirectedGraph String) :
      ∃ h, todo.foldlM (fun g node =>
        node.dependencies.foldlM (addDependency nodeIds node.id) (g.addNode node.id)) g = .ok h := by
    induction todo generalizing g with
    | nil => exact ⟨g,rfl⟩
    | cons node rest ih =>
      obtain ⟨h,added⟩ := edges nodeIds node.id node.dependencies (known node List.mem_cons_self) (g.addNode node.id)
      rw [List.foldlM_cons,added]
      exact ih (fun other member => known other (List.mem_cons_of_mem node member)) h
  exact grown _ nodes known .empty

/-- Another listing has the same edges and the same valid cycles. -/
theorem new_perm {nx : Networkx} (correct : nx.Correct) {nodes listing : List NodeConfig}
    (distinct : (nodes.map (·.id)).Nodup) (perm : listing.Perm nodes) {d : DependencyGraph}
    (made : new nx nodes = .ok d) :
    ∃ other, new nx listing = .ok other ∧ ∀ u v, other.graph.Edge u v ↔ d.graph.Edge u v := by
  have built := (new_eq_ok made).1
  have known : ∀ node ∈ listing, ∀ dep ∈ node.dependencies, dep ∈ listing.map (·.id) := fun node member dep depends =>
    (perm.map _).mem_iff.mpr (buildGraph_edges built node (perm.mem_iff.mp member) dep depends).1
  obtain ⟨g,built'⟩ := buildGraph_accepts known
  have edges (u v : String) : g.Edge u v ↔ d.graph.Edge u v := by
    rw [buildGraph_edge_iff built',buildGraph_edge_iff built]
    simp only [perm.mem_iff]
  have recursive : (listing.filter (·.type = .recursive)).Perm (nodes.filter (·.type = .recursive)) := perm.filter _
  have keys (list : List NodeConfig) (distinct : (list.map (·.id)).Nodup) :
      (recursiveMap list).items = (list.filter (·.type = .recursive)).map fun node => (node.id,node) := by
    refine OrderedDict.ofList_items _ ?_
    rw [List.map_map]
    exact (List.filter_sublist.map _).nodup distinct
  have distinct' : (listing.map (·.id)).Nodup := (perm.map _).nodup_iff.mpr distinct
  have same : ∀ c, isValidRecursiveCycle (recursiveMap listing) c = isValidRecursiveCycle (recursiveMap nodes) c := by
    intro c
    have items : (recursiveMap listing).items.Perm (recursiveMap nodes).items := by
      rw [keys listing distinct',keys nodes distinct]
      exact recursive.map _
    have found (id : String) : (recursiveMap listing).get? id = (recursiveMap nodes).get? id := by
      refine Option.ext fun node => ?_
      rw [OrderedDict.get?_eq_some,OrderedDict.get?_eq_some,items.mem_iff]
    have member (id : String) : id ∈ (recursiveMap listing).keys ↔ id ∈ (recursiveMap nodes).keys := by
      rw [OrderedDict.mem_keys,OrderedDict.mem_keys,found]
    rw [Bool.eq_iff_iff,isValidRecursiveCycle_iff,isValidRecursiveCycle_iff]
    simp only [found,member]
  have checked : checkCycles nx listing g = .ok () := by
    rw [checkCycles_iff correct]
    intro c cycle
    rw [same c]
    exact (checkCycles_iff correct nodes d.graph).mp (new_checked made) c (cycle.mono fun u v => (edges u v).mp)
  refine ⟨⟨g,assignLevels nx listing g⟩,?_,edges⟩
  simp only [new,built',bind,Except.bind,checked]
  rfl

/-! ### Acyclic graphs -/

/-- Without a cycle nothing is cut, and the level is that of a longest path. -/
theorem levels_acyclic {nx : Networkx} (correct : nx.Correct) {nodes : List NodeConfig}
    (distinct : (nodes.map (·.id)).Nodup) {d : DependencyGraph} (made : new nx nodes = .ok d)
    (acyclic : d.graph.Acyclic) : ∀ node ∈ nodes,
      d.level node.id = (node.dependencies.map d.level).foldl max (-1) + 1 := by
  intro node member
  have none : keptDependencies (cutRecursiveEdges nx (recursiveIds nodes) d.graph).2 node = node.dependencies := by
    refine List.filter_eq_self.mpr fun dep _ => decide_eq_true fun cut => ?_
    obtain ⟨edge,back,_⟩ := cut_looping correct made cut
    exact acyclic dep (TransGen.head' edge back)
  rw [levels_exact correct distinct made node member,none]

theorem acyclic_orderFree {nx : Networkx} (correct : nx.Correct) {nodes : List NodeConfig}
    (distinct : (nodes.map (·.id)).Nodup) {d : DependencyGraph} (made : new nx nodes = .ok d)
    (acyclic : d.graph.Acyclic) : OrderFree nx nodes d := by
  intro listing perm
  obtain ⟨other,made',edges⟩ := new_perm correct distinct perm made
  have distinct' : (listing.map (·.id)).Nodup := (perm.map _).nodup_iff.mpr distinct
  have acyclic' : other.graph.Acyclic := fun n cycle =>
    acyclic n (TransGen.mono (fun u v => (edges u v).mp) _ _ cycle)
  have levels := levels_acyclic correct distinct made acyclic
  have levels' := levels_acyclic correct distinct' made' acyclic'
  have built := (new_eq_ok made).1
  -- by induction on the rank: the dependencies of a node have lower ones
  have same (rank : Nat) : ∀ node ∈ nodes, d.graph.rank node.id ≤ rank → other.level node.id = d.level node.id := by
    induction rank with
    | zero =>
      intro node member low
      rw [levels' node (perm.mem_iff.mpr member),levels node member]
      congr 2
      refine List.map_congr_left fun dep depends => ?_
      have less := d.graph.rank_lt acyclic (buildGraph_edges built node member dep depends).2
      omega
    | succ rank ih =>
      intro node member low
      rw [levels' node (perm.mem_iff.mpr member),levels node member]
      congr 2
      refine List.map_congr_left fun dep depends => ?_
      obtain ⟨known,edge⟩ := buildGraph_edges built node member dep depends
      have less := d.graph.rank_lt acyclic edge
      obtain ⟨source,inside,rfl⟩ := List.mem_map.mp known
      exact ih source inside (by omega)
  refine ⟨other,made',fun node member => same _ node member le_rfl,fun node member _ source _ depends => ?_⟩
  have edge := (edges source node.id).mpr (buildGraph_edges built node member source depends).2
  refine (levels_rising correct distinct' made' edge fun cut => ?_).le
  obtain ⟨edge,back,_⟩ := cut_looping correct made' cut
  exact acyclic' source (TransGen.head' edge back)

/-! ### The order of the edges -/

theorem addDependencies_front {nodeIds : List String} {id : String} {deps : List String} {g h : DirectedGraph String}
    (built : deps.foldlM (addDependency nodeIds id) g = .ok h) (own : id ∈ g.nodes) :
    ∃ more, h.nodes = g.nodes ++ more ∧ ∀ n ∈ more, n ∈ deps := by
  induction deps generalizing g with
  | nil =>
    cases built
    exact ⟨[],by simp,by simp⟩
  | cons dep rest ih =>
    simp only [List.foldlM_cons,addDependency] at built
    split at built
    · have nodes : (g.addEdge dep id).nodes = if dep ∈ g.nodes then g.nodes else g.nodes ++ [dep] := by
        have present : id ∈ (g.addNode dep).nodes := (g.mem_addNode dep id).mpr (.inl own)
        change (if id ∈ (g.addNode dep).nodes then (g.addNode dep).nodes else _) = _
        rw [if_pos present]
        rfl
      have own' : id ∈ (g.addEdge dep id).nodes := by
        rw [nodes]
        split
        · exact own
        · exact List.mem_append_left _ own
      obtain ⟨more,grown,known⟩ := ih built own'
      rw [nodes] at grown
      split at grown
      · exact ⟨more,grown,fun n member => List.mem_cons_of_mem dep (known n member)⟩
      · refine ⟨dep :: more,by rw [grown]; simp,fun n member => ?_⟩
        rcases List.mem_cons.mp member with rfl | later
        · exact List.mem_cons_self
        · exact List.mem_cons_of_mem dep (known n later)
    · simp [bind,Except.bind] at built

theorem addNodes_front {nodeIds : List String} {todo : List NodeConfig} {g h : DirectedGraph String}
    (built : todo.foldlM (fun g node =>
      node.dependencies.foldlM (addDependency nodeIds node.id) (g.addNode node.id)) g = .ok h) :
    ∃ more, h.nodes = g.nodes ++ more ∧ (∀ node ∈ todo, node.id ∈ h.nodes) ∧
      ∀ n ∈ more, ∃ node ∈ todo, n = node.id ∨ n ∈ node.dependencies := by
  induction todo generalizing g with
  | nil =>
    cases built
    exact ⟨[],by simp,by simp,by simp⟩
  | cons node rest ih =>
    rw [List.foldlM_cons] at built
    cases first : node.dependencies.foldlM (addDependency nodeIds node.id) (g.addNode node.id) with
    | error e => simp [first,bind,Except.bind] at built
    | ok k =>
      simp only [first] at built
      have own : node.id ∈ (g.addNode node.id).nodes := (g.mem_addNode node.id node.id).mpr (.inr rfl)
      obtain ⟨deps,grown,known⟩ := addDependencies_front first own
      obtain ⟨later,grown',listed,known'⟩ := ih built
      obtain ⟨new,added,own'⟩ : ∃ new, (g.addNode node.id).nodes = g.nodes ++ new ∧ ∀ n ∈ new, n = node.id := by
        simp only [DirectedGraph.addNode]
        split
        · exact ⟨[],by simp,by simp⟩
        · exact ⟨[node.id],rfl,by simp⟩
      refine ⟨new ++ deps ++ later,by rw [grown',grown,added]; simp,?_,fun n member => ?_⟩
      · refine List.forall_mem_cons.mpr ⟨?_,listed⟩
        rw [grown',grown]
        exact List.mem_append_left _ (List.mem_append_left _ own)
      · rcases List.mem_append.mp member with early | late
        · rcases List.mem_append.mp early with own | dep
          · exact ⟨node,List.mem_cons_self,.inl (own' n own)⟩
          · exact ⟨node,List.mem_cons_self,.inr (known n dep)⟩
        · obtain ⟨other,inside,role⟩ := known' n late
          exact ⟨other,List.mem_cons_of_mem node inside,role⟩

/-- The nodes of the graph begin with those that the first nodes of the listing bring in, up to the
dependencies of the last of them. -/
theorem buildGraph_front {first rest : List NodeConfig} {node : NodeConfig} {g : DirectedGraph String}
    (built : buildGraph (first ++ node :: rest) = .ok g) :
    ∃ front back, g.nodes = front ++ back ∧ (∀ n ∈ first ++ [node], n.id ∈ front) ∧
      ∀ id ∈ front, id = node.id ∨ ∃ n ∈ first, id = n.id ∨ id ∈ n.dependencies := by
  rw [buildGraph,List.foldlM_append] at built
  generalize (first ++ node :: rest).map (·.id) = nodeIds at built
  cases start : first.foldlM (fun g n => n.dependencies.foldlM (addDependency nodeIds n.id) (g.addNode n.id))
      DirectedGraph.empty with
  | error e =>
    rw [start] at built
    cases built
  | ok h =>
    obtain ⟨more,grown,listed,known⟩ := addNodes_front start
    rw [start] at built
    replace built : (node :: rest).foldlM (fun g n =>
        n.dependencies.foldlM (addDependency nodeIds n.id) (g.addNode n.id)) h = .ok g := built
    rw [List.foldlM_cons] at built
    cases next : node.dependencies.foldlM (addDependency nodeIds node.id) (h.addNode node.id) with
    | error e => simp [next,bind,Except.bind] at built
    | ok k =>
      rw [next] at built
      have own : node.id ∈ (h.addNode node.id).nodes := (h.mem_addNode node.id node.id).mpr (.inr rfl)
      obtain ⟨deps,grown',_⟩ := addDependencies_front next own
      obtain ⟨later,grown'',_⟩ := addNodes_front built
      refine ⟨(h.addNode node.id).nodes,deps ++ later,by rw [grown'',grown',List.append_assoc],?_,?_⟩
      · intro n member
        rw [h.mem_addNode]
        rcases List.mem_append.mp member with early | last
        · exact .inl (listed n early)
        · exact .inr (by rw [List.mem_singleton.mp last])
      · intro id member
        rcases (h.mem_addNode node.id id).mp member with early | last
        · rw [grown] at early
          exact .inr (known id early)
        · exact .inl last

/-- Edges from nodes in front come before an edge from a node that is not. -/
theorem edgesByNode_split {g : DirectedGraph String} {front back : List String} (parts : g.nodes = front ++ back)
    {e : String × String} (edge : g.Edge e.1 e.2) (behind : e.1 ∉ front) :
    ∃ done rest, g.edgesByNode = done ++ e :: rest ∧ ∀ f : String × String, g.Edge f.1 f.2 → f.1 ∈ front → f ∈ done := by
  have whole : g.edgesByNode = (front.flatMap fun u => (g.successors u).map (u,·)) ++
      back.flatMap fun u => (g.successors u).map (u,·) := by
    rw [DirectedGraph.edgesByNode,parts,List.flatMap_append]
  have later : e ∈ back.flatMap fun u => (g.successors u).map (u,·) := by
    have inside := (mem_edgesByNode g e).mpr edge
    rw [whole] at inside
    rcases List.mem_append.mp inside with early | late
    · obtain ⟨u,member,same⟩ := List.mem_flatMap.mp early
      obtain ⟨_,_,rfl⟩ := List.mem_map.mp same
      exact absurd member behind
    · exact late
  obtain ⟨middle,rest,split⟩ := List.append_of_mem later
  refine ⟨_ ++ middle,rest,by rw [whole,split,List.append_assoc],fun f edge member => List.mem_append_left _ ?_⟩
  exact List.mem_flatMap.mpr ⟨f.1,member,List.mem_map.mpr ⟨f.2,(g.mem_successors f.1 f.2).mpr edge,rfl⟩⟩

/-- At the turn of an edge that is cut there was a path back over the edges not cut before. -/
theorem cut_turn {nx : Networkx} (correct : nx.Correct) (recursive : List String) {g : DirectedGraph String}
    (nodup : g.edges.Nodup) {done rest : List (String × String)} {e : String × String}
    (split : g.edgesByNode = done ++ e :: rest) (cut : e ∈ (cutRecursiveEdges nx recursive g).2) :
    ∃ temp early, Cutting recursive g done temp early ∧ temp.Edge e.1 e.2 ∧
      ReflTransGen (fun u v => temp.Edge u v ∧ (u,v) ≠ e) e.2 e.1 := by
  have all := edgesByNode_nodup nodup
  have edges : ∀ f ∈ g.edgesByNode, g.Edge f.1 f.2 := fun f member => (mem_edgesByNode g f).mp member
  rw [split] at all edges
  have start : Cutting recursive g [] g [] := ⟨by simp,fun _ => Iff.rfl,by simp,by simp⟩
  have inv := cutting correct recursive g start (fun f member => edges f (List.mem_append_left _ member))
    (List.nodup_append.mp all).1
  simp only [List.nil_append] at inv
  have edge : g.Edge e.1 e.2 := edges e (List.mem_append_right _ List.mem_cons_self)
  have fresh : e ∉ done := fun old => (List.nodup_append.mp all).2.2 e old e List.mem_cons_self rfl
  have uncut : e ∉ (done.foldl (cutEdge nx recursive) (g,[])).2 := fun old => fresh (inv.cuts e old).1
  refine ⟨_,_,inv,(inv.edges e.1 e.2).mpr ⟨edge,uncut⟩,?_⟩
  by_contra lost
  have kept : e ∉ (cutEdge nx recursive (done.foldl (cutEdge nx recursive) (g,[])) e).2 := by
    have target : e.2 ∈ ((done.foldl (cutEdge nx recursive) (g,[])).1.removeEdge e.1 e.2).nodes :=
      (inv.nodes e.2).mpr (g.closed _ edge).2
    simp only [cutEdge]
    split
    · split
      · next found =>
        refine absurd ?_ lost
        exact ReflTransGen.mono (fun u v => (removeEdge_edge _ e u v).mp) _ _ ((hasPath_iff correct target).mp found)
      · exact uncut
    · exact uncut
  -- later turns cut only their own edges
  have never (todo : List (String × String)) (others : e ∉ todo)
      (acc : DirectedGraph String × List (String × String)) (kept : e ∉ acc.2) :
      e ∉ (todo.foldl (cutEdge nx recursive) acc).2 := by
    induction todo generalizing acc with
    | nil => exact kept
    | cons f todo ih =>
      obtain ⟨apart,others⟩ := List.ne_and_not_mem_of_not_mem_cons others
      refine ih others _ ?_
      simp only [cutEdge]
      split
      · split
        · rw [List.mem_append,List.mem_singleton]
          exact fun either => either.elim kept apart
        · exact kept
      · exact kept
  rw [cutRecursiveEdges_eq,split,List.foldl_append,List.foldl_cons] at cut
  have others : e ∉ rest := (List.nodup_cons.mp (List.nodup_append.mp all).2.1).1
  exact never rest others _ kept cut

/-! ### Graphs with a cycle -/

/-- The levels of an order-free graph rise along every edge that some listing does not cut. -/
theorem OrderFree.listed {nx : Networkx} (correct : nx.Correct) {nodes : List NodeConfig}
    (distinct : (nodes.map (·.id)).Nodup) {d : DependencyGraph} (made : new nx nodes = .ok d)
    (free : OrderFree nx nodes d) {listing : List NodeConfig} (perm : listing.Perm nodes) :
    ∃ g, buildGraph listing = .ok g ∧ (∀ u v, g.Edge u v ↔ d.graph.Edge u v) ∧ ∀ u v, d.graph.Edge u v →
      (u,v) ∉ (cutRecursiveEdges nx (recursiveIds listing) g).2 → d.level u < d.level v := by
  obtain ⟨other,made',levels,_⟩ := free listing perm
  obtain ⟨other',made'',edges⟩ := new_perm correct distinct perm made
  obtain rfl : other' = other := Except.ok.inj (made''.symm.trans made')
  have built := (new_eq_ok made).1
  have distinct' : (listing.map (·.id)).Nodup := (perm.map _).nodup_iff.mpr distinct
  refine ⟨other'.graph,(new_eq_ok made').1,edges,fun u v edge uncut => ?_⟩
  obtain ⟨target,member,rfl,depends⟩ := (buildGraph_edge_iff built u v).mp edge
  obtain ⟨source,inside,rfl⟩ := List.mem_map.mp (buildGraph_edges built target member u depends).1
  rw [← levels source inside,← levels target member]
  exact levels_rising correct distinct' made' ((edges _ _).mpr edge) uncut

/-- An accepted recursive node does not depend on itself. -/
theorem accepted_irreflexive {nx : Networkx} (correct : nx.Correct) {nodes : List NodeConfig}
    {g : DirectedGraph String} (accepted : checkCycles nx nodes g = .ok ()) (u : String) : ¬g.Edge u u := by
  intro loop
  have cycle : DirectedGraph.SimpleCycle g.Edge [u] := by
    refine ⟨by simp,List.nodup_singleton u,.singleton u,fun a ends b starts => ?_⟩
    cases ends
    cases starts
    exact loop
  have valid := (checkCycles_iff correct nodes g).mp accepted [u] cycle
  obtain ⟨⟨id,member,recursive⟩,sourced⟩ := (isValidRecursiveCycle_iff _ _).mp valid
  obtain ⟨other,member',apart,_⟩ := sourced id member recursive
  rw [List.mem_singleton] at member member'
  exact apart (member'.trans member.symm)

/-- An edge into a recursive node is retained when that node is listed first. -/
theorem OrderFree.recursive_rising {nx : Networkx} (correct : nx.Correct) {nodes : List NodeConfig}
    (distinct : (nodes.map (·.id)).Nodup) {d : DependencyGraph} (made : new nx nodes = .ok d)
    (free : OrderFree nx nodes d) {x r : String} (recursive : r ∈ recursiveIds nodes) (edge : d.graph.Edge x r) :
    d.level x < d.level r := by
  obtain ⟨node,member,rfl⟩ := List.mem_map.mp recursive
  have inside : node ∈ nodes := (List.mem_filter.mp member).1
  obtain ⟨before,after,parts⟩ := List.append_of_mem inside
  have perm : (node :: (before ++ after)).Perm nodes := by
    rw [parts]
    exact List.perm_middle.symm
  obtain ⟨g,built,edges,rising⟩ := free.listed correct distinct made perm
  refine rising x node.id edge fun cut => ?_
  have apart : x ≠ node.id := fun same =>
    accepted_irreflexive correct (new_checked made) node.id (same ▸ edge)
  obtain ⟨front,back,nodes',listed,known⟩ := @buildGraph_front [] _ _ _ built
  have behind : x ∉ front := by
    intro early
    rcases known x early with same | ⟨n,none,_⟩
    · exact apart same
    · cases none
  obtain ⟨done,rest,split,turns⟩ := edgesByNode_split nodes' (e := (x,node.id)) ((edges _ _).mpr edge) behind
  obtain ⟨temp,early,inv,present,path⟩ := cut_turn correct _ (buildGraph_edges_nodup built) split cut
  rcases ReflTransGen.cases_head path with same | ⟨y,⟨out,_⟩,path⟩
  · exact apart same.symm
  · obtain ⟨old,uncut⟩ := (inv.edges node.id y).mp out
    have touches : Touches (recursiveIds (node :: (before ++ after))) (node.id,y) :=
      .inl (List.mem_map_of_mem ((perm.filter _).mem_iff.mpr member))
    have turn := turns (node.id,y) old (listed node (List.mem_singleton_self node))
    -- the path goes on from `y` to `x` and over the edge itself back to the recursive node
    have back : ReflTransGen temp.Edge y node.id :=
      ReflTransGen.tail (ReflTransGen.mono (fun u v step => step.1) _ _ path) present
    refine inv.kept (node.id,y) turn touches uncut ?_
    exact ReflTransGen.mono (fun u v step => ⟨step.1,fun same => step.2 (congrArg Prod.fst same)⟩) _ _
      (DirectedGraph.path_avoids back)

/-- Levels fall only along edges from a recursive node to another one. -/
theorem OrderFree.rising {nx : Networkx} (correct : nx.Correct) {nodes : List NodeConfig}
    (distinct : (nodes.map (·.id)).Nodup) {d : DependencyGraph} (made : new nx nodes = .ok d)
    (free : OrderFree nx nodes d) {u v : String} (plain : u ∉ recursiveIds nodes) (edge : d.graph.Edge u v) :
    d.level u < d.level v := by
  by_cases recursive : v ∈ recursiveIds nodes
  · exact free.recursive_rising correct distinct made recursive edge
  · refine levels_rising correct distinct made edge fun cut => ?_
    obtain ⟨_,_,touches⟩ := cut_looping correct made cut
    exact touches.elim plain recursive

/-- A path to a recursive node passes one on at least the level of its start. -/
theorem OrderFree.passes {nx : Networkx} (correct : nx.Correct) {nodes : List NodeConfig}
    (distinct : (nodes.map (·.id)).Nodup) {d : DependencyGraph} (made : new nx nodes = .ok d)
    (free : OrderFree nx nodes d) {q s : String} (recursive : s ∈ recursiveIds nodes)
    (path : ReflTransGen d.graph.Edge q s) : ∃ r ∈ recursiveIds nodes, d.level q ≤ d.level r ∧
      ReflTransGen d.graph.Edge q r ∧ ReflTransGen d.graph.Edge r s := by
  induction path using ReflTransGen.head_induction_on with
  | refl => exact ⟨s,recursive,le_rfl,.refl,.refl⟩
  | @head a b edge rest ih =>
    by_cases here : a ∈ recursiveIds nodes
    · exact ⟨a,here,le_rfl,.refl,rest.head edge⟩
    · obtain ⟨r,recursive,above,there,back⟩ := ih
      have less := free.rising correct distinct made here edge
      exact ⟨r,recursive,less.le.trans above,there.head edge,back⟩

/-- The edge from a recursive node on a cycle to the highest of its targets there is retained when
everything that does not depend on the node is listed first, and that target next. -/
theorem OrderFree.exit_rising {nx : Networkx} (correct : nx.Correct) {nodes : List NodeConfig}
    (distinct : (nodes.map (·.id)).Nodup) {d : DependencyGraph} (made : new nx nodes = .ok d)
    (free : OrderFree nx nodes d) {s q : String} (recursive : s ∈ recursiveIds nodes) (edge : d.graph.Edge s q)
    (highest : ∀ w, d.graph.Edge s w → ReflTransGen d.graph.Edge w s → d.level w ≤ d.level q) :
    d.level s < d.level q := by
  have graph := (new_eq_ok made).1
  obtain ⟨target,member,rfl,depends⟩ := (buildGraph_edge_iff graph s q).mp edge
  let early (n : NodeConfig) : Bool := n.id ≠ s ∧ s ∉ n.dependencies
  have late : target ∈ nodes.filter (!early ·) := List.mem_filter.mpr ⟨member,by simp [early,depends]⟩
  obtain ⟨before,after,parts⟩ := List.append_of_mem late
  have perm : (nodes.filter early ++ target :: (before ++ after)).Perm nodes := by
    refine List.Perm.trans ?_ (List.filter_append_perm early nodes)
    rw [parts]
    exact (List.perm_middle.symm).append_left _
  obtain ⟨g,built,edges,rising⟩ := free.listed correct distinct made perm
  have same (id : String) : id ∈ recursiveIds (nodes.filter early ++ target :: (before ++ after)) ↔
      id ∈ recursiveIds nodes := ((perm.filter _).map _).mem_iff
  obtain ⟨front,back,nodes',listed,known⟩ := buildGraph_front built
  have behind : s ∉ front := by
    intro inside
    rcases known s inside with own | ⟨n,first,role⟩
    · exact accepted_irreflexive correct (new_checked made) s (own ▸ edge)
    · have apart := of_decide_eq_true (List.mem_filter.mp first).2
      exact role.elim (fun own => apart.1 own.symm) apart.2
  refine rising s target.id edge fun cut => ?_
  obtain ⟨done,rest,split,turns⟩ := edgesByNode_split nodes' (e := (s,target.id)) ((edges _ _).mpr edge) behind
  obtain ⟨temp,cutEarly,inv,present,path⟩ := cut_turn correct _ (buildGraph_edges_nodup built) split cut
  have old {u v : String} (step : temp.Edge u v) : d.graph.Edge u v := (edges u v).mp ((inv.edges u v).mp step).1
  -- along the path back from the target, as long as it stays in front
  have stays (y : String) (walk : ReflTransGen (fun u v => temp.Edge u v ∧ (u,v) ≠ (s,target.id)) y s)
      (inside : y ∈ front) (reached : ReflTransGen temp.Edge target.id y) (above : d.level target.id ≤ d.level y) :
      False := by
    induction walk using ReflTransGen.head_induction_on with
    | refl => exact behind inside
    | @head y w step walk ih =>
      have on : ReflTransGen temp.Edge w s := ReflTransGen.mono (fun u v step => step.1) _ _ walk
      by_cases touches : Touches (recursiveIds (nodes.filter early ++ target :: (before ++ after))) (y,w)
      · obtain ⟨kept,uncut⟩ := (inv.edges y w).mp step.1
        refine inv.kept (y,w) (turns (y,w) kept inside) touches uncut ?_
        exact ReflTransGen.mono (fun u v step => ⟨step.1,fun same => step.2 (congrArg Prod.fst same)⟩) _ _
          (DirectedGraph.path_avoids ((on.tail present).trans reached))
      · obtain ⟨open',closed⟩ := not_or.mp touches
        rw [same] at open' closed
        have less : d.level y < d.level w := free.rising correct distinct made open' (old step.1)
        by_cases further : w ∈ front
        · exact ih further (reached.tail step.1) (above.trans less.le)
        · -- `w` is a target of the recursive node too, and higher
          have exit : d.graph.Edge s w := by
            obtain ⟨n,configured,rfl,_⟩ := (buildGraph_edge_iff graph y w).mp (old step.1)
            have behind' : n ∉ nodes.filter early := fun first =>
              further (listed n (List.mem_append_left _ first))
            have apart : n.id ≠ s := fun own => closed (own ▸ recursive)
            by_contra none
            refine behind' (List.mem_filter.mpr ⟨configured,decide_eq_true ⟨apart,fun depends => none ?_⟩⟩)
            exact (buildGraph_edge_iff graph s n.id).mpr ⟨n,configured,rfl,depends⟩
          have top := highest w exit (ReflTransGen.mono (fun u v => old) _ _ on)
          omega
  exact stays target.id path (listed target (List.mem_append_right _ (List.mem_singleton_self target))) .refl le_rfl

/-- With a cycle, no levels fit all listings: the highest recursive node on a cycle would have to be below
one of its targets there, from which a path leads to a recursive node that is not lower. -/
theorem OrderFree.acyclic {nx : Networkx} (correct : nx.Correct) {nodes : List NodeConfig}
    (distinct : (nodes.map (·.id)).Nodup) {d : DependencyGraph} (made : new nx nodes = .ok d)
    (free : OrderFree nx nodes d) : d.graph.Acyclic := by
  classical
  intro n cycle
  rcases DirectedGraph.meets_or_avoids (· ∈ recursiveIds nodes) cycle with ⟨r,recursive,cycle⟩ | away
  · let looping := (recursiveIds nodes).toFinset.filter fun r => TransGen d.graph.Edge r r
    obtain ⟨s,member,top⟩ := looping.exists_max_image d.level
      ⟨r,Finset.mem_filter.mpr ⟨List.mem_toFinset.mpr recursive,cycle⟩⟩
    obtain ⟨recursive,cycle⟩ := Finset.mem_filter.mp member
    rw [List.mem_toFinset] at recursive
    obtain ⟨next,out,path⟩ := TransGen.head'_iff.mp cycle
    let targets := (d.graph.successors s).toFinset.filter fun q => ReflTransGen d.graph.Edge q s
    obtain ⟨q,exit,highest⟩ := targets.exists_max_image d.level
      ⟨next,Finset.mem_filter.mpr ⟨List.mem_toFinset.mpr ((d.graph.mem_successors s next).mpr out),path⟩⟩
    obtain ⟨edge,path⟩ := Finset.mem_filter.mp exit
    rw [List.mem_toFinset,d.graph.mem_successors] at edge
    have less : d.level s < d.level q := by
      refine free.exit_rising correct distinct made recursive edge fun w edge path => highest w ?_
      exact Finset.mem_filter.mpr ⟨List.mem_toFinset.mpr ((d.graph.mem_successors s w).mpr edge),path⟩
    obtain ⟨r,recursive',above,there,back⟩ := free.passes correct distinct made recursive path
    have round : TransGen d.graph.Edge r r := TransGen.trans_right back (TransGen.head' edge there)
    have bound := top r (Finset.mem_filter.mpr ⟨List.mem_toFinset.mpr recursive',round⟩)
    omega
  · exact accepted_guarded correct (new_checked made) n away

end DependencyGraph

/-- Every listing of the nodes gives the same levels exactly when the dependencies have no cycle. -/
theorem levels_orderFree_iff (nx : Networkx) (correct : nx.Correct) (nodes : List NodeConfig)
    (distinct : (nodes.map (·.id)).Nodup) (d : DependencyGraph) (made : DependencyGraph.new nx nodes = .ok d) :
    DependencyGraph.OrderFree nx nodes d ↔ d.graph.Acyclic := by
  constructor
  · exact fun free => free.acyclic correct distinct made
  · exact DependencyGraph.acyclic_orderFree correct distinct made

theorem negotiation_orderFree_iff : ∃ d, DependencyGraph.new .direct negotiationNodes = .ok d ∧
    (DependencyGraph.OrderFree .direct negotiationNodes d ↔ d.graph.Acyclic) := by
  obtain ⟨d,made⟩ := negotiation_accepted
  exact ⟨d,made,levels_orderFree_iff .direct Networkx.direct_correct negotiationNodes (by decide) d made⟩

/-- Listed first, the buyer ends up above the negotiation that depends on it; listed last, below it. -/
theorem negotiation_reordered : negotiationNodes.reverse.Perm negotiationNodes ∧
    ((DependencyGraph.new .direct negotiationNodes).map fun d => (d.level "buyer",d.level "negotiation")).toOption =
      some (2,1) ∧
    ((DependencyGraph.new .direct negotiationNodes.reverse).map fun d =>
      (d.level "buyer",d.level "negotiation")).toOption = some (0,1) := by
  refine ⟨List.reverse_perm negotiationNodes,?_,?_⟩
  · decide +kernel
  · decide +kernel

end IceOS
