import IceOS.DirectedGraph
import IceOS.NodeModels
import Mathlib.Data.List.Sort

/-! The dependency graph of a node list: its construction and cycle check, the levels of
its nodes, and the queries the workflow makes. The graph algorithms come from networkx. -/
namespace IceOS

/-- The networkx functions the graph is analysed with, and what the levels rely on. A
topological sort gives the nodes it yields and whether it then raised `NetworkXUnfeasible`. -/
structure Networkx where
  simpleCycles : DirectedGraph String → List (List String)
  hasPath : DirectedGraph String → String → String → Bool
  topologicalSort : DirectedGraph String → List String × Bool
  pathExists : ∀ (g : DirectedGraph String) u v, hasPath g u v = true → u = v ∨ g.Reaches u v
  sorts : ∀ g : DirectedGraph String, g.Acyclic → g.TopologicalOrder (topologicalSort g).1

structure DependencyGraph where
  graph : DirectedGraph String
  nodeLevels : OrderedDict String Int

def recursiveIds (nodes : List NodeConfig) : List String :=
  (nodes.filter (·.type = .recursive)).map (·.id)

namespace DependencyGraph

def addDependency (nodeIds : List String) (id : String) (g : DirectedGraph String) (dep : String) :
    Except Exn (DirectedGraph String) :=
  if dep ∈ nodeIds then .ok (g.addEdge dep id)
  else
    let text := s!"Dependency {dep} not found for node {id}"
    .error ⟨text,"ValueError(" ++ PythonText.repr text ++ ")"⟩

def buildGraph (nodes : List NodeConfig) : Except Exn (DirectedGraph String) :=
  nodes.foldlM (fun g node =>
    node.dependencies.foldlM (addDependency (nodes.map (·.id)) node.id) (g.addNode node.id))
    DirectedGraph.empty

/-- The cycle has a recursive node, and each of them declares one of the other nodes as a source. -/
def isValidRecursiveCycle (recursiveNodes : OrderedDict String NodeConfig) (cycle : List String) : Bool :=
  let inCycle := cycle.filter (· ∈ recursiveNodes.keys)
  !inCycle.isEmpty && inCycle.all fun id =>
    let sources := ((recursiveNodes.get? id).map (·.recursiveSources)).getD []
    (cycle.filter (· ≠ id)).any (sources.contains ·)

def checkCycles (nx : Networkx) (nodes : List NodeConfig) (g : DirectedGraph String) :
    Except Exn Unit :=
  let recursive := nodes.filter (·.type = .recursive)
  let recursiveNodes := OrderedDict.ofList (recursive.map fun node => (node.id,node))
  (nx.simpleCycles g).forM fun cycle =>
    if isValidRecursiveCycle recursiveNodes cycle then .ok ()
    else
      let path := " -> ".intercalate cycle
      let text := s!"Cyclic agent–tool invocation detected: Invalid cycle detected: {path}. " ++
        "Only recursive nodes with properly declared recursive_sources may form cycles."
      .error ⟨text,"CycleDetectionError(" ++ PythonText.repr text ++ ")"⟩

/-- The graph without the edges at recursive nodes that close a cycle, and those edges. -/
def cutRecursiveEdges (nx : Networkx) (recursive : List String) (g : DirectedGraph String) :
    DirectedGraph String × List (String × String) :=
  g.edgesByNode.foldl (fun (temp,cut) (source,target) =>
    if source ∈ recursive ∨ target ∈ recursive then
      let without := temp.removeEdge source target
      if nx.hasPath without target source then (without,cut ++ [(source,target)])
      else (without.addEdge source target,cut)
    else (temp,cut)) (g,[])

def assignLevel (nodes : OrderedDict String NodeConfig) (cut : List (String × String))
    (levels : OrderedDict String Int) (id : String) : OrderedDict String Int :=
  let deps := ((nodes.get? id).map (·.dependencies)).getD []
  let kept := deps.filter fun dep => (dep,id) ∉ cut
  levels.set id ((kept.map fun dep => (levels.get? dep).getD 0).foldl max (-1) + 1)

/-- The dependencies of a node that the level assignment keeps. -/
def keptDependencies (cut : List (String × String)) (node : NodeConfig) : List String :=
  node.dependencies.filter fun dep => (dep,node.id) ∉ cut

/-- A node the sort does not yield keeps the level of its configuration. -/
def assignLevels (nx : Networkx) (nodes : List NodeConfig) (g : DirectedGraph String) :
    OrderedDict String Int :=
  let (temp,cut) := cutRecursiveEdges nx (recursiveIds nodes) g
  let nodeMap := OrderedDict.ofList (nodes.map fun node => (node.id,node))
  let declared := OrderedDict.ofList (nodes.map fun node => (node.id,node.level))
  let levels := (nx.topologicalSort temp).1.foldl (assignLevel nodeMap cut) declared
  OrderedDict.ofList (nodes.map fun node => (node.id,(levels.get? node.id).getD node.level))

def new (nx : Networkx) (nodes : List NodeConfig) : Except Exn DependencyGraph := do
  let g ← buildGraph nodes
  checkCycles nx nodes g
  return ⟨g,assignLevels nx nodes g⟩

def fileNode (levels : OrderedDict Int (List String)) (entry : String × Int) :
    OrderedDict Int (List String) :=
  levels.set entry.2 ((levels.get? entry.2).getD [] ++ [entry.1])

def getLevelNodes (d : DependencyGraph) : OrderedDict Int (List String) :=
  d.nodeLevels.items.foldl fileNode .empty

/-- The node ids of `sorted(levels.keys())`, level by level. -/
def sortedLevels (d : DependencyGraph) : List (List String) :=
  (d.getLevelNodes.items.insertionSort fun a b => a.1 ≤ b.1).map Prod.snd

def getNodeDependencies (d : DependencyGraph) (id : String) : List String := d.graph.predecessors id

def getLeafNodes (d : DependencyGraph) : List String := d.graph.sinks

/-- Filing one more id moves no other. -/
theorem fileNode_flatten (levels : OrderedDict Int (List String)) (entry : String × Int) :
    ((fileNode levels entry).items.map Prod.snd).flatten.Perm
      ((levels.items.map Prod.snd).flatten ++ [entry.1]) := by
  obtain ⟨items,nodup⟩ := levels
  simp only [fileNode,OrderedDict.set,OrderedDict.get?]
  clear nodup
  induction items with
  | nil => simp [OrderedDict.insert]
  | cons head rest ih =>
    obtain ⟨other,ids⟩ := head
    by_cases same : other = entry.2
    · subst other
      simp only [OrderedDict.insert,if_true,List.lookup_cons_self,Option.getD_some,List.map_cons,
        List.flatten_cons,List.append_assoc]
      exact List.perm_append_comm.append_left ids
    · simp only [OrderedDict.insert,same,if_false,List.map_cons,List.flatten_cons,List.append_assoc,
        OrderedDict.lookup_cons_other ids rest (Ne.symm same)]
      exact ih.append_left ids

theorem fileNodes_flatten (entries : List (String × Int)) (levels : OrderedDict Int (List String)) :
    ((entries.foldl fileNode levels).items.map Prod.snd).flatten.Perm
      ((levels.items.map Prod.snd).flatten ++ entries.map Prod.fst) := by
  induction entries generalizing levels with
  | nil => simp
  | cons entry rest ih =>
    calc ((rest.foldl fileNode (fileNode levels entry)).items.map Prod.snd).flatten
        |>.Perm (((fileNode levels entry).items.map Prod.snd).flatten ++ rest.map Prod.fst) := ih _
      _ |>.Perm ((levels.items.map Prod.snd).flatten ++ [entry.1] ++ rest.map Prod.fst) :=
        (fileNode_flatten levels entry).append_right _
      _ = (levels.items.map Prod.snd).flatten ++ (entry :: rest).map Prod.fst := by simp

/-- Every id with a level is in exactly one of the level lists. -/
theorem sortedLevels_perm (d : DependencyGraph) : d.sortedLevels.flatten.Perm d.nodeLevels.keys := by
  have sorted := (List.perm_insertionSort (fun a b => a.1 ≤ b.1) d.getLevelNodes.items).map Prod.snd
  exact sorted.flatten.trans (fileNodes_flatten d.nodeLevels.items .empty)

theorem addDependencies_nodes {nodeIds : List String} {id : String} {deps : List String}
    {g h : DirectedGraph String} (built : deps.foldlM (addDependency nodeIds id) g = .ok h) (own : id ∈ g.nodes)
    (n : String) : (n ∈ g.nodes → n ∈ h.nodes) ∧ (n ∈ h.nodes → n ∈ g.nodes ∨ n ∈ nodeIds) := by
  induction deps generalizing g with
  | nil =>
    cases built
    exact ⟨fun old => old,.inl⟩
  | cons dep rest ih =>
    simp only [List.foldlM_cons,addDependency] at built
    split at built
    · next known =>
      have nodes (n : String) : n ∈ (g.addEdge dep id).nodes ↔ (n ∈ g.nodes ∨ n = dep) ∨ n = id := by
        simp [DirectedGraph.addEdge,DirectedGraph.mem_addNode]
      obtain ⟨kept,known'⟩ := ih built ((nodes id).mpr (.inr rfl))
      constructor
      · intro old
        exact kept ((nodes n).mpr (.inl (.inl old)))
      · intro member
        rcases known' member with inside | named
        · rcases (nodes n).mp inside with (old | rfl) | rfl
          · exact .inl old
          · exact .inr known
          · exact .inl own
        · exact .inr named
    · simp [bind,Except.bind] at built

/-- What adding the nodes and their dependencies preserves holds of the whole graph. -/
theorem buildGraph_rule (P : DirectedGraph String → Prop) {nodes : List NodeConfig} {g : DirectedGraph String}
    (built : buildGraph nodes = .ok g) (empty : P .empty) (node : ∀ g, ∀ n ∈ nodes, P g → P (g.addNode n.id))
    (edge : ∀ g, ∀ n ∈ nodes, ∀ dep ∈ n.dependencies, P g → P (g.addEdge dep n.id)) : P g := by
  have edges (nodeIds : List String) (id : String) (deps : List String)
      (edge : ∀ g, ∀ dep ∈ deps, P g → P (g.addEdge dep id)) (g h : DirectedGraph String) (start : P g)
      (done : deps.foldlM (addDependency nodeIds id) g = .ok h) : P h := by
    induction deps generalizing g with
    | nil =>
      cases done
      exact start
    | cons dep rest ih =>
      simp only [List.foldlM_cons,addDependency] at done
      split at done
      · exact ih (fun g dep member => edge g dep (List.mem_cons_of_mem _ member)) (g.addEdge dep id)
          (edge g dep List.mem_cons_self start) done
      · simp [bind,Except.bind] at done
  have grown (nodeIds : List String) (todo : List NodeConfig) (inside : ∀ n ∈ todo, n ∈ nodes)
      (g h : DirectedGraph String) (start : P g) (done : todo.foldlM (fun g node =>
        node.dependencies.foldlM (addDependency nodeIds node.id) (g.addNode node.id)) g = .ok h) : P h := by
    induction todo generalizing g with
    | nil =>
      cases done
      exact start
    | cons n rest ih =>
      rw [List.foldlM_cons] at done
      cases first : n.dependencies.foldlM (addDependency nodeIds n.id) (g.addNode n.id) with
      | error e => simp [first,bind,Except.bind] at done
      | ok k =>
        simp only [first] at done
        have member := inside n List.mem_cons_self
        exact ih (fun m later => inside m (List.mem_cons_of_mem n later)) k
          (edges nodeIds n.id n.dependencies (fun g dep depends => edge g n member dep depends) _ k
            (node g n member start) first) done
  exact grown _ nodes (fun n member => member) .empty g empty built

theorem buildGraph_edges_nodup {nodes : List NodeConfig} {g : DirectedGraph String} (built : buildGraph nodes = .ok g) :
    g.edges.Nodup := by
  refine buildGraph_rule (fun g => g.edges.Nodup) built List.nodup_nil (fun g n _ nodup => nodup) ?_
  intro g n _ dep _ nodup
  simp only [DirectedGraph.addEdge]
  split
  · exact nodup
  · next fresh =>
    exact List.nodup_append.mpr ⟨nodup,List.nodup_singleton _,fun a old b single same =>
      fresh (List.mem_singleton.mp single ▸ same ▸ old)⟩

/-- The nodes of the graph are the configured ones. -/
theorem buildGraph_nodes {nodes : List NodeConfig} {g : DirectedGraph String}
    (built : buildGraph nodes = .ok g) (id : String) : id ∈ g.nodes ↔ id ∈ nodes.map (·.id) := by
  have grown (nodeIds : List String) (todo : List NodeConfig) (g h : DirectedGraph String)
      (done : todo.foldlM (fun g node =>
        node.dependencies.foldlM (addDependency nodeIds node.id) (g.addNode node.id)) g = .ok h) (n : String) :
      (n ∈ g.nodes ∨ n ∈ todo.map (·.id) → n ∈ h.nodes) ∧
        (n ∈ h.nodes → n ∈ g.nodes ∨ n ∈ todo.map (·.id) ∨ n ∈ nodeIds) := by
    induction todo generalizing g with
    | nil =>
      cases done
      simp only [List.map_nil,List.not_mem_nil,or_false,false_or]
      exact ⟨fun old => old,.inl⟩
    | cons node rest ih =>
      rw [List.foldlM_cons] at done
      cases first : node.dependencies.foldlM (addDependency nodeIds node.id) (g.addNode node.id) with
      | error e => simp [first,bind,Except.bind] at done
      | ok k =>
        simp only [first] at done
        have own : node.id ∈ (g.addNode node.id).nodes := (g.mem_addNode node.id node.id).mpr (.inr rfl)
        obtain ⟨kept,known⟩ := addDependencies_nodes first own n
        obtain ⟨kept',known'⟩ := ih k done
        rw [g.mem_addNode] at kept known
        simp only [List.map_cons,List.mem_cons]
        constructor
        · rintro (old | here | later)
          · exact kept' (.inl (kept (.inl old)))
          · exact kept' (.inl (kept (.inr here)))
          · exact kept' (.inr later)
        · intro member
          rcases known' member with inside | later | named
          · rcases known inside with (old | here) | named
            · exact .inl old
            · exact .inr (.inl (.inl here))
            · exact .inr (.inr named)
          · exact .inr (.inl (.inr later))
          · exact .inr (.inr named)
  have all := grown _ nodes .empty g built id
  simp only [DirectedGraph.empty,List.not_mem_nil,false_or,or_self] at all
  exact ⟨all.2,all.1⟩

theorem new_parts {nx : Networkx} {nodes : List NodeConfig} {d : DependencyGraph} (made : new nx nodes = .ok d) :
    buildGraph nodes = .ok d.graph ∧ checkCycles nx nodes d.graph = .ok () ∧
      d.nodeLevels = assignLevels nx nodes d.graph := by
  simp only [new,bind,Except.bind] at made
  cases built : buildGraph nodes with
  | error e => simp [built] at made
  | ok g =>
    simp only [built] at made
    cases checked : checkCycles nx nodes g with
    | error e => simp [checked] at made
    | ok =>
      simp only [checked] at made
      cases made
      exact ⟨rfl,checked,rfl⟩

theorem new_eq_ok {nx : Networkx} {nodes : List NodeConfig} {d : DependencyGraph} (made : new nx nodes = .ok d) :
    buildGraph nodes = .ok d.graph ∧ d.nodeLevels = assignLevels nx nodes d.graph := by
  obtain ⟨built,_,levels⟩ := new_parts made
  exact ⟨built,levels⟩

theorem new_checked {nx : Networkx} {nodes : List NodeConfig} {d : DependencyGraph} (made : new nx nodes = .ok d) :
    checkCycles nx nodes d.graph = .ok () := (new_parts made).2.1

/-- The level lists hold the configured ids, each once. -/
theorem mem_sortedLevels {nx : Networkx} {nodes : List NodeConfig} {d : DependencyGraph}
    (made : new nx nodes = .ok d) (id : String) : id ∈ d.sortedLevels.flatten ↔ id ∈ nodes.map (·.id) := by
  rw [d.sortedLevels_perm.mem_iff,(new_eq_ok made).2]
  simp [assignLevels]

/-! ### Levels follow the dependencies -/

def level (d : DependencyGraph) (id : String) : Int := (d.nodeLevels.get? id).getD 0

theorem addDependencies_edges {nodeIds : List String} {id : String} {deps : List String}
    {g h : DirectedGraph String} (built : deps.foldlM (addDependency nodeIds id) g = .ok h) :
    (∀ u v, g.Edge u v → h.Edge u v) ∧ ∀ dep ∈ deps, dep ∈ nodeIds ∧ h.Edge dep id := by
  induction deps generalizing g with
  | nil => cases built; simp
  | cons dep rest ih =>
    simp only [List.foldlM_cons,addDependency] at built
    split at built
    · next known =>
      obtain ⟨kept,added⟩ := ih built
      constructor
      · intro u v edge
        exact kept u v ((g.edge_addEdge dep id u v).mpr (.inl edge))
      · exact List.forall_mem_cons.mpr
          ⟨⟨known,kept dep id ((g.edge_addEdge dep id dep id).mpr (.inr ⟨rfl,rfl⟩))⟩,added⟩
    · simp [bind,Except.bind] at built

/-- Every dependency is a configured node and an edge of the graph. -/
theorem buildGraph_edges {nodes : List NodeConfig} {g : DirectedGraph String}
    (built : buildGraph nodes = .ok g) :
    ∀ node ∈ nodes, ∀ dep ∈ node.dependencies, dep ∈ nodes.map (·.id) ∧ g.Edge dep node.id := by
  have grown (nodeIds : List String) (todo : List NodeConfig) (g h : DirectedGraph String)
      (done : todo.foldlM (fun g node =>
        node.dependencies.foldlM (addDependency nodeIds node.id) (g.addNode node.id)) g = .ok h) :
      (∀ u v, g.Edge u v → h.Edge u v) ∧
        ∀ node ∈ todo, ∀ dep ∈ node.dependencies, dep ∈ nodeIds ∧ h.Edge dep node.id := by
    induction todo generalizing g with
    | nil => cases done; simp
    | cons node rest ih =>
      rw [List.foldlM_cons] at done
      cases first : node.dependencies.foldlM (addDependency nodeIds node.id) (g.addNode node.id) with
      | error e => simp [first,bind,Except.bind] at done
      | ok k =>
        simp only [first] at done
        obtain ⟨kept,added⟩ := addDependencies_edges first
        obtain ⟨kept',added'⟩ := ih k done
        constructor
        · intro u v edge
          exact kept' u v (kept u v edge)
        · exact List.forall_mem_cons.mpr ⟨fun dep member =>
            ⟨(added dep member).1,kept' dep node.id (added dep member).2⟩,added'⟩
  exact (grown _ nodes .empty g built).2

/-- The edges are the dependencies. -/
theorem buildGraph_edge_iff {nodes : List NodeConfig} {g : DirectedGraph String} (built : buildGraph nodes = .ok g)
    (u v : String) : g.Edge u v ↔ ∃ node ∈ nodes, node.id = v ∧ u ∈ node.dependencies := by
  constructor
  · revert u v
    refine buildGraph_rule (fun g => ∀ u v, g.Edge u v → ∃ node ∈ nodes, node.id = v ∧ u ∈ node.dependencies) built
      (fun u v edge => ?_) (fun g n _ known => known) ?_
    · cases edge
    · intro g n member dep depends known u v edge
      rcases (g.edge_addEdge dep n.id u v).mp edge with old | ⟨rfl,rfl⟩
      · exact known u v old
      · exact ⟨n,member,rfl,depends⟩
  · rintro ⟨node,member,rfl,depends⟩
    exact (buildGraph_edges built node member u depends).2

/-- The temporary graph of an acyclic graph has its nodes and edges, in another order. -/
theorem cutRecursiveEdges_acyclic (nx : Networkx) (recursive : List String) {g : DirectedGraph String}
    (acyclic : g.Acyclic) : ∃ temp, cutRecursiveEdges nx recursive g = (temp,[]) ∧
      (∀ u v, temp.Edge u v ↔ g.Edge u v) ∧ ∀ n, n ∈ temp.nodes ↔ n ∈ g.nodes := by
  have folded (todo : List (String × String)) (edges : ∀ e ∈ todo, g.Edge e.1 e.2)
      (temp : DirectedGraph String) (same : ∀ u v, temp.Edge u v ↔ g.Edge u v)
      (nodes : ∀ n, n ∈ temp.nodes ↔ n ∈ g.nodes) :
      ∃ last, todo.foldl (fun (temp,cut) (source,target) =>
        if source ∈ recursive ∨ target ∈ recursive then
          let without := temp.removeEdge source target
          if nx.hasPath without target source then (without,cut ++ [(source,target)])
          else (without.addEdge source target,cut)
        else (temp,cut)) (temp,[]) = (last,[]) ∧
        (∀ u v, last.Edge u v ↔ g.Edge u v) ∧ ∀ n, n ∈ last.nodes ↔ n ∈ g.nodes := by
    induction todo generalizing temp with
    | nil => exact ⟨temp,rfl,same,nodes⟩
    | cons edge rest ih =>
      obtain ⟨source,target⟩ := edge
      have own : g.Edge source target := edges _ List.mem_cons_self
      have edges' := fun e member => edges e (List.mem_cons_of_mem _ member)
      simp only [List.foldl_cons]
      split
      · have apart : ¬nx.hasPath (temp.removeEdge source target) target source = true := by
          intro found
          rcases nx.pathExists _ _ _ found with loop | path
          · exact acyclic source (.single (loop ▸ own))
          · have back : g.Reaches target source := Relation.TransGen.mono (fun u v edge =>
              (same u v).mp ((temp.edge_removeEdge source target u v).mp edge).1) _ _ path
            exact acyclic source (.head own back)
        simp only [apart]
        apply ih edges'
        · intro u v
          rw [DirectedGraph.edge_addEdge,DirectedGraph.edge_removeEdge,same]
          constructor
          · rintro (⟨edge,_⟩ | ⟨rfl,rfl⟩)
            · exact edge
            · exact own
          · intro edge
            by_cases here : u = source ∧ v = target
            · exact .inr here
            · exact .inl ⟨edge,here⟩
        · intro n
          have ends := g.closed _ own
          simp only [DirectedGraph.addEdge,DirectedGraph.mem_addNode,DirectedGraph.removeEdge,nodes]
          constructor
          · rintro ((old | rfl) | rfl)
            · exact old
            · exact ends.1
            · exact ends.2
          · exact fun old => .inl (.inl old)
      · exact ih edges' temp same nodes
  refine folded g.edgesByNode (fun e member => ?_) g (fun _ _ => Iff.rfl) fun _ => Iff.rfl
  simp only [DirectedGraph.edgesByNode,List.mem_flatMap,List.mem_map,DirectedGraph.mem_successors] at member
  obtain ⟨u,_,v,edge,rfl⟩ := member
  exact edge

theorem le_foldl_max (xs : List Int) (start : Int) :
    start ≤ xs.foldl max start ∧ ∀ x ∈ xs, x ≤ xs.foldl max start := by
  induction xs generalizing start with
  | nil => simp
  | cons x rest ih =>
    obtain ⟨low,all⟩ := ih (max start x)
    rw [List.foldl_cons]
    exact ⟨(le_max_left start x).trans low,
      List.forall_mem_cons.mpr ⟨(le_max_right start x).trans low,all⟩⟩

theorem assignLevel_other (nodes : OrderedDict String NodeConfig) (cut : List (String × String))
    (order : List String) (levels : OrderedDict String Int) {id : String} (absent : id ∉ order) :
    (order.foldl (assignLevel nodes cut) levels).get? id = levels.get? id := by
  induction order generalizing levels with
  | nil => rfl
  | cons n rest ih =>
    obtain ⟨other,absent⟩ := List.ne_and_not_mem_of_not_mem_cons absent
    rw [List.foldl_cons,ih (assignLevel nodes cut levels n) absent]
    exact OrderedDict.get?_set_other levels _ other.symm

/-- In topological order each node is put above all its dependencies. -/
theorem assignLevel_rising (nodes : OrderedDict String NodeConfig) {order : List String}
    (nodup : order.Nodup) (levels : OrderedDict String Int) {id : String} (member : id ∈ order)
    (sorted : ∀ before after, order = before ++ id :: after →
      ∀ node, nodes.get? id = some node → ∀ dep ∈ node.dependencies, dep ∈ before) :
    ∃ k, (order.foldl (assignLevel nodes []) levels).get? id = some k ∧
      ∀ node, nodes.get? id = some node → ∀ dep ∈ node.dependencies,
        ∃ j, (order.foldl (assignLevel nodes []) levels).get? dep = j ∧ j.getD 0 < k := by
  obtain ⟨before,after,parts⟩ := List.append_of_mem member
  have earlier := sorted before after parts
  subst parts
  obtain ⟨_,back,disjoint⟩ := List.nodup_append.mp nodup
  have later := (List.nodup_cons.mp back).1
  have here : ((before ++ id :: after).foldl (assignLevel nodes []) levels).get? id =
      (assignLevel nodes [] (before.foldl (assignLevel nodes []) levels) id).get? id := by
    rw [List.foldl_append,List.foldl_cons,assignLevel_other nodes [] after _ later]
  refine ⟨_,here.trans (OrderedDict.get?_set_same ..),fun node found dep depends => ⟨_,rfl,?_⟩⟩
  have placed := earlier node found dep depends
  have gone : dep ∉ id :: after := fun again => disjoint dep placed dep again rfl
  rw [List.foldl_append,assignLevel_other nodes [] (id :: after) _ gone]
  have bound := (le_foldl_max
    ((node.dependencies.filter fun dep => (dep,id) ∉ ([] : List (String × String))).map fun dep =>
      ((before.foldl (assignLevel nodes []) levels).get? dep).getD 0) (-1)).2
    (((before.foldl (assignLevel nodes []) levels).get? dep).getD 0)
    (List.mem_map.mpr ⟨dep,by simpa using depends,rfl⟩)
  simp only [found,Option.map_some,Option.getD_some]
  omega

/-- On an acyclic graph a node is on a higher level than everything it depends on. -/
theorem level_rising {nx : Networkx} {nodes : List NodeConfig} {d : DependencyGraph}
    (made : new nx nodes = .ok d) (acyclic : d.graph.Acyclic) {id : String} {node : NodeConfig}
    (found : (OrderedDict.ofList (nodes.map fun node => (node.id,node))).get? id = some node)
    {dep : String} (depends : dep ∈ node.dependencies) : d.level dep < d.level id := by
  obtain ⟨built,levels⟩ := new_eq_ok made
  obtain ⟨temp,cut,edges,temps⟩ := cutRecursiveEdges_acyclic nx (recursiveIds nodes) acyclic
  have tempAcyclic : temp.Acyclic := fun n path =>
    acyclic n (Relation.TransGen.mono (fun u v => (edges u v).mp) _ _ path)
  have order := nx.sorts temp tempAcyclic
  have dependencies : ∀ id node, (OrderedDict.ofList (nodes.map fun node => (node.id,node))).get? id =
      some node → ∀ dep ∈ node.dependencies, dep ∈ nodes.map (·.id) ∧ d.graph.Edge dep id := by
    intro id node found dep member
    obtain ⟨entry,inside,same⟩ := List.mem_map.mp (OrderedDict.get?_ofList _ found)
    cases same
    exact buildGraph_edges built node inside dep member
  obtain ⟨known,edge⟩ := dependencies id node found dep depends
  have placed : ∀ n ∈ nodes.map (·.id), n ∈ (nx.topologicalSort temp).1 := fun n member =>
    order.complete n ((temps n).mpr ((buildGraph_nodes built n).mpr member))
  have own : id ∈ nodes.map (·.id) := by
    obtain ⟨entry,inside,same⟩ := List.mem_map.mp (OrderedDict.get?_ofList _ found)
    cases same
    exact List.mem_map_of_mem inside
  have rising (n : String) (member : n ∈ nodes.map (·.id)) :=
    assignLevel_rising (OrderedDict.ofList (nodes.map fun node => (node.id,node))) order.nodup
      (OrderedDict.ofList (nodes.map fun node => (node.id,node.level))) (placed n member)
      fun before after parts node found dep member =>
        order.sorted before n after parts dep ((edges dep n).mpr (dependencies n node found dep member).2)
  obtain ⟨k,final,above⟩ := rising id own
  obtain ⟨_,rfl,less⟩ := above node found dep depends
  obtain ⟨j,lower,_⟩ := rising dep known
  have assigned (n : String) (member : n ∈ nodes.map (·.id)) {k : Int}
      (final : ((nx.topologicalSort temp).1.foldl
        (assignLevel (OrderedDict.ofList (nodes.map fun node => (node.id,node))) [])
        (OrderedDict.ofList (nodes.map fun node => (node.id,node.level)))).get? n = some k) :
      d.level n = k := by
    have known : n ∈ d.nodeLevels.keys := by
      rw [levels]
      simpa [assignLevels] using member
    obtain ⟨value,present⟩ := Option.isSome_iff_exists.mp ((d.nodeLevels.mem_keys n).mp known)
    have entry := present
    simp only [levels,assignLevels,cut] at entry
    obtain ⟨node,_,same⟩ := List.mem_map.mp (OrderedDict.get?_ofList _ entry)
    cases same
    simp [level,present,final]
  rw [assigned dep known lower,assigned id own final]
  simpa [lower] using less

theorem fileNodes_level (entries : List (String × Int)) (levels : OrderedDict Int (List String))
    {k : Int} {ids : List String} (filed : (entries.foldl fileNode levels).get? k = some ids) :
    ∀ id ∈ ids, (id,k) ∈ entries ∨ ∃ old, levels.get? k = some old ∧ id ∈ old := by
  induction entries generalizing levels with
  | nil => exact fun id member => .inr ⟨ids,filed,member⟩
  | cons entry rest ih =>
    intro id member
    rcases ih (fileNode levels entry) filed id member with later | ⟨old,here,inside⟩
    · exact .inl (List.mem_cons_of_mem entry later)
    · simp only [fileNode,OrderedDict.get?_set] at here
      split at here
      · next same =>
        cases here
        rcases List.mem_append.mp inside with before | single
        · cases found : levels.get? entry.2 with
          | none => simp [found] at before
          | some more => exact .inr ⟨more,same ▸ found,by simpa [found] using before⟩
        · left
          rw [List.mem_singleton.mp single,← same]
          exact List.mem_cons_self
      · exact .inr ⟨old,here,inside⟩

theorem filed_level (d : DependencyGraph) {k : Int} {ids : List String}
    (filed : (k,ids) ∈ d.getLevelNodes.items.insertionSort fun a b => a.1 ≤ b.1) {id : String} (inside : id ∈ ids) :
    d.level id = k := by
  have filed' := (d.getLevelNodes.get?_eq_some k ids).mpr
    ((List.perm_insertionSort (fun a b => a.1 ≤ b.1) d.getLevelNodes.items).mem_iff.mp filed)
  rcases fileNodes_level d.nodeLevels.items .empty filed' id inside with entry | ⟨old,none,_⟩
  · simp [level,(d.nodeLevels.get?_eq_some id k).mpr entry]
  · simp at none

/-- The ids of one level list have one level. -/
theorem sortedLevels_flat (d : DependencyGraph) {ids : List String} (member : ids ∈ d.sortedLevels)
    {id other : String} (inside : id ∈ ids) (inside' : other ∈ ids) : d.level id = d.level other := by
  obtain ⟨⟨k,ids⟩,filed,rfl⟩ := List.mem_map.mp member
  rw [d.filed_level filed inside,d.filed_level filed inside']

/-- A later level list has the higher level. -/
theorem sortedLevels_rising (d : DependencyGraph) :
    d.sortedLevels.Pairwise fun a b => ∀ x ∈ a, ∀ y ∈ b, d.level x < d.level y := by
  have total : Std.Total fun a b : Int × List String => a.1 ≤ b.1 := ⟨fun a b => le_total a.1 b.1⟩
  have transitive : IsTrans (Int × List String) fun a b => a.1 ≤ b.1 := ⟨fun _ _ _ => le_trans⟩
  have sorted := List.pairwise_insertionSort (fun a b : Int × List String => a.1 ≤ b.1) d.getLevelNodes.items
  have apart : (d.getLevelNodes.items.insertionSort fun a b => a.1 ≤ b.1).Pairwise fun a b => a.1 ≠ b.1 := by
    have keys := ((List.perm_insertionSort (fun a b => a.1 ≤ b.1) d.getLevelNodes.items).map Prod.fst).nodup_iff.mpr
      d.getLevelNodes.nodup
    exact List.pairwise_map.mp keys
  refine List.pairwise_map.mpr ((sorted.and apart).imp_of_mem ?_)
  rintro ⟨j,a⟩ ⟨k,b⟩ early late ⟨low,other⟩ x inside y inside'
  rw [d.filed_level early inside,d.filed_level late inside']
  exact lt_of_le_of_ne low other

end DependencyGraph

/-! ### networkx on small graphs -/

namespace Networkx

/-- Simple paths from `first` that come back to it over nodes listed after it. -/
def cyclesFrom (g : DirectedGraph String) (first : String) (allowed : List String) :
    Nat → List String → List (List String)
  | 0, _ => []
  | fuel + 1, path =>
    let last := path.getLastD first
    (if first ∈ g.successors last then [path] else []) ++
      ((g.successors last).filter fun v => v ∈ allowed ∧ v ∉ path).flatMap fun v =>
        cyclesFrom g first allowed fuel (path ++ [v])

/-- Direct implementations of the three algorithms. -/
def direct : Networkx where
  simpleCycles g := g.nodes.zipIdx.flatMap fun (n,i) =>
    cyclesFrom g n (g.nodes.drop (i + 1)) g.nodes.length [n]
  hasPath g u v := v ∈ g.spread g.nodes.length [u]
  topologicalSort g :=
    let placed := g.generations g.nodes.length []
    (placed,placed.length ≠ g.nodes.length)
  pathExists g u v found := by
    obtain ⟨w,start,path⟩ := g.spread_sound _ _ (of_decide_eq_true found)
    rwa [List.mem_singleton.mp start] at path
  sorts g acyclic := g.generations_order acyclic

end Networkx

end IceOS
