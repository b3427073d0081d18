import IceOS.DependencyGraph
import IceOS.MaximalPaths
import Mathlib.Algebra.BigOperators.Group.List.Basic
import Mathlib.Algebra.Order.Ring.Unbundled.Rat
import Mathlib.Data.Rat.Cast.Order
import Mathlib.Tactic.FieldSimp
import Mathlib.Tactic.Ring

/-! The critical path of a dependency graph, and the statistics that its nodes and edges carry. Times and rates are
rational numbers here. -/
namespace IceOS

structure NodeStats where
  executionCount : Nat := 0
  lastExecutionTime : Option Rat := none
  avgExecutionTime : Rat := 0
  successRate : Rat := 1
  lastError : Option String := none
  executionState : String := "pending"
  complexityScore : Rat

structure EdgeStats where
  edgeWeight : Rat := 1
  avgTransferTime : Rat := 0
  totalDataTransferred : Int := 0
  transferCount : Nat := 0

/-- The numbers among the attributes of an edge. -/
def EdgeStats.get? (data : EdgeStats) : String → Option Rat
  | "edge_weight" => some data.edgeWeight
  | "avg_transfer_time" => some data.avgTransferTime
  | "total_data_transferred" => some data.totalDataTransferred
  | "transfer_count" => some data.transferCount
  | _ => none

structure GraphStats where
  graph : DirectedGraph String
  node : String → NodeStats
  edge : String × String → EdgeStats := fun _ => {}

inductive StatsUpdate where
  | execution (nodeId : String) (executionTime : Rat) (success : Bool) (error : Option String)
  | dataTransfer (sourceId targetId : String) (transferTime : Rat) (dataSize : Int)

namespace GraphStats

def calculateComplexity : NodeType → Rat
  | .tool => 1
  | .llm => 2
  | .agent => 3
  | .loop => 5 / 2
  | .condition => 3 / 2
  | .workflow => 4
  | _ => 1

/-- The attributes of a node are those of the last configuration with its id. -/
def ofNodes (nodes : List NodeConfig) (g : DirectedGraph String) : GraphStats where
  graph := g
  node id := { complexityScore := ((nodes.reverse.find? (·.id = id)).map (calculateComplexity ·.type)).getD 1 }

/-- The average of one value more. -/
def rolling (average : Rat) (count : Nat) (value : Rat) : Rat := (average * (count - 1) + value) / count

def updateExecutionStats (s : GraphStats) (nodeId : String) (executionTime : Rat) (success : Bool)
    (error : Option String) : GraphStats :=
  if nodeId ∉ s.graph.nodes then s
  else
    let data := s.node nodeId
    let count := data.executionCount + 1
    let updated : NodeStats :=
      { data with
        executionCount := count
        lastExecutionTime := some executionTime
        lastError := if error.any (· ≠ "") then error else data.lastError
        avgExecutionTime := rolling data.avgExecutionTime count executionTime
        successRate := rolling data.successRate count (if success then 1 else 0)
        executionState := if success then "completed" else "failed" }
    { s with node := Function.update s.node nodeId updated }

def updateDataTransferStats (s : GraphStats) (sourceId targetId : String) (transferTime : Rat) (dataSize : Int) :
    GraphStats :=
  if !s.graph.edges.contains (sourceId,targetId) then s
  else
    let data := s.edge (sourceId,targetId)
    let count := data.transferCount + 1
    let updated : EdgeStats :=
      { data with
        transferCount := count
        totalDataTransferred := data.totalDataTransferred + dataSize
        avgTransferTime := rolling data.avgTransferTime count transferTime }
    { s with edge := Function.update s.edge (sourceId,targetId) updated }

def update (s : GraphStats) : StatsUpdate → GraphStats
  | .execution nodeId executionTime success error => s.updateExecutionStats nodeId executionTime success error
  | .dataTransfer sourceId targetId transferTime dataSize =>
    s.updateDataTransferStats sourceId targetId transferTime dataSize

/-- `dag_longest_path` for a weight of each edge. It is `none` when it raises. -/
abbrev DagLongestPath := DirectedGraph String → (String × String → Rat) → Option (List String)

/-- The attribute of an edge that is used as its weight; one that is not there counts as 1. -/
def edgeWeights (s : GraphStats) (weight : String) (e : String × String) : Rat := ((s.edge e).get? weight).getD 1

def getCriticalPath (dagLongestPath : DagLongestPath) (s : GraphStats) : List String :=
  match dagLongestPath s.graph (s.edgeWeights "avg_execution_time") with
  | some path => path
  | none => (dagLongestPath s.graph (s.edgeWeights "complexity_score")).getD []

/-! ### What is expected of it -/

def edgeSum (w : String × String → Rat) : List String → Rat
  | u :: v :: rest => w (u,v) + edgeSum w (v :: rest)
  | _ => 0

/-- Without cycles it finds a path on which the weights of the edges add up to the most. -/
def Correct (dagLongestPath : DagLongestPath) : Prop :=
  ∀ g w, g.Acyclic → ∃ p, dagLongestPath g w = some p ∧ g.Maximal (edgeSum w) p

/-- Before any execution the complexity of a node counts, afterwards its average time. -/
def nodeWeight (s : GraphStats) (id : String) : Rat :=
  if s.graph.nodes.all fun n => (s.node n).executionCount = 0 then (s.node id).complexityScore
  else (s.node id).avgExecutionTime

/-- No path is heavier. -/
def Heaviest (s : GraphStats) (p : List String) : Prop := s.graph.Maximal (fun q => (q.map s.nodeWeight).sum) p

/-! ### What the weights are -/

theorem update_graph (s : GraphStats) (u : StatsUpdate) : (s.update u).graph = s.graph := by
  cases u with
  | execution nodeId =>
    simp only [update,updateExecutionStats]
    split <;> rfl
  | dataTransfer sourceId targetId =>
    simp only [update,updateDataTransferStats]
    split <;> rfl

theorem updates_graph (history : List StatsUpdate) (s : GraphStats) : (history.foldl update s).graph = s.graph := by
  induction history generalizing s with
  | nil => rfl
  | cons u rest ih => rw [List.foldl_cons,ih,update_graph]

/-- An average that every update of a known node or edge keeps up to date, with the number of its values. -/
structure Averaged (known : GraphStats → Prop) (values : StatsUpdate → List Rat) (count : GraphStats → Nat)
    (average : GraphStats → Rat) : Prop where
  keeps : ∀ s u, known s → known (s.update u)
  counts : ∀ s u, known s → count (s.update u) = count s + (values u).length
  totals : ∀ s u, known s → average (s.update u) * count (s.update u) = average s * count s + (values u).sum

theorem Averaged.updates {known : GraphStats → Prop} {values : StatsUpdate → List Rat} {count : GraphStats → Nat}
    {average : GraphStats → Rat} (averaged : Averaged known values count average) (history : List StatsUpdate)
    (s : GraphStats) (member : known s) :
    count (history.foldl update s) = count s + (history.flatMap values).length ∧
      average (history.foldl update s) * count (history.foldl update s) =
        average s * count s + (history.flatMap values).sum := by
  induction history generalizing s with
  | nil => simp
  | cons u rest ih =>
    obtain ⟨counts,totals⟩ := ih (s.update u) (averaged.keeps s u member)
    rw [List.foldl_cons,List.flatMap_cons,List.length_append,List.sum_append]
    constructor
    · rw [counts,averaged.counts s u member,Nat.add_assoc]
    · rw [totals,averaged.totals s u member,add_assoc]

/-- The times of the executions of a node. -/
def times (id : String) : List StatsUpdate → List Rat
  | [] => []
  | .execution nodeId executionTime _ _ :: rest =>
    if nodeId = id then executionTime :: times id rest else times id rest
  | .dataTransfer .. :: rest => times id rest

theorem rolling_sum (average : Rat) (count : Nat) (value : Rat) :
    rolling average (count + 1) value * (count + 1) = average * count + value := by
  have positive : ((count : Rat) + 1) ≠ 0 := Nat.cast_add_one_ne_zero count
  rw [rolling]
  push_cast
  field_simp
  ring

/-- What one update adds to the executions of a node and to their times. -/
theorem update_average (s : GraphStats) (u : StatsUpdate) {id : String} (member : id ∈ s.graph.nodes) :
    ((s.update u).node id).executionCount = (s.node id).executionCount + (times id [u]).length ∧
      ((s.update u).node id).avgExecutionTime * ((s.update u).node id).executionCount =
        (s.node id).avgExecutionTime * (s.node id).executionCount + (times id [u]).sum := by
  cases u with
  | execution nodeId executionTime =>
    simp only [update,updateExecutionStats,times]
    by_cases own : nodeId = id
    · subst own
      rw [if_neg (not_not.mpr member),if_pos rfl]
      simp only [Function.update_self,List.length_singleton,List.sum_singleton,true_and]
      push_cast
      exact rolling_sum _ _ _
    · rw [if_neg own]
      split
      · simp
      · simp [Function.update_of_ne (Ne.symm own)]
  | dataTransfer =>
    simp only [update,updateDataTransferStats,times]
    split <;> simp

theorem times_cons (id : String) (u : StatsUpdate) (rest : List StatsUpdate) :
    times id (u :: rest) = times id [u] ++ times id rest := by
  cases u with
  | execution nodeId executionTime =>
    simp only [times]
    split <;> rfl
  | dataTransfer => rfl

theorem times_eq (id : String) (history : List StatsUpdate) : times id history = history.flatMap (times id [·]) := by
  induction history with
  | nil => rfl
  | cons u rest ih => rw [times_cons,ih,List.flatMap_cons]

theorem averaged_times (id : String) : Averaged (id ∈ ·.graph.nodes) (times id [·]) (fun s => (s.node id).executionCount)
    (fun s => (s.node id).avgExecutionTime) where
  keeps s u known := by rwa [update_graph]
  counts s u known := (update_average s u known).1
  totals s u known := (update_average s u known).2

/-- The average of a node stands for all its times. -/
theorem updates_average (history : List StatsUpdate) (s : GraphStats) {id : String} (member : id ∈ s.graph.nodes) :
    ((history.foldl update s).node id).executionCount = (s.node id).executionCount + (times id history).length ∧
      ((history.foldl update s).node id).avgExecutionTime * ((history.foldl update s).node id).executionCount =
        (s.node id).avgExecutionTime * (s.node id).executionCount + (times id history).sum := by
  rw [times_eq]
  exact (averaged_times id).updates history s member

/-- No edge has the attribute that is asked for. -/
theorem edgeWeights_one (s : GraphStats) : s.edgeWeights "avg_execution_time" = fun _ => 1 := rfl

theorem edgeSum_one (p : List String) : edgeSum (fun _ => 1) p = (p.length - 1 : Nat) := by
  induction p with
  | nil => rfl
  | cons u rest ih =>
    cases rest with
    | nil => rfl
    | cons v rest =>
      rw [edgeSum,ih]
      simp only [List.length_cons,Nat.add_sub_cancel]
      push_cast
      ring

/-- A path with the most edges is one with the most nodes. -/
theorem maximal_edges_iff (g : DirectedGraph String) (p : List String) :
    g.Maximal (edgeSum fun _ => 1) p ↔ g.Maximal List.length p := by
  have same {p q : List String} (path : g.IsPath p) (other : g.IsPath q) :
      edgeSum (fun _ => 1) q ≤ edgeSum (fun _ => 1) p ↔ q.length ≤ p.length := by
    rw [edgeSum_one,edgeSum_one,Nat.cast_le]
    cases p with
    | nil =>
      have none : q = [] := by
        rw [List.eq_nil_iff_forall_not_mem]
        intro n member
        simpa [path.some rfl] using other.inside n member
      simp [none]
    | cons n rest =>
      simp only [List.length_cons]
      omega
  constructor
  · intro maximal
    exact ⟨maximal.isPath,fun q other => (same maximal.isPath other).mp (maximal.greatest q other)⟩
  · intro maximal
    exact ⟨maximal.isPath,fun q other => (same maximal.isPath other).mpr (maximal.greatest q other)⟩

theorem getCriticalPath_longest {dagLongestPath : DagLongestPath} (correct : Correct dagLongestPath) (s : GraphStats)
    (acyclic : s.graph.Acyclic) : s.graph.Maximal List.length (getCriticalPath dagLongestPath s) := by
  obtain ⟨p,found,maximal⟩ := correct s.graph (s.edgeWeights "avg_execution_time") acyclic
  rw [edgeWeights_one] at maximal
  rw [getCriticalPath,found]
  exact (maximal_edges_iff s.graph p).mp maximal

/-- Any path with the most nodes can be the one that is found. -/
theorem exists_finding {s : GraphStats} {p : List String} (longest : s.graph.Maximal List.length p) :
    ∃ dagLongestPath, Correct dagLongestPath ∧ getCriticalPath dagLongestPath s = p := by
  classical
  let dagLongestPath : DagLongestPath := fun g w =>
    if g = s.graph ∧ w = s.edgeWeights "avg_execution_time" then some p
    else if acyclic : g.Acyclic then some (g.exists_maximal acyclic (edgeSum w)).choose
    else none
  refine ⟨dagLongestPath,fun g w acyclic => ?_,?_⟩
  · by_cases here : g = s.graph ∧ w = s.edgeWeights "avg_execution_time"
    · obtain ⟨rfl,rfl⟩ := here
      exact ⟨p,if_pos ⟨rfl,rfl⟩,(maximal_edges_iff s.graph p).mpr longest⟩
    · exact ⟨_,(if_neg here).trans (dif_pos acyclic),(g.exists_maximal acyclic (edgeSum w)).choose_spec⟩
  · rw [getCriticalPath,show dagLongestPath s.graph (s.edgeWeights "avg_execution_time") = some p from if_pos ⟨rfl,rfl⟩]

/-- The weights of the nodes are not looked at: whichever longest path is found, it is a heaviest one exactly if all
paths with the most nodes are. -/
theorem criticalPath_heaviest_iff (nodes : List NodeConfig) (g : DirectedGraph String) (acyclic : g.Acyclic)
    (history : List StatsUpdate) :
    (∀ dagLongestPath, Correct dagLongestPath →
      Heaviest (history.foldl update (ofNodes nodes g))
        (getCriticalPath dagLongestPath (history.foldl update (ofNodes nodes g)))) ↔
      ∀ p, g.Maximal List.length p → Heaviest (history.foldl update (ofNodes nodes g)) p := by
  have graph : (history.foldl update (ofNodes nodes g)).graph = g := updates_graph history (ofNodes nodes g)
  generalize history.foldl update (ofNodes nodes g) = s at graph
  subst graph
  constructor
  · intro always p longest
    obtain ⟨dagLongestPath,correct,rfl⟩ := exists_finding longest
    exact always dagLongestPath correct
  · intro all dagLongestPath correct
    exact all _ (getCriticalPath_longest correct s acyclic)

/-- The paths of a graph with one edge. -/
theorem isPath_edge {g : DirectedGraph String} {u v : String} (only : g.edges = [(u,v)]) (differ : u ≠ v)
    {p : List String} (path : g.IsPath p) : p = [u,v] ∨ p.length ≤ 1 := by
  cases p with
  | nil => exact .inr (Nat.zero_le 1)
  | cons a rest =>
    cases rest with
    | nil => exact .inr le_rfl
    | cons b rest =>
      have edge {a b : String} (edge : g.Edge a b) : a = u ∧ b = v := by
        rw [DirectedGraph.Edge,only,List.mem_singleton] at edge
        exact Prod.mk.inj edge
      obtain ⟨first,chain⟩ := List.isChain_cons_cons.mp path.chain
      obtain ⟨rfl,rfl⟩ := edge first
      cases rest with
      | nil => exact .inl rfl
      | cons c rest => exact absurd (edge (List.isChain_cons_cons.mp chain).1).1.symm differ

theorem acyclic_edge {g : DirectedGraph String} {u v : String} (only : g.edges = [(u,v)]) (differ : u ≠ v) :
    g.Acyclic := by
  refine g.acyclic_of_numbering (fun n => if n = v then 1 else 0) fun e member => ?_
  rw [only,List.mem_singleton] at member
  subst member
  simp [differ]

/-- Its one edge is the path with the most nodes. -/
theorem maximal_edge_iff {g : DirectedGraph String} {u v : String} (only : g.edges = [(u,v)]) (differ : u ≠ v)
    (p : List String) : g.Maximal List.length p ↔ p = [u,v] := by
  have edge : (u,v) ∈ g.edges := by simp [only]
  have path : g.IsPath [u,v] := by
    refine ⟨fun n member => ?_,.cons_cons edge (.singleton v),by simp⟩
    rcases List.mem_pair.mp member with rfl | rfl
    · exact (g.closed _ edge).1
    · exact (g.closed _ edge).2
  constructor
  · intro maximal
    rcases isPath_edge only differ maximal.isPath with whole | short
    · exact whole
    · have long := maximal.greatest _ path
      simp only [List.length_cons,List.length_nil] at long
      omega
  · rintro rfl
    refine ⟨path,fun q other => ?_⟩
    rcases isPath_edge only differ other with rfl | short
    · exact le_rfl
    · exact short.trans (Nat.le_succ 1)

def pipeline : List NodeConfig :=
  [{ id := "fetch",type := .tool },{ id := "summarize",type := .llm,dependencies := ["fetch"] }]

def finished (nodeId : String) (executionTime : Rat) : StatsUpdate := .execution nodeId executionTime true none

/-- Nothing stands beside the pipeline. -/
theorem pipeline_heaviest : ∃ g, DependencyGraph.buildGraph pipeline = .ok g ∧
    ∀ dagLongestPath, Correct dagLongestPath →
      Heaviest ([finished "fetch" 1,finished "summarize" 2].foldl update (ofNodes pipeline g))
        (getCriticalPath dagLongestPath
          ([finished "fetch" 1,finished "summarize" 2].foldl update (ofNodes pipeline g))) := by
  refine ⟨_,rfl,?_⟩
  apply (criticalPath_heaviest_iff pipeline _ (acyclic_edge rfl (by decide)) _).mpr
  intro p longest
  refine ⟨longest.isPath,fun q other => ?_⟩
  rw [maximal_edge_iff rfl (by decide)] at longest
  subst longest
  rcases isPath_edge rfl (by decide) other with rfl | short
  · exact le_rfl
  · cases q with
    | nil => exact absurd (other.some rfl) (by decide)
    | cons n rest =>
      obtain rfl : rest = [] := by simpa using short
      have inside : n ∈ ["fetch","summarize"] := other.inside n (List.mem_singleton_self n)
      rcases List.mem_pair.mp inside with rfl | rfl
      · decide +kernel
      · decide +kernel

def besideArchive : List NodeConfig := pipeline ++ [{ id := "archive",type := .tool }]

/-- The archive takes fifty times as long as the two nodes that are called the critical path. -/
theorem besideArchive_light : ∃ (g : DirectedGraph String) (history : List StatsUpdate) (dagLongestPath : _),
    DependencyGraph.buildGraph besideArchive = .ok g ∧ g.Acyclic ∧ Correct dagLongestPath ∧
    ¬Heaviest (history.foldl update (ofNodes besideArchive g))
      (getCriticalPath dagLongestPath (history.foldl update (ofNodes besideArchive g))) := by
  let history : List StatsUpdate := [finished "fetch" 1,finished "summarize" 1,finished "archive" 100]
  let g : DirectedGraph String := ((DirectedGraph.empty.addEdge "fetch" "summarize").addNode "archive")
  let s := history.foldl update (ofNodes besideArchive g)
  have graph : s.graph = g := updates_graph history _
  have longest : s.graph.Maximal List.length ["fetch","summarize"] := by
    rw [graph]
    exact (maximal_edge_iff rfl (by decide) _).mpr rfl
  obtain ⟨dagLongestPath,correct,found⟩ := exists_finding longest
  refine ⟨g,history,dagLongestPath,rfl,acyclic_edge rfl (by decide),correct,?_⟩
  rw [found]
  intro heaviest
  have less := heaviest.greatest ["archive"] ⟨by decide,.singleton _,by simp⟩
  revert less
  decide +kernel

end GraphStats

end IceOS
