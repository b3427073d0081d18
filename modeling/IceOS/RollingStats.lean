import IceOS.CriticalPath

/-! The statistics of nodes and edges after any updates: counts, means and sums of what was reported for them. -/
namespace IceOS.GraphStats

/-- What is reported of the executions of a node: times and outcomes. -/
def executions (id : String) : StatsUpdate → List (Rat × Bool)
  | .execution nodeId executionTime success _ => if nodeId = id then [(executionTime,success)] else []
  | .dataTransfer .. => []

/-- What is reported of the transfers along an edge: times and sizes. -/
def transfers (e : String × String) : StatsUpdate → List (Rat × Int)
  | .execution .. => []
  | .dataTransfer sourceId targetId transferTime dataSize =>
    if (sourceId,targetId) = e then [(transferTime,dataSize)] else []

def mean (values : List Rat) : Rat := values.sum / values.length

/-- Before the first execution there is no mean. -/
structure NodeExact (data : NodeStats) (calls : List (Rat × Bool)) : Prop where
  count : data.executionCount = calls.length
  time : calls ≠ [] → data.avgExecutionTime = mean (calls.map Prod.fst)
  rate : calls ≠ [] → data.successRate = (calls.countP Prod.snd : Rat) / calls.length

structure EdgeExact (data : EdgeStats) (calls : List (Rat × Int)) : Prop where
  count : data.transferCount = calls.length
  time : calls ≠ [] → data.avgTransferTime = mean (calls.map Prod.fst)
  total : data.totalDataTransferred = (calls.map Prod.snd).sum

/-- What an update leaves as it is. -/
structure Framed (s : GraphStats) (u : StatsUpdate) : Prop where
  graph : (s.update u).graph = s.graph
  node : ∀ id, executions id u = [] → (s.update u).node id = s.node id
  edge : ∀ e, transfers e u = [] → (s.update u).edge e = s.edge e
  unknown : (∀ id ∈ s.graph.nodes, executions id u = []) → (∀ e ∈ s.graph.edges, transfers e u = []) → s.update u = s

/-- The statistics after some updates are those of the updates. -/
structure StatsExact (g : DirectedGraph String) (history : List StatsUpdate) (s : GraphStats) : Prop where
  node : ∀ id ∈ g.nodes, NodeExact (s.node id) (history.flatMap (executions id))
  edge : ∀ e ∈ g.edges, EdgeExact (s.edge e) (history.flatMap (transfers e))
  framed : ∀ u, Framed s u

/-! ### One update -/

theorem update_framed (s : GraphStats) (u : StatsUpdate) : Framed s u := by
  refine ⟨update_graph s u,fun id none => ?_,fun e none => ?_,fun nodes edges => ?_⟩
  · cases u with
    | execution nodeId =>
      have other : nodeId ≠ id := by
        rintro rfl
        simp [executions] at none
      simp only [update,updateExecutionStats]
      split
      · rfl
      · exact Function.update_of_ne other.symm ..
    | dataTransfer =>
      simp only [update,updateDataTransferStats]
      split <;> rfl
  · cases u with
    | execution =>
      simp only [update,updateExecutionStats]
      split <;> rfl
    | dataTransfer sourceId targetId =>
      have other : (sourceId,targetId) ≠ e := by
        rintro rfl
        simp [transfers] at none
      simp only [update,updateDataTransferStats]
      split
      · rfl
      · exact Function.update_of_ne other.symm ..
  · cases u with
    | execution nodeId =>
      refine if_pos fun member => ?_
      simpa [executions] using nodes nodeId member
    | dataTransfer sourceId targetId =>
      refine if_pos ?_
      have absent : (sourceId,targetId) ∉ s.graph.edges := fun member => by
        simpa [transfers] using edges _ member
      simpa using absent

theorem times_singleton (id : String) (u : StatsUpdate) : times id [u] = (executions id u).map Prod.fst := by
  cases u with
  | execution nodeId =>
    simp only [times,executions]
    split <;> rfl
  | dataTransfer => rfl

/-- Outcomes as numbers. -/
def outcomes (id : String) (u : StatsUpdate) : List Rat := (executions id u).map fun call => if call.2 then 1 else 0

theorem averaged_rate (id : String) : Averaged (id ∈ ·.graph.nodes) (outcomes id) (fun s => (s.node id).executionCount)
    (fun s => (s.node id).successRate) := by
  refine ⟨fun s u known => (by rwa [update_graph]),fun s u known => ?_,fun s u known => ?_⟩
  · rw [(update_average s u known).1,times_singleton,outcomes,List.length_map,List.length_map]
  · by_cases none : executions id u = []
    · simp [(update_framed s u).node id none,outcomes,none]
    · cases u with
      | execution nodeId =>
        obtain rfl : nodeId = id := by simpa [executions] using none
        simp only [update,updateExecutionStats,outcomes,executions,if_neg (not_not.mpr known),if_true,Function.update_self,
          List.map_singleton,List.sum_singleton]
        push_cast
        exact rolling_sum ..
      | dataTransfer => exact absurd rfl none

/-- What one update adds to the transfers along an edge, to their times and to their sizes. -/
structure Transferred (s : GraphStats) (u : StatsUpdate) (e : String × String) : Prop where
  count : ((s.update u).edge e).transferCount = (s.edge e).transferCount + (transfers e u).length
  time : ((s.update u).edge e).avgTransferTime * ((s.update u).edge e).transferCount =
    (s.edge e).avgTransferTime * (s.edge e).transferCount + ((transfers e u).map Prod.fst).sum
  total : ((s.update u).edge e).totalDataTransferred =
    (s.edge e).totalDataTransferred + ((transfers e u).map Prod.snd).sum

theorem update_transferred (s : GraphStats) (u : StatsUpdate) {e : String × String} (known : e ∈ s.graph.edges) :
    Transferred s u e := by
  by_cases none : transfers e u = []
  · have same := (update_framed s u).edge e none
    constructor <;> simp [same,none]
  · cases u with
    | execution => exact absurd rfl none
    | dataTransfer sourceId targetId transferTime dataSize =>
      obtain rfl : (sourceId,targetId) = e := by simpa [transfers] using none
      have present : ¬(!s.graph.edges.contains (sourceId,targetId)) = true := by simpa using known
      have updated : s.update (.dataTransfer sourceId targetId transferTime dataSize) = _ := if_neg present
      have own : transfers (sourceId,targetId) (.dataTransfer sourceId targetId transferTime dataSize) = _ := if_pos rfl
      constructor <;> rw [updated,own] <;> simp only [Function.update_self]
      · rfl
      · rw [List.map_singleton,List.sum_singleton]
        push_cast
        exact rolling_sum ..
      · rw [List.map_singleton,List.sum_singleton]

theorem averaged_transfers (e : String × String) : Averaged (e ∈ ·.graph.edges) (fun u => (transfers e u).map Prod.fst)
    (fun s => (s.edge e).transferCount) (fun s => (s.edge e).avgTransferTime) where
  keeps s u known := by rwa [update_graph]
  counts s u known := by rw [(update_transferred s u known).count,List.length_map]
  totals s u known := (update_transferred s u known).time

/-! ### All updates -/

theorem updates_total (history : List StatsUpdate) (s : GraphStats) {e : String × String} (known : e ∈ s.graph.edges) :
    ((history.foldl update s).edge e).totalDataTransferred =
      (s.edge e).totalDataTransferred + ((history.flatMap (transfers e)).map Prod.snd).sum := by
  induction history generalizing s with
  | nil => simp
  | cons u rest ih =>
    rw [List.foldl_cons,ih (s.update u) (by rwa [update_graph]),(update_transferred s u known).total,List.flatMap_cons,
      List.map_append,List.sum_append,Int.add_assoc]

theorem eq_mean {average : Rat} {values : List Rat} (some : values ≠ []) (total : average * values.length = values.sum) :
    average = mean values := by
  have positive : (values.length : Rat) ≠ 0 := Nat.cast_ne_zero.mpr (mt List.length_eq_zero_iff.mp some)
  rw [mean,← total,mul_div_cancel_right₀ average positive]

theorem sum_outcomes (calls : List (Rat × Bool)) :
    (calls.map fun call => if call.2 then (1 : Rat) else 0).sum = calls.countP Prod.snd := by
  induction calls with
  | nil => rfl
  | cons call rest ih =>
    rw [List.map_cons,List.sum_cons,ih,List.countP_cons]
    cases call.2
    · simp
    · push_cast
      simp [add_comm]

/-- From the first update on the average is the mean, whatever it was before. -/
theorem Averaged.mean {known : GraphStats → Prop} {values : StatsUpdate → List Rat} {count : GraphStats → Nat}
    {average : GraphStats → Rat} (averaged : Averaged known values count average) (history : List StatsUpdate)
    {s : GraphStats} (member : known s) (fresh : count s = 0) :
    count (history.foldl update s) = (history.flatMap values).length ∧
      (history.flatMap values ≠ [] → average (history.foldl update s) = GraphStats.mean (history.flatMap values)) := by
  obtain ⟨counts,totals⟩ := averaged.updates history s member
  rw [fresh,Nat.zero_add] at counts
  refine ⟨counts,fun some => eq_mean some ?_⟩
  rw [← counts,totals,fresh,Nat.cast_zero,mul_zero,zero_add]

theorem flatMap_times (id : String) (history : List StatsUpdate) :
    history.flatMap (times id [·]) = (history.flatMap (executions id)).map Prod.fst := by
  rw [List.map_flatMap]
  exact List.flatMap_congr fun u _ => times_singleton id u

theorem nodes_exact (nodes : List NodeConfig) (g : DirectedGraph String) (history : List StatsUpdate) {id : String}
    (member : id ∈ g.nodes) :
    NodeExact ((history.foldl update (ofNodes nodes g)).node id) (history.flatMap (executions id)) := by
  obtain ⟨count,time⟩ := (averaged_times id).mean history (s := ofNodes nodes g) member rfl
  obtain ⟨_,rate⟩ := (averaged_rate id).mean history (s := ofNodes nodes g) member rfl
  rw [flatMap_times] at count time
  rw [List.length_map] at count
  have outcome : history.flatMap (outcomes id) =
      (history.flatMap (executions id)).map fun call => if call.2 then 1 else 0 := List.map_flatMap.symm
  rw [outcome] at rate
  refine ⟨count,fun some => time (by simpa using some),fun some => ?_⟩
  rw [rate (by simpa using some),mean,sum_outcomes,List.length_map]

theorem edges_exact (nodes : List NodeConfig) (g : DirectedGraph String) (history : List StatsUpdate)
    {e : String × String} (member : e ∈ g.edges) :
    EdgeExact ((history.foldl update (ofNodes nodes g)).edge e) (history.flatMap (transfers e)) := by
  obtain ⟨count,time⟩ := (averaged_transfers e).mean history (s := ofNodes nodes g) member rfl
  rw [← List.map_flatMap] at count time
  rw [List.length_map] at count
  refine ⟨count,fun some => time (by simpa using some),?_⟩
  rw [updates_total history _ member]
  exact Int.zero_add _

theorem stats_exact (nodes : List NodeConfig) (g : DirectedGraph String) (history : List StatsUpdate) :
    StatsExact g history (history.foldl update (ofNodes nodes g)) :=
  ⟨fun _ => nodes_exact nodes g history,fun _ => edges_exact nodes g history,update_framed _⟩

end IceOS.GraphStats
