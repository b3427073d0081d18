import IceOS.DependencyGraph

/-! Branch gating: whether a node may run, found by recursion over its dependencies with a
memo of the answers. The recursion ends on acyclic graphs and only there. -/
namespace IceOS

abbrev ActiveCache := OrderedDict String Bool

/-- The loop over the dependencies of one node, which stops at the first inactive one. -/
def allActive (visit : String → ActiveCache → Option (Bool × ActiveCache)) :
    List String → ActiveCache → Option (Bool × ActiveCache)
  | [], cache => some (true,cache)
  | dep :: rest, cache =>
    match visit dep cache with
    | none => none
    | some (false,cache) => some (false,cache)
    | some (true,cache) => allActive visit rest cache

/-- `limit` is the number of frames the interpreter still grants; `none` is a `RecursionError`.
The memo is written only after the recursive calls have returned. -/
def isNodeActive (graph : DependencyGraph) : Nat → String → ActiveCache → Option (Bool × ActiveCache)
  | 0, _, _ => none
  | limit + 1, id, cache =>
    match cache.get? id with
    | some answer => some (answer,cache)
    | none =>
      (allActive (isNodeActive graph limit) (graph.getNodeDependencies id) cache).map
        fun (answer,cache) => (answer,cache.set id answer)

/-- Nothing in the gating ever answers that a node is inactive. -/
def AllActive (cache : ActiveCache) : Prop := ∀ id answer, cache.get? id = some answer → answer = true

@[simp] theorem allActive_empty : AllActive OrderedDict.empty := by
  intro id answer found
  simp at found

theorem AllActive.set {cache : ActiveCache} (all : AllActive cache) (id : String) :
    AllActive (cache.set id true) :=
  OrderedDict.forall_set rfl all

/-- `visit` succeeds on `ids` and keeps the memo positive. -/
def Visits (visit : String → ActiveCache → Option (Bool × ActiveCache)) (ids : List String) : Prop :=
  ∀ id ∈ ids, ∀ cache, AllActive cache → ∃ cache', visit id cache = some (true,cache') ∧ AllActive cache'

theorem Visits.allActive {visit : String → ActiveCache → Option (Bool × ActiveCache)}
    {ids : List String} (visits : Visits visit ids) (cache : ActiveCache) (all : AllActive cache) :
    ∃ cache', IceOS.allActive visit ids cache = some (true,cache') ∧ AllActive cache' := by
  induction ids generalizing cache with
  | nil => exact ⟨cache,rfl,all⟩
  | cons id rest ih =>
    obtain ⟨next,visited,positive⟩ := visits id List.mem_cons_self cache all
    obtain ⟨last,done,positive'⟩ :=
      ih (fun other member => visits other (List.mem_cons_of_mem id member)) next positive
    exact ⟨last,by simp [IceOS.allActive,visited,done],positive'⟩

/-- On an acyclic graph the recursion is no deeper than the node's rank. -/
theorem isNodeActive_acyclic (graph : DependencyGraph) (acyclic : graph.graph.Acyclic) {limit : Nat}
    {id : String} (deep : graph.graph.rank id < limit) (cache : ActiveCache) (all : AllActive cache) :
    ∃ cache', isNodeActive graph limit id cache = some (true,cache') ∧ AllActive cache' := by
  induction limit generalizing id cache with
  | zero => omega
  | succ limit ih =>
    cases known : cache.get? id with
    | some answer =>
      cases all id answer known
      exact ⟨cache,by simp [isNodeActive,known],all⟩
    | none =>
      have visits : Visits (isNodeActive graph limit) (graph.getNodeDependencies id) := by
        intro dep member cache all
        have lower := graph.graph.rank_lt acyclic ((graph.graph.mem_predecessors dep id).mp member)
        exact ih (by omega) cache all
      obtain ⟨last,done,positive⟩ := visits.allActive cache all
      exact ⟨last.set id true,by simp [isNodeActive,known,done],positive.set id⟩

/-- A node that is on a cycle or downstream of one has such a predecessor again. -/
def BehindCycle (graph : DependencyGraph) (id : String) : Prop :=
  ∃ n, graph.graph.Reaches n n ∧ (n = id ∨ graph.graph.Reaches n id)

theorem behindCycle_predecessor {graph : DependencyGraph} {id : String} (behind : BehindCycle graph id) :
    ∃ dep ∈ graph.getNodeDependencies id, BehindCycle graph dep := by
  obtain ⟨n,cycle,reaches⟩ := behind
  have path : graph.graph.Reaches n id := reaches.elim (fun same => same ▸ cycle) fun path => path
  obtain ⟨dep,before,last⟩ := Relation.TransGen.tail'_iff.mp path
  refine ⟨dep,(graph.graph.mem_predecessors dep id).mpr last,n,cycle,?_⟩
  rcases Relation.reflTransGen_iff_eq_or_transGen.mp before with same | further
  · exact .inl same.symm
  · exact .inr further

/-- A memo that was only ever filled by the recursion holds no node behind a cycle. -/
def Grounded (graph : DependencyGraph) (cache : ActiveCache) : Prop :=
  ∀ id ∈ cache.keys, ¬BehindCycle graph id

theorem allActive_grounded {graph : DependencyGraph}
    {visit : String → ActiveCache → Option (Bool × ActiveCache)}
    (step : ∀ id cache answer cache', AllActive cache → Grounded graph cache →
      visit id cache = some (answer,cache') →
        answer = true ∧ AllActive cache' ∧ Grounded graph cache' ∧ ¬BehindCycle graph id)
    {ids : List String} {cache cache' : ActiveCache} {answer : Bool} (all : AllActive cache)
    (grounded : Grounded graph cache) (ran : allActive visit ids cache = some (answer,cache')) :
    answer = true ∧ AllActive cache' ∧ Grounded graph cache' ∧ ∀ id ∈ ids, ¬BehindCycle graph id := by
  induction ids generalizing cache with
  | nil =>
    cases ran
    exact ⟨rfl,all,grounded,by simp⟩
  | cons id rest ih =>
    simp only [allActive] at ran
    cases visited : visit id cache with
    | none => simp [visited] at ran
    | some outcome =>
      obtain ⟨found,next⟩ := outcome
      obtain ⟨rfl,all',grounded',clear⟩ := step id cache found next all grounded visited
      simp only [visited] at ran
      obtain ⟨positive,all'',grounded'',clear'⟩ := ih all' grounded' ran
      exact ⟨positive,all'',grounded'',List.forall_mem_cons.mpr ⟨clear,clear'⟩⟩

/-- Whatever the limit: an answer is only given for nodes that are not behind a cycle. -/
theorem isNodeActive_grounded (graph : DependencyGraph) (limit : Nat) (id : String)
    (cache : ActiveCache) (answer : Bool) (cache' : ActiveCache) (all : AllActive cache)
    (grounded : Grounded graph cache) (ran : isNodeActive graph limit id cache = some (answer,cache')) :
    answer = true ∧ AllActive cache' ∧ Grounded graph cache' ∧ ¬BehindCycle graph id := by
  induction limit generalizing id cache answer cache' with
  | zero => simp [isNodeActive] at ran
  | succ limit ih =>
    simp only [isNodeActive] at ran
    cases known : cache.get? id with
    | some found =>
      simp only [known,Option.some.injEq,Prod.mk.injEq] at ran
      obtain ⟨rfl,rfl⟩ := ran
      have member : id ∈ cache.keys := (cache.mem_keys id).mpr (by simp [known])
      exact ⟨all id found known,all,grounded,grounded id member⟩
    | none =>
      simp only [known,Option.map_eq_some_iff,Prod.mk.injEq,Prod.exists] at ran
      obtain ⟨found,next,visited,rfl,rfl⟩ := ran
      obtain ⟨rfl,all',grounded',clear⟩ := allActive_grounded ih all grounded visited
      have free : ¬BehindCycle graph id := by
        intro behind
        obtain ⟨dep,member,behind'⟩ := behindCycle_predecessor behind
        exact clear dep member behind'
      refine ⟨rfl,all'.set id,fun other member => ?_,free⟩
      rcases (OrderedDict.mem_keys_set next id other true).mp member with same | old
      · exact same ▸ free
      · exact grounded' other old

end IceOS
