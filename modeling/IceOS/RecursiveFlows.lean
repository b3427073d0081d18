import IceOS.RecursiveExecutor
import IceOS.WorkflowRuns

/-! How many executions the recursive flows of a level make. Every round of a recursive node passes its
counter on, one higher, in the context of all its sources, so the tree of re-executions is no deeper than
the largest limit on the iterations, if the first counter is not negative. -/
namespace IceOS

open PythonExpr

/-- Whole numbers compare and add up as in Python. -/
structure WholeModel (m : DataModel Value Exn) : Prop where
  atLeast : ∀ v w a b, v.whole? = some a → w.whole? = some b → m.compare .gtE v w = .ok (decide (b ≤ a))
  plus : ∀ v w a b, v.whole? = some a → w.whole? = some b → m.binary .add v w = .ok (.int (a + b))

theorem wholeNumbers_whole : WholeModel wholeNumbers where
  atLeast v w a b left right := by simp only [wholeNumbers,left,right]
  plus v w a b left right := by simp only [wholeNumbers,left,right]

namespace RecursiveRuntime

variable {ω : Type}

/-- A number is no dict to keep the iteration in. -/
theorem enhance_counter {settings : RecursiveSettings} {id : String} {next : Int} {ctx enhanced : Context}
    (made : enhance settings id (.int next) ctx = .ok enhanced) (preserve : settings.preserveContext = true) :
    settings.contextKey ≠ "_recursive_iteration" := by
  intro same
  have present : ((ctx.set "_recursive_iteration" (.int next)).setDefault "_recursive_iteration" (.dict [])).get?
      "_recursive_iteration" = some (.int next) := by
    simp only [OrderedDict.setDefault,OrderedDict.get?_set_same,Option.isSome_some,if_true]
  simp only [enhance,preserve,if_true,same,present] at made
  cases made

/-- Only a dict is marked, and the counter it is marked with stays. -/
theorem annotate_counter {settings : RecursiveSettings} {id : String} {next : Value} {enhanced : Context}
    {result : NodeExecutionResult} (apart : settings.preserveContext = true → settings.contextKey ≠ "_recursive_iteration")
    (again : Workflow.canRecurse (annotate settings id next enhanced result).output = true) :
    ∃ d : OrderedDict String Value, (annotate settings id next enhanced result).output = .dict d.items ∧
      d.get? "_recursive_iteration" = some next := by
  obtain ⟨success,error,output,usage⟩ := result
  cases output with
  | dict entries =>
    refine ⟨_,rfl,?_⟩
    split
    · next preserve =>
      rw [OrderedDict.get?_set_other _ _ (apart preserve)]
      simp [OrderedDict.update]
    · simp [OrderedDict.update]
  | _ => cases again

/-- The output of a result that asks for another round: the counter was below the limit, and is passed on
one higher. -/
theorem run_again {rt : RecursiveRuntime ω} (whole : WholeModel rt.model) {node : NodeConfig} {ctx : Context} {w : ω}
    {k : Int} (count : (counter ctx).whole? = some k)
    (again : Workflow.canRecurse (rt.run node ctx w).1.output = true) :
    k < (rt.settings node).maxIterations ∧ ∃ d : OrderedDict String Value,
      (rt.run node ctx w).1.output = .dict d.items ∧ d.get? "_recursive_iteration" = some (.int (k + 1)) := by
  have compared := whole.atLeast (counter ctx) (.int (rt.settings node).maxIterations) k _ count rfl
  have added := whole.plus (counter ctx) (.int 1) k 1 count rfl
  by_cases reached : (rt.settings node).maxIterations ≤ k
  · simp only [run,compared,decide_eq_true reached] at again
    cases again
  · refine ⟨Int.not_le.mp reached,?_⟩
    simp only [run,compared,decide_eq_false reached,iterate,added] at again ⊢
    split at again
    · cases again
    · next open' =>
      rw [if_neg open']
      cases enhanced : enhance (rt.settings node) node.id (.int (k + 1)) ctx with
      | error e =>
        simp only [enhanced] at again
        cases again
      | ok context =>
        simp only [enhanced] at again ⊢
        cases reply : rt.inner node.id (rt.settings node).inner context w with
        | mk outcome w' =>
          simp only [reply] at again ⊢
          cases outcome with
          | error e => cases again
          | ok result => exact annotate_counter (enhance_counter enhanced) again

end RecursiveRuntime

namespace Workflow

open RecursiveRuntime (counter)

variable {σ : Type}

/-- A bound on the executions of a node whose counter is `depth` below the limit, with `sources` sources
at most for each recursive node; where the stack ends there is an attempt more. -/
def rounds (sources : Nat) : Nat → Nat
  | 0 => 1
  | depth + 1 => 2 + sources * rounds sources depth

/-- Recursive nodes stop at `most` iterations and pass their counters on. -/
def Counting (wf : Workflow) (eng : Engine σ) (most : Nat) : Prop :=
  ∀ id node ctx w r k, wf.nodes.get? id = some node → node.type = .recursive →
    (eng.executeNode node ctx w).1 = .ok r → canRecurse r.output = true → (counter ctx).whole? = some k →
    k < most ∧ ∃ d : OrderedDict String Value, r.output = .dict d.items ∧
      d.get? "_recursive_iteration" = some (.int (k + 1))

/-- The requests of one result are for the sources of its node, with its output. -/
theorem pendingRecursions_single {wf : Workflow} {id : String} {result : NodeExecutionResult}
    {request : String × List (String × Value)} (member : request ∈ wf.pendingRecursions [(id,result)]) :
    ∃ node, wf.nodes.get? id = some node ∧ node.type = .recursive ∧ canRecurse result.output = true ∧
      request.1 ∈ node.recursiveSources ∧ request.2 = result.output.entries := by
  simp only [pendingRecursions,List.flatMap_cons,List.flatMap_nil,List.append_nil] at member
  cases known : wf.nodes.get? id with
  | none => simp [known] at member
  | some node =>
    simp only [known] at member
    split at member
    · next asks =>
      obtain ⟨source,inside,rfl⟩ := List.mem_map.mp member
      exact ⟨node,rfl,asks.1,asks.2,(List.mem_filter.mp inside).1,rfl⟩
    · cases member

theorem pendingRecursions_length {wf : Workflow} {sources : Nat} (few : ∀ id node, wf.nodes.get? id = some node →
    node.type = .recursive → node.recursiveSources.length ≤ sources) (id : String) (result : NodeExecutionResult) :
    (wf.pendingRecursions [(id,result)]).length ≤ sources := by
  simp only [pendingRecursions,List.flatMap_cons,List.flatMap_nil,List.append_nil]
  cases known : wf.nodes.get? id with
  | none => simp
  | some node =>
    simp only
    split
    · next asks =>
      rw [List.length_map]
      exact (List.length_filter_le _ _).trans (few id node known asks.1)
    · simp

theorem foldlM_attempts {α : Type} {step : RunState σ → α → Except Exn (RunState σ)} {bound : Nat} (todo : List α)
    (one : ∀ s, ∀ a ∈ todo, ∃ t, step s a = .ok t ∧ t.history.length ≤ s.history.length + bound) (s : RunState σ) :
    ∃ t, todo.foldlM step s = .ok t ∧ t.history.length ≤ s.history.length + todo.length * bound := by
  induction todo generalizing s with
  | nil => exact ⟨s,rfl,by simp⟩
  | cons a rest ih =>
    obtain ⟨t,did,first⟩ := one s a List.mem_cons_self
    obtain ⟨u,done,later⟩ := ih (fun s a member => one s a (List.mem_cons_of_mem _ member)) t
    refine ⟨u,by simp [did,done,bind,Except.bind],?_⟩
    rw [List.length_cons,Nat.succ_mul]
    omega

/-- The counter of the context in which a source is executed is that of the request. -/
theorem counter_update (base : Context) {d : OrderedDict String Value} {k : Int}
    (count : d.get? "_recursive_iteration" = some (.int k)) : (counter (base.update d.items)).whole? = some k := by
  rw [counter,OrderedDict.get?_update_items,count]
  rfl

theorem processNode_result {eng : Engine σ} {node : NodeConfig} {extra : List (String × Value)} {s t : RunState σ}
    {r : NodeExecutionResult} (went : processNode eng node extra s = (.ok r,t)) :
    ∃ base, buildNodeContext (eng.currentContext s.world) node s.results = .ok base ∧
      (eng.executeNode node (base.update extra) s.world).1 = .ok r := by
  simp only [processNode] at went
  cases built : buildNodeContext (eng.currentContext s.world) node s.results with
  | error e => simp [built] at went
  | ok base =>
    simp only [built] at went
    exact ⟨base,rfl,congrArg Prod.fst went⟩

/-- One re-execution: an attempt, and if it gave a result, the requests of that result. -/
theorem executeRecursiveNode_turn (wf : Workflow) (eng : Engine σ) (limit : Nat) (s : RunState σ) (id : String)
    (extra : List (String × Value)) :
    (∃ t, wf.executeRecursiveNode eng (limit + 1) s (id,extra) = .ok t ∧ t.history.length = s.history.length + 1) ∨
      ∃ node, ∃ base : Context, ∃ result t, wf.nodes.get? id = some node ∧
        (eng.executeNode node (base.update extra) s.world).1 = .ok result ∧ t.history.length = s.history.length + 1 ∧
        wf.executeRecursiveNode eng (limit + 1) s (id,extra) =
          match (wf.pendingRecursions [(id,result)]).foldlM (wf.executeRecursiveNode eng limit) t with
          | .ok u => .ok u
          | .error e => .ok ((t.log id .escaped).record id (failedResult e)) := by
  simp only [executeRecursiveNode]
  cases known : wf.nodes.get? id with
  | none => exact .inl ⟨_,rfl,by simp⟩
  | some node =>
    obtain ⟨ending,_,attempt,_⟩ := processNode_ran eng node extra s
    simp only
    cases went : processNode eng node extra s with
    | mk outcome t =>
      rw [went] at attempt
      have grown : t.history.length = s.history.length + 1 := by
        rw [attempt.history]
        simp
      cases outcome with
      | error e => exact .inl ⟨_,rfl,grown⟩
      | ok result =>
        obtain ⟨base,_,executed⟩ := processNode_result went
        exact .inr ⟨node,base,result,t.record id result,rfl,executed,grown,rfl⟩

/-- By induction on how far the counter is from the limit. -/
theorem executeRecursiveNode_attempts {wf : Workflow} {eng : Engine σ} {most sources : Nat} (counting : Counting wf eng most)
    (few : ∀ id node, wf.nodes.get? id = some node → node.type = .recursive → node.recursiveSources.length ≤ sources)
    (depth limit : Nat) (s : RunState σ) (id : String) {d : OrderedDict String Value} {k : Int}
    (count : d.get? "_recursive_iteration" = some (.int k)) (close : (most : Int) - k ≤ depth) :
    ∃ t, wf.executeRecursiveNode eng (limit + 1) s (id,d.items) = .ok t ∧
      t.history.length ≤ s.history.length + rounds sources depth := by
  have positive : 1 ≤ rounds sources depth := by
    cases depth <;> simp only [rounds] <;> omega
  induction depth generalizing limit s id d k with
  | zero =>
    rcases executeRecursiveNode_turn wf eng limit s id d.items with ⟨t,did,grown⟩ |
      ⟨node,base,result,t,known,executed,grown,did⟩
    · exact ⟨t,did,by omega⟩
    · have none : wf.pendingRecursions [(id,result)] = [] := by
        refine List.eq_nil_iff_forall_not_mem.mpr fun request member => ?_
        obtain ⟨other,found,recursive,again,_⟩ := pendingRecursions_single member
        cases known.symm.trans found
        obtain ⟨low,_⟩ := counting id node _ _ result k known recursive executed again (counter_update base count)
        omega
      rw [none] at did
      exact ⟨t,did,by omega⟩
  | succ depth ih =>
    rcases executeRecursiveNode_turn wf eng limit s id d.items with ⟨t,did,grown⟩ |
      ⟨node,base,result,t,known,executed,grown,did⟩
    · exact ⟨t,did,by omega⟩
    · have size := Nat.mul_le_mul_right (rounds sources depth) (pendingRecursions_length few id result)
      have whole : rounds sources (depth + 1) = 2 + sources * rounds sources depth := rfl
      cases limit with
      | zero =>
        -- the stack is used up: the first request fails
        cases pending : wf.pendingRecursions [(id,result)] with
        | nil =>
          rw [pending] at did
          exact ⟨t,did,by omega⟩
        | cons request rest =>
          rw [pending] at did
          refine ⟨_,did,?_⟩
          simp only [RunState.record_history,RunState.log_history,List.length_append,List.length_singleton]
          omega
      | succ limit =>
        have one (u : RunState σ) (request) (member : request ∈ wf.pendingRecursions [(id,result)]) :
            ∃ v, wf.executeRecursiveNode eng (limit + 1) u request = .ok v ∧
              v.history.length ≤ u.history.length + rounds sources depth := by
          obtain ⟨other,found,recursive,again,_,extra⟩ := pendingRecursions_single member
          cases known.symm.trans found
          obtain ⟨_,d',output,count'⟩ := counting id node _ _ result k known recursive executed again (counter_update base count)
          obtain ⟨source,entries⟩ := request
          cases extra.trans (congrArg Value.entries output)
          exact ih limit u source count' (by omega) (by cases depth <;> simp only [rounds] <;> omega)
        obtain ⟨u,ran,bound⟩ := foldlM_attempts _ one t
        rw [ran] at did
        exact ⟨u,did,by omega⟩

/-! ### The flows of a level -/

/-- The contexts in which the coroutines of a level run their nodes. -/
def firstContexts (eng : Engine σ) : List NodeConfig → RunState σ → List (NodeConfig × Context)
  | [],_ => []
  | node :: rest,s =>
    let later := firstContexts eng rest (processNode eng node [] s).2
    match buildNodeContext (eng.currentContext s.world) node s.results with
    | .ok ctx => (node,ctx) :: later
    | .error _ => later

/-- The first contexts of a level of a run. -/
def contextsAt (wf : Workflow) (eng : Engine σ) (limit : Nat) (b : LevelStart σ) : List (NodeConfig × Context) :=
  match activeIds wf.graph limit b.ids b.state.activeCache with
  | none => []
  | some (active,activeCache) => firstContexts eng (active.filterMap wf.nodes.get?) { b.state with activeCache }

/-- No recursive node starts with a counter that is not a number or is below zero. -/
def CountsUp (contexts : List (NodeConfig × Context)) : Prop :=
  ∀ entry ∈ contexts, entry.1.type = .recursive → ∃ k, (counter entry.2).whole? = some k ∧ 0 ≤ k

def recursiveCount (wf : Workflow) : Nat := (wf.nodes.items.filter (·.2.type = .recursive)).length

theorem gather_contexts (eng : Engine σ) (nodes : List NodeConfig) (s : RunState σ) {id : String}
    {r : NodeExecutionResult} (member : (id,.ok r) ∈ (gather eng nodes s).1) :
    ∃ node ∈ nodes, ∃ ctx w, (node,ctx) ∈ firstContexts eng nodes s ∧ node.id = id ∧
      (eng.executeNode node ctx w).1 = .ok r := by
  induction nodes generalizing s with
  | nil => cases member
  | cons node rest ih =>
    have later : ∀ entry ∈ firstContexts eng rest (processNode eng node [] s).2,
        entry ∈ firstContexts eng (node :: rest) s := by
      intro entry inside
      simp only [firstContexts]
      split
      · exact List.mem_cons_of_mem _ inside
      · exact inside
    rcases List.mem_cons.mp member with here | there
    · obtain ⟨same,outcome⟩ := Prod.mk.inj here
      obtain ⟨base,built,executed⟩ := processNode_result (t := (processNode eng node [] s).2) (Prod.ext outcome.symm rfl)
      refine ⟨node,List.mem_cons_self,base,s.world,?_,same.symm,executed⟩
      simp only [firstContexts,built]
      exact List.mem_cons_self
    · obtain ⟨other,inside,ctx,w,known,same,executed⟩ := ih (processNode eng node [] s).2 there
      exact ⟨other,List.mem_cons_of_mem node inside,ctx,w,later _ known,same,executed⟩

theorem flatMap_length_le {α β : Type} {f : α → List β} {asks : α → Bool} {bound : Nat} (items : List α)
    (few : ∀ a ∈ items, (f a).length ≤ bound) (silent : ∀ a ∈ items, asks a = false → f a = []) :
    (items.flatMap f).length ≤ (items.filter asks).length * bound := by
  induction items with
  | nil => simp
  | cons a rest ih =>
    have later := ih (fun b member => few b (List.mem_cons_of_mem a member))
      fun b member => silent b (List.mem_cons_of_mem a member)
    rw [List.flatMap_cons,List.length_append]
    cases asked : asks a with
    | false =>
      rw [silent a List.mem_cons_self asked,List.filter_cons_of_neg (by simp [asked])]
      simpa using later
    | true =>
      rw [List.filter_cons_of_pos asked,List.length_cons,Nat.succ_mul]
      have first := few a List.mem_cons_self
      omega

/-- A level asks for no more re-executions than its recursive nodes have sources. -/
theorem pendingRecursions_total {wf : Workflow} {sources : Nat} (few : ∀ id node, wf.nodes.get? id = some node →
    node.type = .recursive → node.recursiveSources.length ≤ sources) (levelResults : Results) :
    (wf.pendingRecursions levelResults.items).length ≤ wf.recursiveCount * sources := by
  have split (items : List (String × NodeExecutionResult)) :
      wf.pendingRecursions items = items.flatMap fun entry => wf.pendingRecursions [entry] := by
    simp only [pendingRecursions,List.flatMap_cons,List.flatMap_nil,List.append_nil]
  let asks (entry : String × NodeExecutionResult) : Bool :=
    (wf.nodes.get? entry.1).any fun node => node.type = .recursive
  have total : (wf.pendingRecursions levelResults.items).length ≤ (levelResults.items.filter asks).length * sources := by
    rw [split]
    refine flatMap_length_le _ (fun entry _ => pendingRecursions_length few entry.1 entry.2) fun entry _ plain => ?_
    refine List.eq_nil_iff_forall_not_mem.mpr fun request member => ?_
    obtain ⟨node,known,recursive,_⟩ := pendingRecursions_single member
    simp [asks,known,recursive] at plain
  have keys : ((levelResults.items.filter asks).map Prod.fst).Nodup :=
    (List.filter_sublist.map Prod.fst).nodup levelResults.nodup
  have inside : (levelResults.items.filter asks).map Prod.fst ⊆
      (wf.nodes.items.filter (·.2.type = .recursive)).map Prod.fst := by
    intro id member
    obtain ⟨entry,kept,rfl⟩ := List.mem_map.mp member
    obtain ⟨node,known,recursive⟩ := Option.any_eq_true _ _ |>.mp (List.mem_filter.mp kept).2
    exact List.mem_map.mpr ⟨(entry.1,node),List.mem_filter.mpr ⟨(wf.nodes.get?_eq_some entry.1 node).mp known,recursive⟩,rfl⟩
  have count := (keys.subperm inside).length_le
  rw [List.length_map,List.length_map] at count
  exact total.trans (Nat.mul_le_mul_right sources count)

/-- The flows after a gather whose counters start at zero or above. -/
theorem flows_attempts {wf : Workflow} {eng : Engine σ} {most sources : Nat} (counting : Counting wf eng most)
    (few : ∀ id node, wf.nodes.get? id = some node → node.type = .recursive → node.recursiveSources.length ≤ sources)
    {nodes : List NodeConfig} {s t : RunState σ} (listed : ∀ node ∈ nodes, wf.nodes.get? node.id = some node)
    (up : CountsUp (firstContexts eng nodes s)) {limit : Nat}
    (flowed : wf.handleRecursiveFlows eng limit (OrderedDict.ofList ((gather eng nodes s).1.map fileOutcome))
      (gather eng nodes s).2 = .ok t) :
    t.history.length ≤ (gather eng nodes s).2.history.length + wf.recursiveCount * sources * rounds sources (most - 1) := by
  have total := pendingRecursions_total few (OrderedDict.ofList ((gather eng nodes s).1.map fileOutcome))
  have product := Nat.mul_le_mul_right (rounds sources (most - 1)) total
  simp only [handleRecursiveFlows] at flowed
  cases limit with
  | zero =>
    cases pending : wf.pendingRecursions (OrderedDict.ofList ((gather eng nodes s).1.map fileOutcome)).items with
    | nil =>
      rw [pending] at flowed
      cases flowed
      omega
    | cons request rest =>
      rw [pending] at flowed
      cases flowed
  | succ limit =>
    have one (u : RunState σ) (request)
        (member : request ∈ wf.pendingRecursions (OrderedDict.ofList ((gather eng nodes s).1.map fileOutcome)).items) :
        ∃ v, wf.executeRecursiveNode eng (limit + 1) u request = .ok v ∧
          v.history.length ≤ u.history.length + rounds sources (most - 1) := by
      obtain ⟨⟨id,result⟩,filed,asked⟩ := List.mem_flatMap.mp member
      have asked' : request ∈ wf.pendingRecursions [(id,result)] := by
        simpa only [pendingRecursions,List.flatMap_cons,List.flatMap_nil,List.append_nil] using asked
      obtain ⟨node,known,recursive,again,_,extra⟩ := pendingRecursions_single asked'
      obtain ⟨⟨id',outcome⟩,gathered,same⟩ := List.mem_map.mp
        (OrderedDict.get?_ofList _ ((OrderedDict.get?_eq_some _ id result).mpr filed))
      cases outcome with
      | error e =>
        cases same
        cases again
      | ok r =>
        cases same
        obtain ⟨other,inside,ctx,w,first,same,executed⟩ := gather_contexts eng nodes s gathered
        subst same
        cases known.symm.trans (listed other inside)
        obtain ⟨k,count,start⟩ := up (node,ctx) first recursive
        obtain ⟨low,d,output,count'⟩ := counting node.id node ctx w result k known recursive executed again count
        obtain ⟨source,entries⟩ := request
        cases extra.trans (congrArg Value.entries output)
        exact executeRecursiveNode_attempts counting few (most - 1) limit u source count' (by omega)
    obtain ⟨u,ran,bound⟩ := foldlM_attempts _ one (gather eng nodes s).2
    cases ran.symm.trans flowed
    omega

/-- The flows of a level, once it is known which nodes are active and where the flows end. -/
theorem flowsAt_eq {wf : Workflow} {eng : Engine σ} {limit : Nat} {b : LevelStart σ} {ids : List String}
    {activeCache : ActiveCache} (active : activeIds wf.graph limit b.ids b.state.activeCache = some (ids,activeCache))
    {t : RunState σ} (flowed : wf.handleRecursiveFlows eng limit
      (OrderedDict.ofList ((gather eng (ids.filterMap wf.nodes.get?) { b.state with activeCache }).1.map fileOutcome))
      (gather eng (ids.filterMap wf.nodes.get?) { b.state with activeCache }).2 = .ok t) :
    wf.flowsAt eng limit b =
      t.history.drop (gather eng (ids.filterMap wf.nodes.get?) { b.state with activeCache }).2.history.length := by
  simp only [flowsAt,levelPhases,active,Option.bind_some,flowed]
  rfl

end Workflow

open Workflow in
/-- In every run whose recursive nodes start at a counter not below zero, the flows of a level make a number
of attempts that only depends on the limits on the iterations and the numbers of nodes and sources. -/
theorem recursion_bounded {ω : Type} (rt : RecursiveRuntime ω) (whole : WholeModel rt.model) (x : Executors ω)
    (policy : FailurePolicy) (current : ω → Option GraphContext) (stalls : List NodeConfig → ω → Bool) (wf : Workflow)
    (most sources : Nat)
    (bounded : ∀ id node, wf.nodes.get? id = some node → node.type = .recursive →
      (rt.settings node).maxIterations ≤ most)
    (few : ∀ id node, wf.nodes.get? id = some node → node.type = .recursive → node.recursiveSources.length ≤ sources)
    (limit : Nat) (world : Session ω) :
    ∀ start ∈ wf.starts (NodeExecutor.engine (rt.install x) policy current stalls) limit world,
      CountsUp (wf.contextsAt (NodeExecutor.engine (rt.install x) policy current stalls) limit start.1) →
      (wf.flowsAt (NodeExecutor.engine (rt.install x) policy current stalls) limit start.1).length ≤
        wf.recursiveCount * sources * rounds sources (most - 1) := by
  rintro ⟨b,rest⟩ _ up
  have counting : Counting wf (NodeExecutor.engine (rt.install x) policy current stalls) most := by
    intro id node ctx w r k known recursive executed again count
    have answer := congrArg Prod.fst (rt.executeNode_recursive x policy recursive ctx w)
    cases Except.ok.inj (answer.symm.trans executed)
    obtain ⟨low,passed⟩ := rt.run_again whole count again
    exact ⟨lt_of_lt_of_le low (bounded id node known recursive),passed⟩
  simp only [contextsAt] at up
  cases active : activeIds wf.graph limit b.ids b.state.activeCache with
  | none => simp [flowsAt,levelPhases,active]
  | some entry =>
    obtain ⟨ids,activeCache⟩ := entry
    simp only [active] at up
    have listed : ∀ node ∈ ids.filterMap wf.nodes.get?, wf.nodes.get? node.id = some node := by
      intro node member
      obtain ⟨id,_,found⟩ := List.mem_filterMap.mp member
      rw [wf.own id node found]
      exact found
    cases flowed : wf.handleRecursiveFlows (NodeExecutor.engine (rt.install x) policy current stalls) limit
        (OrderedDict.ofList ((gather (NodeExecutor.engine (rt.install x) policy current stalls)
          (ids.filterMap wf.nodes.get?) { b.state with activeCache }).1.map fileOutcome))
        (gather (NodeExecutor.engine (rt.install x) policy current stalls) (ids.filterMap wf.nodes.get?)
          { b.state with activeCache }).2 with
    | error e => simp [flowsAt,levelPhases,active,flowed,Except.toOption]
    | ok t =>
      have bound := flows_attempts counting few listed up flowed
      rw [flowsAt_eq active flowed,List.length_drop]
      exact Nat.sub_le_iff_le_add'.mpr bound

/-- One recursive node that is its own source. -/
def haggling : Workflow :=
  .ofNodes {} [{ id := "haggling",type := .recursive,recursiveSources := ["haggling"] }] (by decide +kernel)

/-- The agent answers every time. -/
def hagglingRuntime (most : Int) : RecursiveRuntime Int where
  model := wholeNumbers
  parse _ := none
  inner _ _ _ w := (.ok { output := .dict [] },w)
  settings _ := { maxIterations := most,inner := .agent "haggler",preserveContext := false }

def idleExecutors : Executors Int where
  runtimeValidate _ := none
  executor _ _ w := (.value .none,w)
  coerce _ v := .ok v
  persist _ _ w := (none,w)
  isOutputValid _ _ := true

/-- The world is the counter that the inputs of the run name. -/
def hagglingEngine (most : Int) : Engine (Session Int) :=
  NodeExecutor.engine ((hagglingRuntime most).install idleExecutors) .continuePossible
    (fun k => some { sessionId := "s",metadata := [("_recursive_iteration",.int k)] }) fun _ _ => false

def hagglingStart (k : Int) : Workflow.LevelStart (Session Int) :=
  ⟨1,["haggling"],Workflow.initialState ⟨{ maximum := budgetDefaults,failClosed := false },k⟩⟩

theorem haggling_node {id : String} {node : NodeConfig} (known : haggling.nodes.get? id = some node) :
    id = "haggling" ∧ node = { id := "haggling",type := .recursive,recursiveSources := ["haggling"] } := by
  have nodes : haggling.nodes = nodesById _ := Workflow.new_nodes (Workflow.ofNodes_made _ _ (by decide +kernel))
  rw [nodes] at known
  simpa [Prod.ext_iff] using OrderedDict.get?_ofList _ known

theorem haggling_bounded :
    (haggling.flowsAt (hagglingEngine 2) 10 (hagglingStart 0)).length ≤ 1 * 1 * Workflow.rounds 1 1 := by
  have one : haggling.recursiveCount = 1 := by decide +kernel
  have levels : haggling.levels = [["haggling"]] := by decide +kernel
  rw [← one]
  refine recursion_bounded (hagglingRuntime 2) wholeNumbers_whole idleExecutors .continuePossible _ _ haggling 2 1
    (fun _ _ _ _ => le_rfl) ?_ 10 ⟨{ maximum := budgetDefaults,failClosed := false },0⟩ (hagglingStart 0,[]) ?_ ?_
  · intro id node known _
    obtain ⟨_,rfl⟩ := haggling_node known
    exact le_rfl
  · rw [Workflow.starts,levels]
    exact List.mem_cons_self
  · have up : ((haggling.contextsAt (hagglingEngine 2) 10 (hagglingStart 0)).all fun entry =>
        (RecursiveRuntime.counter entry.2).whole?.any (0 ≤ ·)) = true := by decide +kernel
    intro entry member _
    obtain ⟨k,count,positive⟩ := Option.any_eq_true _ _ |>.mp (List.all_eq_true.mp up entry member)
    exact ⟨k,count,of_decide_eq_true positive⟩

def haggler : NodeConfig := { id := "haggling",type := .recursive,recursiveSources := ["haggling"] }

/-- Below the limit the output asks for another round, one further. -/
theorem haggler_again (ctx : Context) (w k : Int) (count : RecursiveRuntime.counter ctx = .int k) (low : k < 1) :
    ((hagglingRuntime 1).run haggler ctx w).1 = { output := .dict [("_recursive_iteration",.int (k + 1)),
      ("_can_recurse",.bool true),("_recursive_node_id",.str "haggling")] } := by
  have compared : wholeNumbers.compare .gtE (.int k) (.int 1) = .ok false := by
    rw [wholeNumbers_whole.atLeast _ _ k 1 rfl rfl]
    exact congrArg Except.ok (decide_eq_false (by omega))
  simp only [RecursiveRuntime.run,hagglingRuntime,count,compared,RecursiveRuntime.iterate,
    wholeNumbers_whole.plus (.int k) (.int 1) k 1 rfl rfl]
  rfl

/-- One execution of the node and what it returns. -/
theorem haggling_turn (limit : Nat) (s : RunState (Session Int)) {d : OrderedDict String Value} {k : Int}
    (count : d.get? "_recursive_iteration" = some (.int k)) : ∃ result t, t.history.length = s.history.length + 1 ∧
      (k < 1 → result.output = .dict [("_recursive_iteration",.int (k + 1)),("_can_recurse",.bool true),
        ("_recursive_node_id",.str "haggling")]) ∧ (Workflow.canRecurse result.output = true → k < 1) ∧
      ∀ u, (haggling.pendingRecursions [("haggling",result)]).foldlM
          (haggling.executeRecursiveNode (hagglingEngine 1) limit) t = .ok u →
        haggling.executeRecursiveNode (hagglingEngine 1) (limit + 1) s ("haggling",d.items) = .ok u := by
  have nodes : haggling.nodes = nodesById _ := Workflow.new_nodes (Workflow.ofNodes_made _ _ (by decide +kernel))
  have known : haggling.nodes.get? "haggling" = some haggler := by
    rw [nodes]
    rfl
  obtain ⟨base,built⟩ : ∃ base, buildNodeContext ((hagglingEngine 1).currentContext s.world) haggler s.results =
      .ok base := ⟨_,rfl⟩
  have counted : RecursiveRuntime.counter (base.update d.items) = .int k := by
    rw [RecursiveRuntime.counter,OrderedDict.get?_update_items,count]
    rfl
  have executed : (hagglingEngine 1).executeNode haggler (base.update d.items) s.world =
      (.ok ((hagglingRuntime 1).run haggler (base.update d.items) s.world.world).1,
        { s.world with world := ((hagglingRuntime 1).run haggler (base.update d.items) s.world.world).2 }) :=
    @RecursiveRuntime.executeNode_recursive _ (hagglingRuntime 1) idleExecutors .continuePossible haggler rfl _ _
  have answer : (Workflow.processNode (hagglingEngine 1) haggler d.items s).1 =
      .ok ((hagglingRuntime 1).run haggler (base.update d.items) s.world.world).1 := by
    simp only [Workflow.processNode,built,executed]
  obtain ⟨ending,_,attempt,_⟩ := Workflow.processNode_ran (hagglingEngine 1) haggler d.items s
  simp only [Workflow.executeRecursiveNode,known]
  cases went : Workflow.processNode (hagglingEngine 1) haggler d.items s with
  | mk outcome t =>
    rw [went] at answer attempt
    cases answer
    have asks := haggler_again (base.update d.items) s.world.world k counted
    have stops (again : _) := (@RecursiveRuntime.run_again _ (hagglingRuntime 1) wholeNumbers_whole haggler
      (base.update d.items) s.world.world k (congrArg Value.whole? counted) again).1
    generalize ((hagglingRuntime 1).run haggler (base.update d.items) s.world.world).1 = result at asks stops
    refine ⟨result,t.record "haggling" result,?_,fun low => ?_,stops,fun u done => ?_⟩
    · rw [RunState.record_history,attempt.history,List.length_append,List.length_singleton]
    · rw [asks low]
    · simp only [done]

/-- By induction on how far the counter is below one. -/
theorem haggling_rounds (m : Nat) {limit : Nat} (room : m < limit) (s : RunState (Session Int))
    {d : OrderedDict String Value} (count : d.get? "_recursive_iteration" = some (.int (1 - m))) :
    ∃ t, haggling.executeRecursiveNode (hagglingEngine 1) limit s ("haggling",d.items) = .ok t ∧
      s.history.length + m < t.history.length := by
  obtain ⟨limit,rfl⟩ := Nat.exists_eq_succ_of_ne_zero (Nat.ne_zero_of_lt room)
  obtain ⟨result,t,grown,asks,stops,did⟩ := haggling_turn limit s count
  induction m generalizing limit s d result t with
  | zero =>
    have none : haggling.pendingRecursions [("haggling",result)] = [] := by
      refine List.eq_nil_iff_forall_not_mem.mpr fun request member => ?_
      obtain ⟨_,_,_,again,_⟩ := Workflow.pendingRecursions_single member
      have low := stops again
      omega
    rw [none] at did
    exact ⟨t,did t rfl,by omega⟩
  | succ m ih =>
    have output := asks (by omega)
    let d' : OrderedDict String Value := .ofList [("_recursive_iteration",.int (1 - (m + 1 : Nat) + 1)),
      ("_can_recurse",.bool true),("_recursive_node_id",.str "haggling")]
    have pending : haggling.pendingRecursions [("haggling",result)] = [("haggling",d'.items)] := by
      have nodes : haggling.nodes = nodesById _ := Workflow.new_nodes (Workflow.ofNodes_made _ _ (by decide +kernel))
      simp only [Workflow.pendingRecursions,List.flatMap_cons,List.flatMap_nil,nodes,output]
      rfl
    have next : d'.get? "_recursive_iteration" = some (.int (1 - m)) := by
      refine congrArg (fun k => some (Value.int k)) ?_
      omega
    obtain ⟨limit,rfl⟩ := Nat.exists_eq_succ_of_ne_zero (Nat.ne_zero_of_lt (Nat.lt_of_succ_lt_succ room))
    obtain ⟨result',t',grown',asks',stops',did'⟩ := haggling_turn limit t next
    obtain ⟨u,done,more⟩ := ih t next limit (by omega) result' t' grown' asks' stops' did'
    rw [pending,List.foldlM_cons,done] at did
    exact ⟨u,did u rfl,by omega⟩

/-- One node, one source, one iteration at most: inputs that start the counter lower make the flows longer
without bound. -/
theorem haggling_unbounded : ¬∃ bound : Nat, ∀ k limit,
    (haggling.flowsAt (hagglingEngine 1) limit (hagglingStart k)).length ≤ bound := by
  rintro ⟨m,bounded⟩
  refine absurd (bounded (-m) (m + 1)) (Nat.not_le.mpr ?_)
  have nodes : haggling.nodes = nodesById _ := Workflow.new_nodes (Workflow.ofNodes_made _ _ (by decide +kernel))
  have acyclic : haggling.graph.graph.Acyclic :=
    DirectedGraph.acyclic_of_numbering _ (fun _ => 0) (by decide +kernel)
  have edges : haggling.graph.graph.edges.length = 0 := by decide +kernel
  have deep : haggling.graph.graph.edges.length < m + 1 := by omega
  obtain ⟨activeCache,active,_⟩ := Workflow.activeIds_acyclic haggling.graph acyclic deep ["haggling"] .empty
    allActive_empty
  have levelNodes : ["haggling"].filterMap haggling.nodes.get? = [haggler] := by
    rw [nodes]
    rfl
  let s : RunState (Session Int) := { (hagglingStart (-m)).state with activeCache }
  obtain ⟨base,built,counted⟩ : ∃ base, buildNodeContext ((hagglingEngine 1).currentContext s.world) haggler s.results =
      .ok base ∧ RecursiveRuntime.counter base = .int (-m) := ⟨_,rfl,rfl⟩
  have executed : (hagglingEngine 1).executeNode haggler (base.update []) s.world = _ :=
    @RecursiveRuntime.executeNode_recursive _ (hagglingRuntime 1) idleExecutors .continuePossible haggler rfl _ _
  rw [haggler_again (base.update []) _ (-m) counted (by omega)] at executed
  let d : OrderedDict String Value := .ofList [("_recursive_iteration",.int (-m + 1)),
    ("_can_recurse",.bool true),("_recursive_node_id",.str "haggling")]
  have answer : (Workflow.gather (hagglingEngine 1) [haggler] s).1 = [("haggling",.ok { output := .dict d.items })] := by
    simp only [Workflow.gather,Workflow.processNode,built,executed]
    rfl
  have pending : haggling.pendingRecursions (OrderedDict.ofList
      ([("haggling",.ok { output := .dict d.items })].map Workflow.fileOutcome)).items = [("haggling",d.items)] := by
    simp only [Workflow.pendingRecursions,nodes]
    rfl
  have next : d.get? "_recursive_iteration" = some (.int (1 - m)) := by
    refine congrArg (fun k => some (Value.int k)) ?_
    omega
  obtain ⟨t,did,more⟩ := haggling_rounds m (Nat.lt_succ_self m) (Workflow.gather (hagglingEngine 1) [haggler] s).2 next
  have flowed : haggling.handleRecursiveFlows (hagglingEngine 1) (m + 1) (OrderedDict.ofList
      ((Workflow.gather (hagglingEngine 1) [haggler] s).1.map Workflow.fileOutcome))
      (Workflow.gather (hagglingEngine 1) [haggler] s).2 = .ok t := by
    rw [answer,Workflow.handleRecursiveFlows,pending,List.foldlM_cons,did]
    rfl
  rw [← levelNodes] at flowed more
  rw [Workflow.flowsAt_eq active flowed,List.length_drop]
  exact Nat.lt_sub_iff_add_lt'.mpr more

end IceOS
