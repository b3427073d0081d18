import IceOS.ExecutorLedgers

/-! The ledger of whole runs. The calls of a workflow's own nodes add segments to it one after another, and by
induction on how far executors run inside each other every executor is replied. -/
namespace IceOS

open Workflow (successOf Respected)

/-- What the notes say when the executions of a workflow's own nodes are those in `attempts`. -/
structure Stretch (inside : Bool) (attempts : List Attempt) (notes : List Note) : Prop where
  honest : (∀ a ∈ attempts, a.ending = .succeeded) → Quiet notes → Flawless notes
  grounded : Flawless notes → Quiet notes
  balanced : spent notes = handed notes + lost notes
  kept : inside = true → handed notes = 0

theorem Stretch.nil (inside : Bool) (attempts : List Attempt) : Stretch inside attempts [] :=
  ⟨fun _ _ => by simp [Flawless],fun _ => by simp [Quiet],rfl,fun _ => rfl⟩

theorem Stretch.append {inside : Bool} {attempts later : List Attempt} {notes more : List Note}
    (first : Stretch inside attempts notes) (second : Stretch inside later more) :
    Stretch inside (attempts ++ later) (notes ++ more) where
  honest succeeded quiet := by
    rw [List.forall_mem_append] at succeeded
    rw [quiet_append] at quiet
    rw [flawless_append]
    exact ⟨first.honest succeeded.1 quiet.1,second.honest succeeded.2 quiet.2⟩
  grounded flawless := by
    rw [flawless_append] at flawless
    rw [quiet_append]
    exact ⟨first.grounded flawless.1,second.grounded flawless.2⟩
  balanced := by
    have here := first.balanced
    have there := second.balanced
    rw [spent_append,handed_append,lost_append]
    omega
  kept inner := by rw [handed_append,first.kept inner,second.kept inner]

section

variable {ω : Type}

/-- From one point of a run to a later one. -/
def Joint (inside : Bool) (x y : List Attempt × Running ω × Nat) : Prop :=
  y.2.1.budget.totalCost = x.2.1.budget.totalCost ∧ ∃ attempts notes,
    y.1 = x.1 ++ attempts ∧ y.2.1.notes = x.2.1.notes ++ notes ∧ Stretch inside attempts notes

theorem Joint.refl (inside : Bool) (x : List Attempt × Running ω × Nat) : Joint inside x x :=
  ⟨rfl,[],[],by simp,by simp,.nil inside []⟩

theorem Joint.trans {inside : Bool} {x y z : List Attempt × Running ω × Nat} (first : Joint inside x y)
    (second : Joint inside y z) : Joint inside x z := by
  obtain ⟨cost,attempts,notes,history,after,stretch⟩ := first
  obtain ⟨cost',later,more,history',after',stretch'⟩ := second
  exact ⟨cost'.trans cost,attempts ++ later,notes ++ more,by rw [history',history,List.append_assoc],
    by rw [after',after,List.append_assoc],stretch.append stretch'⟩

/-- The tokens that come back with an execution are noted as dropped, or as returned. -/
theorem Ledger.stretch {notes : List Note} {ok : Bool} {tokens : Nat} (ledger : Ledger notes ok tokens)
    (inside : Bool) {attempts : List Attempt} (less : (∀ a ∈ attempts, a.ending = .succeeded) → ok = true) :
    Stretch inside attempts (notes ++ [if inside then .dropped tokens else .returned tokens]) := by
  cases inside with
  | true =>
    have dropped := ledger.drop
    refine ⟨fun fine => dropped.honest (less fine),dropped.grounded,?_,fun _ => dropped.unhanded⟩
    rw [if_pos rfl,dropped.balanced,dropped.unhanded]
  | false =>
    have plain : Quiet [.returned tokens] ∧ Flawless [.returned tokens] :=
      ⟨by simp [Quiet,Note.isIgnored],by simp [Flawless,Note.isFailure]⟩
    refine ⟨fun fine quiet => ?_,fun flawless => ?_,?_,fun inside => by contradiction⟩
    · rw [quiet_append] at quiet
      exact (flawless_append _ _).mpr ⟨ledger.honest (less fine) quiet.1,plain.2⟩
    · rw [flawless_append] at flawless
      exact (quiet_append _ _).mpr ⟨ledger.grounded flawless.1,plain.1⟩
    · have before := ledger.balanced
      have none := ledger.unhanded
      simp only [Bool.false_eq_true,if_false,spent_append,handed_append,lost_append]
      simp only [spent,handed,lost,List.map_cons,List.map_nil,List.sum_cons,List.sum_nil,Note.spent,Note.handed,
        Note.lost] at before none ⊢
      omega

namespace ExecutorRuntime

variable (rt : ExecutorRuntime ω)

section

variable {call : Workflow → NodeConfig → Context → Running ω → Reply × Running ω}
  (replied : ∀ wf node ctx s, Replied s (call wf node ctx s))

include replied

theorem engine_respected (inside : Bool) (wf : Workflow) : Respected (rt.engine inside call wf) (Joint inside) where
  refl := .refl inside
  trans := .trans
  misses _ _ _ id seen ending missed := by
    have never : ¬∀ a ∈ [(⟨id,seen,ending⟩ : Attempt)], a.ending = .succeeded := by simpa using missed
    exact ⟨rfl,[⟨id,seen,ending⟩],[],rfl,by simp,.nil inside _⟩
  calls _ world _ _ node ctx := by
    obtain ⟨⟨cost,notes,after,ledger⟩,_⟩ :=
      rt.executeNode_executed (replied wf node ctx) node.id node wf.failurePolicy world
    refine ⟨cost,_,_,rfl,by rw [engine,Session.note_notes,after,List.append_assoc],
      ledger.stretch inside fun succeeded => ?_⟩
    have ended : endingOf (rt.executeNode (call wf node ctx) node.id node wf.failurePolicy world).1 = .succeeded :=
      succeeded _ (List.mem_singleton_self _)
    rw [← endingOf_succeeded]
    exact decide_eq_true ended

/-- The calls of a run's own nodes add a stretch to its notes. -/
theorem runAll_stretch (inside : Bool) (limit : Nat) (wf : Workflow) (s : Running ω) :
    (wf.runAll (rt.engine inside call wf) limit s).state.world.budget.totalCost = s.budget.totalCost ∧
      ∃ notes, (wf.runAll (rt.engine inside call wf) limit s).state.world.notes = s.notes ++ notes ∧
        Stretch inside (wf.runAll (rt.engine inside call wf) limit s).state.history notes := by
  obtain ⟨cost,attempts,notes,history,after,stretch⟩ :=
    Workflow.runAll_respects wf limit (rt.engine_respected replied inside wf)
      (fun _ _ _ _ => .refl inside _) s
  rw [List.nil_append] at history
  cases history
  exact ⟨cost,notes,after,stretch⟩

end

/-! ### The end of a run -/

section

variable {wf : Workflow} {eng : Engine (Running ω)} {limit : Nat} {s : Running ω}

theorem flawless_closing :
    Flawless (closing wf eng limit s) ↔ ∀ a ∈ (wf.runAll eng limit s).state.history, a.ending = .succeeded := by
  have ignored : Flawless ((wf.starts eng limit s).flatMap fun start =>
      (wf.overlooked eng limit start.1).map Note.ignored) := by
    intro note member
    obtain ⟨start,_,inside⟩ := List.mem_flatMap.mp member
    obtain ⟨id,_,rfl⟩ := List.mem_map.mp inside
    rfl
  simp only [closing,flawless_append,ignored,and_true]
  simp [Flawless,Note.isFailure]

theorem quiet_closing :
    Quiet (closing wf eng limit s) ↔ ∀ start ∈ wf.starts eng limit s, wf.overlooked eng limit start.1 = [] := by
  have executions : Quiet ((wf.runAll eng limit s).state.history.map fun a =>
      Note.execution a.id (a.ending = .succeeded)) := by
    simp [Quiet,Note.isIgnored]
  simp only [closing,quiet_append,executions,true_and]
  constructor
  · intro quiet start member
    refine List.eq_nil_iff_forall_not_mem.mpr fun id inside => ?_
    have ignored := quiet (.ignored id) (List.mem_flatMap.mpr ⟨start,member,List.mem_map_of_mem inside⟩)
    contradiction
  · intro none note member
    obtain ⟨start,among,inside⟩ := List.mem_flatMap.mp member
    rw [none start among] at inside
    cases inside

variable (wf eng limit s) in
theorem closing_counts :
    spent (closing wf eng limit s) = 0 ∧ lost (closing wf eng limit s) = 0 ∧ handed (closing wf eng limit s) = 0 := by
  have none (count : Note → Nat) (executions : ∀ id succeeded, count (.execution id succeeded) = 0)
      (ignored : ∀ id, count (.ignored id) = 0) : ((closing wf eng limit s).map count).sum = 0 := by
    refine List.sum_eq_zero_iff_forall_eq_nat.mpr fun n member => ?_
    obtain ⟨note,inside,rfl⟩ := List.mem_map.mp member
    rcases List.mem_append.mp inside with inside | inside
    · obtain ⟨a,_,rfl⟩ := List.mem_map.mp inside
      exact executions _ _
    · obtain ⟨start,_,inside⟩ := List.mem_flatMap.mp inside
      obtain ⟨id,_,rfl⟩ := List.mem_map.mp inside
      exact ignored id
  exact ⟨none _ (fun _ _ => rfl) fun _ => rfl,none _ (fun _ _ => rfl) fun _ => rfl,
    none _ (fun _ _ => rfl) fun _ => rfl⟩

/-- A successful run in which no failure is overlooked has no failed attempt. -/
theorem ran_succeeded (fine : (wf.execute eng limit s).succeeds = true) (quiet : Quiet (closing wf eng limit s)) :
    ∀ a ∈ (wf.runAll eng limit s).state.history, a.ending = .succeeded := by
  have success : ∃ result, wf.execute eng limit s = .returned result ∧ result.success = true := by
    cases outcome : wf.execute eng limit s with
    | returned r => exact ⟨r,rfl,by simpa [outcome,Workflow.Outcome.succeeds] using fine⟩
    | raised e => simp [outcome,Workflow.Outcome.succeeds] at fine
    | stalled => simp [outcome,Workflow.Outcome.succeeds] at fine
  obtain ⟨_,calm⟩ := (execute_success_iff wf eng limit s).mp success
  exact Workflow.runAll_succeeded s calm (quiet_closing.mp quiet)

end

section

variable {call : Workflow → NodeConfig → Context → Running ω → Reply × Running ω}
  (replied : ∀ wf node ctx s, Replied s (call wf node ctx s))

include replied

/-- The whole ledger of a run. -/
theorem runWorkflow_ledger (inside : Bool) (limit : Nat) (wf : Workflow) (s : Running ω) :
    (rt.runWorkflow inside limit call wf s).session.budget.totalCost = s.budget.totalCost ∧
      ∃ notes, (rt.runWorkflow inside limit call wf s).session.notes = s.notes ++ notes ∧
        ((rt.runWorkflow inside limit call wf s).outcome.succeeds = true → Quiet notes → Flawless notes) ∧
        (Flawless notes → Quiet notes) ∧ spent notes = handed notes + lost notes ∧
        (inside = true → handed notes = 0) := by
  obtain ⟨cost,notes,after,stretch⟩ := rt.runAll_stretch replied inside limit wf s
  obtain ⟨unspent,unlost,unhanded⟩ := closing_counts wf (rt.engine inside call wf) limit s
  refine ⟨cost,notes ++ closing wf (rt.engine inside call wf) limit s,
    by rw [runWorkflow,Session.note_notes,after,List.append_assoc],fun fine quiet => ?_,fun flawless => ?_,?_,?_⟩
  · rw [quiet_append] at quiet
    have succeeded := ran_succeeded fine quiet.2
    exact (flawless_append _ _).mpr ⟨stretch.honest succeeded quiet.1,flawless_closing.mpr succeeded⟩
  · rw [flawless_append] at flawless
    exact (quiet_append _ _).mpr ⟨stretch.grounded flawless.1,
      quiet_closing.mpr (Workflow.overlooked_failed s (flawless_closing.mp flawless.2))⟩
  · rw [spent_append,handed_append,lost_append,unspent,unlost,unhanded,stretch.balanced]
    rfl
  · intro inner
    rw [handed_append,stretch.kept inner,unhanded]

theorem runWorkflow_enclosed (limit : Nat) : Enclosed (rt.runWorkflow true limit call) := by
  intro wf s
  obtain ⟨cost,notes,after,honest,grounded,balanced,kept⟩ := rt.runWorkflow_ledger replied true limit wf s
  refine ⟨cost,notes,after,honest,grounded,?_,kept rfl⟩
  rw [balanced,kept rfl]

end

/-! ### Executors inside each other -/

theorem llmNodeExecutor_replied (node : NodeConfig) (ctx : Context) (s : Running ω) :
    Replied s ((rt.llmNodeExecutor node ctx s).map .result id) := by
  simp only [llmNodeExecutor]
  cases rt.generate node ctx s.world.world with
  | mk generation w =>
    cases generation with
    | failed e => exact .result rfl (.put s w false)
    | completed prompt text call error =>
      have invoked : Segment s ((s.put w).note [.invoked call]) true call.tokens := by
        refine ⟨rfl,[.invoked call],rfl,fun _ _ => ?_,fun _ => ?_,?_,rfl⟩
        · simp [Flawless,Note.isFailure]
        · simp [Quiet,Note.isIgnored]
        · simp [spent,lost,Note.spent,Note.lost]
      simp only
      split
      · exact .result rfl invoked.drop.failed
      · refine ⟨?_,fun u some => ?_⟩
        · have carried : call.tokens = Reply.tokens (.result
              { output := .none,usage := call.usage.map fun u => { totalTokens := u.total } }) := by
            simp only [LlmCall.tokens,Reply.tokens,NodeExecutionResult.tokens,Option.map_map,Function.comp_def]
          exact carried ▸ invoked
        · obtain ⟨usage,_,rfl⟩ := Option.map_eq_some_iff.mp some
          exact ⟨rfl,rfl⟩

theorem plainExecutor_replied (node : NodeConfig) (ctx : Context) (s : Running ω) :
    Replied s (rt.plainExecutor node ctx s) := .answered _ (.called s _ _)

/-- Every executor replies so, however far executors run inside each other. -/
theorem invoke_replied (depth : Nat) (wf : Workflow) (node : NodeConfig) (ctx : Context) (s : Running ω) :
    Replied s (rt.invoke depth wf node ctx s) := by
  induction depth generalizing wf node ctx s with
  | zero => exact ⟨.refl s false,trivial⟩
  | succ depth ih =>
    have nested := rt.executeNodeConfig_reported (ih wf) wf node.id
    have enclosed := rt.runWorkflow_enclosed ih (depth + 1)
    simp only [invoke]
    split
    · exact rt.llmNodeExecutor_replied node ctx s
    · exact rt.conditionNodeExecutor_replied nested node ctx s
    · refine rt.delegate_replied node ctx (rt.loopOverItems_replied (ih wf) node ctx) ?_ s
      exact fun _ _ _ segment => ⟨segment,trivial⟩
    · refine rt.delegate_replied node ctx (rt.parallelBranches_replied nested node ctx) ?_ s
      exact fun _ _ _ segment => .result rfl segment
    · exact rt.workflowNodeExecutor_replied enclosed node ctx s
    · exact rt.recursiveNodeExecutor_replied enclosed node ctx s
    · exact rt.plainExecutor_replied node ctx s

end ExecutorRuntime

end

end IceOS
