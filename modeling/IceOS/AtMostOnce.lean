import IceOS.RunOutcomes
import IceOS.WorkflowService

/-! Whether a start request runs its workflow at most once and records only successes as
completed. The task answers every exception of the service by running the workflow again,
and does not look at the success of a result. -/
namespace IceOS

open Workflow

/-- No node is dispatched by two of the runs, and none follows one that dispatched a node. -/
structure AtMostOnce (runs : List (List Attempt)) : Prop where
  once : runs.Pairwise fun first second =>
    ∀ a ∈ first, ∀ b ∈ second, a.Dispatched → b.Dispatched → a.id ≠ b.id
  notAgain : runs.Pairwise fun first _ => ¬Dispatches first

/-- The record is completed only by a successful result. -/
def CompletedBySuccess (m : ExecutionRecord) : Prop :=
  m.status = .completed → ∃ result, m.result = some result ∧ result.success = true

section

variable {ω : Type} (x : Runtime ω) (limit : Nat) (bp : Blueprint) (inputs : List (String × Value)) (p : Process ω)

/-- The run of a workflow comes to no result, nothing goes wrong in it, or its result does not dump. -/
def Honest (wf : Workflow) (p : Process ω) : Prop :=
  Breaks wf (x.engine wf) limit (x.session p) ∨
    (∃ start ∈ wf.starts (x.engine wf) limit (x.session p), Hangs wf (x.engine wf) limit start.1) ∨
    (∀ start ∈ wf.starts (x.engine wf) limit (x.session p), Untroubled wf (x.engine wf) limit start.1) ∨
    ∃ result, wf.execute (x.engine wf) limit (x.session p) = .returned result ∧ (x.dump result).isSome = true

/-- The blueprint's workflow cannot be made, or an exception comes out of its run; `q` is what the
process is then. -/
def FirstFails (q : Process ω) : Prop :=
  (∃ e, x.prepareBlueprint bp.nodes inputs p = (.error e,q)) ∨
    ∃ wf r, x.prepareBlueprint bp.nodes inputs p = (.ok wf,r) ∧
      Breaks wf (x.engine wf) limit (x.session r) ∧ q = (x.runWorkflow limit wf r).after

/-- No exception comes out of the blueprint's run once it has dispatched a node, or the workflow
cannot be made again, and the runs are honest. -/
structure Proper : Prop where
  contained : ∀ wf q, x.prepareBlueprint bp.nodes inputs p = (.ok wf,q) →
    Breaks wf (x.engine wf) limit (x.session q) →
    (∃ start ∈ wf.starts (x.engine wf) limit (x.session q), Dispatching wf (x.engine wf) limit start.1) →
    ∃ e, (x.prepareFallback bp.nodes (x.runWorkflow limit wf q).after).1 = .error e
  honest : ∀ wf q, x.prepareBlueprint bp.nodes inputs p = (.ok wf,q) → Honest x limit wf q
  lastResort : ∀ q, FirstFails x limit bp inputs p q → ∀ wf r, x.prepareFallback bp.nodes q = (.ok wf,r) →
    Honest x limit wf (Runtime.injectInputs inputs r)

end

theorem atMostOnce_single (attempts : List Attempt) : AtMostOnce [attempts] :=
  ⟨List.pairwise_singleton _ _,List.pairwise_singleton _ _⟩

theorem atMostOnce_pair (first second : List Attempt) : AtMostOnce [first,second] ↔ ¬Dispatches first := by
  constructor
  · intro once
    simpa using once.notAgain
  · intro quiet
    refine ⟨?_,by simpa using quiet⟩
    rw [List.pairwise_pair]
    intro a member b _ sent
    exact absurd ⟨a,member,sent⟩ quiet

section

variable {ω : Type} {x : Runtime ω} {limit : Nat} {bp : Blueprint} {inputs : List (String × Value)}

theorem honest_iff (wf : Workflow) (p : Process ω) : Honest x limit wf p ↔
    ∀ result, wf.execute (x.engine wf) limit (x.session p) = .returned result →
      x.dump result = none → result.success = true := by
  have raised := execute_raised_iff wf (x.engine wf) limit (x.session p)
  have stalled := execute_stalled_iff wf (x.engine wf) limit (x.session p)
  have success := execute_success_iff wf (x.engine wf) limit (x.session p)
  constructor
  · rintro (breaks | hangs | calm | ⟨other,returned',undumped⟩) result returned dumped
    · obtain ⟨e,broke⟩ := raised.mpr breaks
      simp [broke] at returned
    · simp [stalled.mpr hangs] at returned
    · have leaves : wf.graph.getLeafNodes ≠ [] := by
        intro none
        obtain ⟨e,broke⟩ := raised.mpr (.inr ⟨none,fun ⟨start,member,hangs⟩ => (calm start member).returns hangs⟩)
        simp [broke] at returned
      obtain ⟨other,returned',fine⟩ := success.mpr ⟨leaves,calm⟩
      rw [returned] at returned'
      cases returned'
      exact fine
    · rw [returned] at returned'
      cases returned'
      simp [dumped] at undumped
  · intro fine
    cases ended : wf.execute (x.engine wf) limit (x.session p) with
    | raised e => exact .inl (raised.mp ⟨e,ended⟩)
    | stalled => exact .inr (.inl (stalled.mp ended))
    | returned result =>
      cases dumped : x.dump result with
      | some text => exact .inr (.inr (.inr ⟨result,ended,by simp [dumped]⟩))
      | none => exact .inr (.inr (.inl (success.mp ⟨result,ended,fine result ended dumped⟩).2))

/-- What the task records is completed by a success exactly if every dumpable result is one. -/
theorem recordOutcome_iff (m : ExecutionRecord) (outcome : Outcome) :
    CompletedBySuccess (x.recordOutcome { m with status := .running } outcome) ↔
      ∀ result, outcome = .returned result → x.dump result = none → result.success = true := by
  cases outcome with
  | returned result =>
    cases dumped : x.dump result with
    | none => simp [CompletedBySuccess,Runtime.recordOutcome,ExecutionRecord.finish,dumped]
    | some text => simp [CompletedBySuccess,Runtime.recordOutcome,ExecutionRecord.finish,dumped]
  | raised e => simp [CompletedBySuccess,Runtime.recordOutcome,ExecutionRecord.finish]
  | stalled => simp [CompletedBySuccess,Runtime.recordOutcome]

/-- The last resort alone is a single run, if it comes to one. -/
theorem runLastResort_iff (q : Process ω) :
    (∀ result, (x.runLastResort limit bp inputs q).outcome = .returned result →
        x.dump result = none → result.success = true) ↔
      ∀ wf r, x.prepareFallback bp.nodes q = (.ok wf,r) → Honest x limit wf (Runtime.injectInputs inputs r) := by
  simp only [Runtime.runLastResort]
  cases prepared : x.prepareFallback bp.nodes q with
  | mk made r =>
    cases made with
    | error e => simp
    | ok wf =>
      simp only [Runtime.executeWorkflow,Runtime.runWorkflow,← honest_iff]
      constructor
      · intro honest wf' r' same
        cases same
        exact honest
      · exact fun honest => honest wf r rfl

theorem runLastResort_runs (x : Runtime ω) (limit : Nat) (bp : Blueprint) (inputs : List (String × Value))
    (q : Process ω) :
    (∃ e, (x.prepareFallback bp.nodes q).1 = .error e ∧ (x.runLastResort limit bp inputs q).runs = []) ∨
      ∃ wf attempts, (x.prepareFallback bp.nodes q).1 = .ok wf ∧
        (x.runLastResort limit bp inputs q).runs = [attempts] := by
  simp only [Runtime.runLastResort]
  cases x.prepareFallback bp.nodes q with
  | mk made r =>
    cases made with
    | error e => exact .inl ⟨e,rfl,rfl⟩
    | ok wf => exact .inr ⟨wf,_,rfl,rfl⟩

/-! ### When the runs of a request are proper -/

theorem firstFails_refused {e : Exn} {q : Process ω} (prepared : x.prepareBlueprint bp.nodes inputs p = (.error e,q))
    (r : Process ω) : FirstFails x limit bp inputs p r ↔ r = q := by
  simp [FirstFails,prepared,eq_comm]

theorem firstFails_made {wf : Workflow} {q : Process ω} (prepared : x.prepareBlueprint bp.nodes inputs p = (.ok wf,q))
    (r : Process ω) : FirstFails x limit bp inputs p r ↔
      Breaks wf (x.engine wf) limit (x.session q) ∧ r = (x.runWorkflow limit wf q).after := by
  simp [FirstFails,prepared]

theorem proper_refused {e : Exn} {q : Process ω} (prepared : x.prepareBlueprint bp.nodes inputs p = (.error e,q)) :
    Proper x limit bp inputs p ↔
      ∀ wf r, x.prepareFallback bp.nodes q = (.ok wf,r) → Honest x limit wf (Runtime.injectInputs inputs r) := by
  constructor
  · exact fun proper => proper.lastResort q ((firstFails_refused prepared q).mpr rfl)
  · intro honest
    refine ⟨by simp [prepared],by simp [prepared],fun r failed => ?_⟩
    rw [(firstFails_refused prepared r).mp failed]
    exact honest

/-- Without an exception there is one run. -/
theorem proper_unbroken {wf : Workflow} {q : Process ω} (prepared : x.prepareBlueprint bp.nodes inputs p = (.ok wf,q))
    (unbroken : ¬Breaks wf (x.engine wf) limit (x.session q)) : Proper x limit bp inputs p ↔ Honest x limit wf q := by
  constructor
  · exact fun proper => proper.honest wf q prepared
  · intro honest
    refine ⟨?_,?_,fun r failed => absurd ((firstFails_made prepared r).mp failed).1 unbroken⟩
    · intro wf' q' same breaks
      rw [prepared] at same
      cases same
      exact absurd breaks unbroken
    · intro wf' q' same
      rw [prepared] at same
      cases same
      exact honest

/-- An exception is answered by another run. -/
theorem proper_broken {wf : Workflow} {q : Process ω} (prepared : x.prepareBlueprint bp.nodes inputs p = (.ok wf,q))
    (breaks : Breaks wf (x.engine wf) limit (x.session q)) : Proper x limit bp inputs p ↔
      ((∃ start ∈ wf.starts (x.engine wf) limit (x.session q), Dispatching wf (x.engine wf) limit start.1) →
        ∃ e, (x.prepareFallback bp.nodes (x.runWorkflow limit wf q).after).1 = .error e) ∧
      ∀ wf' r, x.prepareFallback bp.nodes (x.runWorkflow limit wf q).after = (.ok wf',r) →
        Honest x limit wf' (Runtime.injectInputs inputs r) := by
  constructor
  · exact fun proper => ⟨proper.contained wf q prepared breaks,
      proper.lastResort _ ((firstFails_made prepared _).mpr ⟨breaks,rfl⟩)⟩
  · rintro ⟨contained,lastResort⟩
    refine ⟨?_,?_,?_⟩
    · intro wf' q' same _
      rw [prepared] at same
      cases same
      exact contained
    · intro wf' q' same
      rw [prepared] at same
      cases same
      exact .inl breaks
    · intro r failed
      rw [((firstFails_made prepared r).mp failed).2]
      exact lastResort

theorem runLastResort_once (x : Runtime ω) (limit : Nat) (bp : Blueprint) (inputs : List (String × Value))
    (q : Process ω) : AtMostOnce (x.runLastResort limit bp inputs q).runs := by
  rcases runLastResort_runs x limit bp inputs q with ⟨_,_,runs⟩ | ⟨_,_,_,runs⟩
  · rw [runs]
    exact ⟨.nil,.nil⟩
  · rw [runs]
    exact atMostOnce_single _

/-- A start request runs its workflow at most once and records only a success as completed exactly
if its runs are proper. -/
theorem runWorkflowAsync_once_iff (x : Runtime ω) (limit : Nat) (bp : Blueprint)
    (inputs : List (String × Value)) (p : Process ω) (m : ExecutionRecord) :
    AtMostOnce (x.runWorkflowAsync limit bp inputs p m).2.runs ∧
        CompletedBySuccess (x.runWorkflowAsync limit bp inputs p m).1 ↔
      Proper x limit bp inputs p := by
  simp only [Runtime.runWorkflowAsync,recordOutcome_iff,Runtime.serveBlueprint,Runtime.executeBlueprint]
  cases prepared : x.prepareBlueprint bp.nodes inputs p with
  | mk made q =>
    cases made with
    | error e =>
      rw [proper_refused prepared]
      simp only [List.nil_append,runLastResort_iff]
      exact and_iff_right (runLastResort_once x limit bp inputs q)
    | ok wf =>
      have ends := execute_raised_iff wf (x.engine wf) limit (x.session q)
      have sent := runAll_dispatches_iff wf (x.engine wf) limit (x.session q)
      cases ended : wf.execute (x.engine wf) limit (x.session q) with
      | returned result =>
        have unbroken : ¬Breaks wf (x.engine wf) limit (x.session q) := fun breaks => by
          obtain ⟨e,broke⟩ := ends.mpr breaks
          cases ended.symm.trans broke
        rw [proper_unbroken prepared unbroken,honest_iff]
        simp only [Runtime.runWorkflow,ended]
        exact and_iff_right (atMostOnce_single _)
      | stalled =>
        have unbroken : ¬Breaks wf (x.engine wf) limit (x.session q) := fun breaks => by
          obtain ⟨e,broke⟩ := ends.mpr breaks
          cases ended.symm.trans broke
        rw [proper_unbroken prepared unbroken,honest_iff]
        simp only [Runtime.runWorkflow,ended]
        exact and_iff_right (atMostOnce_single _)
      | raised e =>
        have breaks := ends.mp ⟨e,ended⟩
        have outcome : (x.runWorkflow limit wf q).outcome = .raised e := ended
        rw [proper_broken prepared breaks]
        simp only [outcome,runLastResort_iff]
        refine and_congr_left fun _ => ?_
        rcases runLastResort_runs x limit bp inputs (x.runWorkflow limit wf q).after with
          ⟨e',refused,runs⟩ | ⟨wf',attempts,made,runs⟩
        · rw [runs,List.append_nil]
          exact ⟨fun _ _ => ⟨e',refused⟩,fun _ => atMostOnce_single _⟩
        · rw [runs]
          change AtMostOnce [_,attempts] ↔ _
          rw [atMostOnce_pair,made]
          simp [sent]

end

/-- Nothing is refused, the node `fetch` fails and `report` maps in its output. -/
def relayRuntime : Runtime Unit where
  networkx := .direct
  modelValidate type spec := .ok
    { id := spec.id,type,dependencies := spec.dependencies
      inputMappings := if spec.id = "report" then [("body",.reference "fetch" "text")] else [] }
  populateToolNodeSchemas := .ok
  validateNodeToolAccess _ := .ok ()
  validateSchemaAlignment _ := .ok ()
  maxTokens := none
  maxDepth := none
  enforcer := { maximum := budgetDefaults,failClosed := true }
  executors :=
    { runtimeValidate _ := none
      executor node _ w :=
        (.result (if node.id = "fetch" then { success := false,error := some "timeout" }
          else { output := .dict [("text",.str "ok")] }),w)
      coerce _ v := .ok v
      persist _ _ w := (none,w)
      isOutputValid _ _ := true }
  stalls _ _ := false
  newSession _ := ("s","t")
  dump _ := none

def relayBlueprint : Blueprint where
  blueprintId := "bp_1"
  nodes := [{ id := "fetch",type := "tool" },{ id := "audit",type := "tool" },
    { id := "report",type := "tool",dependencies := ["fetch"] }]

/-- The exception over the context of `report` sets off a second run, in which `audit` is
dispatched again. -/
theorem relay_repeats_audit :
    ¬∀ (x : Runtime Unit) (limit : Nat) (bp : Blueprint) (inputs : List (String × Value)) (p : Process Unit)
      (m : ExecutionRecord), AtMostOnce (x.runWorkflowAsync limit bp inputs p m).2.runs ∧
        CompletedBySuccess (x.runWorkflowAsync limit bp inputs p m).1 := by
  intro claim
  have once := (claim relayRuntime 1000 relayBlueprint [] ⟨{},()⟩ {}).1.once
  have attempts : (relayRuntime.runWorkflowAsync 1000 relayBlueprint [] ⟨{},()⟩ {}).2.runs.map
      (·.map fun a => (a.id,a.ending)) =
        [[("fetch",.failed),("audit",.succeeded),("report",.unbuilt)],
          [("fetch",.failed),("audit",.succeeded),("report",.unbuilt)]] := by decide +kernel
  obtain ⟨first,rest,both,same,more⟩ := List.map_eq_cons_iff.mp attempts
  obtain ⟨second,none,only,same',_⟩ := List.map_eq_cons_iff.mp more
  subst only
  rw [both] at once
  have audit : ("audit",Ending.succeeded) ∈ first.map fun a => (a.id,a.ending) := by simp [same]
  have audit' : ("audit",Ending.succeeded) ∈ second.map fun a => (a.id,a.ending) := by simp [same']
  obtain ⟨a,member,ends⟩ := List.mem_map.mp audit
  obtain ⟨b,member',ends'⟩ := List.mem_map.mp audit'
  obtain ⟨id,ending⟩ := Prod.mk.inj ends
  obtain ⟨id',ending'⟩ := Prod.mk.inj ends'
  have apart := (List.pairwise_cons.mp once).1 second List.mem_cons_self a member b member'
  exact apart (by simp [Attempt.Dispatched,ending]) (by simp [Attempt.Dispatched,ending']) (id.trans id'.symm)

end IceOS
