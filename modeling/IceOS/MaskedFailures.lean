import IceOS.NestedLedgers

/-! Failures behind a success. A run that reports `success=True` is free of failed executions, at every depth,
exactly if none of its steps ignores one. -/
namespace IceOS.MaskedFailures

/-- `success=True` only if every execution that took place succeeded. -/
def Unmasked {ω : Type} (ended : Finished ω) : Prop :=
  ended.outcome.succeeds = true → ∀ id succeeded, .execution id succeeded ∈ ended.session.notes → succeeded = true

/-- Conditions, loops and parallel nodes are never given a failed result, a sub-workflow that fails contains no
failed execution, no attempt is repeated in which one failed, and the failures of a level are all reported. -/
def Heeded {ω : Type} (ended : Finished ω) : Prop := ∀ id, .ignored id ∉ ended.session.notes

theorem flawless_iff (notes : List Note) :
    Flawless notes ↔ ∀ id succeeded, .execution id succeeded ∈ notes → succeeded = true := by
  constructor
  · intro flawless id succeeded member
    simpa [Note.isFailure] using flawless _ member
  · intro all note member
    cases note with
    | execution id succeeded => simp [Note.isFailure,all id succeeded member]
    | invoked | dropped | returned | ignored => rfl

theorem quiet_iff (notes : List Note) : Quiet notes ↔ ∀ id, .ignored id ∉ notes := by
  constructor
  · intro quiet id member
    exact nomatch quiet _ member
  · intro none note member
    cases note with
    | ignored id => exact absurd member (none id)
    | invoked | dropped | returned | execution => rfl

/-- A run that heeds every failure masks none, and of the runs that report a success no other does. -/
theorem unmasked_iff {ω : Type} (rt : ExecutorRuntime ω) (depth : Nat) (wf : Workflow) (w : ω) :
    (Heeded (rt.execute depth wf w) → Unmasked (rt.execute depth wf w)) ∧
      ((rt.execute depth wf w).outcome.succeeds = true →
        (Unmasked (rt.execute depth wf w) ↔ Heeded (rt.execute depth wf w))) := by
  obtain ⟨_,notes,after,honest,grounded,_⟩ :=
    rt.runWorkflow_ledger (rt.invoke_replied depth) false (depth + 1) wf (rt.beginning w)
  have all : (rt.execute depth wf w).session.notes = notes := after
  have heeds : Heeded (rt.execute depth wf w) ↔ Quiet notes := by rw [quiet_iff,← all]; rfl
  have unmasked : Unmasked (rt.execute depth wf w) ↔
      ((rt.execute depth wf w).outcome.succeeds = true → Flawless notes) := by
    rw [flawless_iff,← all]
    rfl
  rw [heeds,unmasked]
  refine ⟨fun quiet fine => honest fine quiet,fun fine => ⟨fun flawless => grounded (flawless fine),fun quiet _ => ?_⟩⟩
  exact honest fine quiet

/-- A loop over one item, with a tool in its body. -/
def looping : ExecutorRuntime Unit :=
  { ExecutorRuntime.offline with
    inner := fun _ => { itemsSource := "items",body := [{ id := "fetch",type := .tool }] } }

def loopNodes : List NodeConfig :=
  [{ id := "each",type := .loop,inputMappings := [("items",.literal (.list [.int 1]))] }]

def loopWorkflow : Workflow := .ofNodes {} loopNodes (by decide +kernel)

/-- The tool in the body of the loop fails, the loop succeeds, and with it the run. -/
theorem loop_masks_failure : ¬∀ (rt : ExecutorRuntime Unit) (depth : Nat) (wf : Workflow) (w : Unit),
    Unmasked (rt.execute depth wf w) := by
  intro always
  have fine : (looping.execute 2 loopWorkflow ()).outcome.succeeds = true := by decide +kernel
  have failed : ((looping.execute 2 loopWorkflow ()).session.notes.any Note.isFailure) = true := by decide +kernel
  obtain ⟨note,member,failure⟩ := List.any_eq_true.mp failed
  have flawless := (flawless_iff _).mpr (always looping 2 loopWorkflow () fine)
  exact nomatch failure.symm.trans (flawless note member)

end IceOS.MaskedFailures
