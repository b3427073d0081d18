import IceOS.NodeExecutor
import Mathlib.Data.Nat.Find
import Mathlib.Logic.Function.Iterate

/-! How often a node run calls its executor. The executor's answers are numbered from the
first invocation on, each together with what became of it. -/
namespace IceOS

variable {ω : Type}

/-- The same executors over a world that also counts the invocations. -/
def Executors.counted (x : Executors ω) : Executors (ω × Nat) where
  runtimeValidate := x.runtimeValidate
  executor := fun node ctx w =>
    let (reply,world) := x.executor node ctx w.1
    (reply,(world,w.2 + 1))
  coerce := x.coerce
  persist := fun node v w =>
    let (failure,world) := x.persist node v w.1
    (failure,(world,w.2))
  isOutputValid := x.isOutputValid

namespace NodeExecutor

/-- One invocation and what is done with its reply; an exception goes straight on. -/
def attempt (x : Executors ω) (node : NodeConfig) (ctx : Context) (s : Session ω) :
    (Reply × Except Exn NodeExecutionResult) × Session ω :=
  let (reply,world) := x.executor node ctx s.world
  let (outcome,s) := finish x node reply { s with world }
  ((reply,outcome),s)

/-- The session after so many invocations, each with its post-processing. -/
def after (x : Executors ω) (node : NodeConfig) (ctx : Context) (s : Session ω) (i : Nat) : Session ω :=
  (fun s => (attempt x node ctx s).2)^[i] s

/-- What invocation `i` gives back, counted from 0, and what post-processing makes of it. -/
def answer (x : Executors ω) (node : NodeConfig) (ctx : Context) (s : Session ω) (i : Nat) :
    Reply × Except Exn NodeExecutionResult :=
  (attempt x node ctx (after x node ctx s i)).1

/-- How often a node run calls the executor. -/
def invocations (x : Executors ω) (policy : FailurePolicy) (node : NodeConfig) (ctx : Context)
    (s : Session ω) : Nat :=
  (executeNode x.counted policy node ctx ⟨s.budget,(s.world,0)⟩).2.world.2

/-- The executor itself raised. -/
def Raises (a : Reply × Except Exn NodeExecutionResult) : Prop := ∃ e, a.1 = .raised e

/-- The result carries what the executor gave back: a `NodeExecutionResult` as it is, a plain
value as it was coerced. -/
def Carries (x : Executors ω) (node : NodeConfig) (reply : Reply) (r : NodeExecutionResult) : Prop :=
  match reply with
  | .raised _ => False
  | .result own => r = own
  | .value v => ∃ output, x.coerce node v = .ok output ∧ (r.success = true → r.output = output)

section Loops

variable (x : Executors ω) (node : NodeConfig) (ctx : Context)

theorem after_add (s : Session ω) (i k : Nat) :
    after x node ctx (after x node ctx s k) i = after x node ctx s (k + i) := by
  rw [Nat.add_comm k i]
  exact (Function.iterate_add_apply _ i k s).symm

theorem answer_add (s : Session ω) (i k : Nat) :
    answer x node ctx (after x node ctx s k) i = answer x node ctx s (k + i) := by
  rw [answer,answer,after_add]

/-- The inner loop stops at the first invocation that does not raise, or with its last one. -/
theorem dispatch_spec (left : Nat) (s : Session ω) :
    ∃ k, k ≤ left ∧ (∀ i, i < k → Raises (answer x node ctx s i)) ∧
      (k = left ∨ ¬Raises (answer x node ctx s k)) ∧
      (dispatch x node ctx left s).1.2 = left - k ∧
      finish x node (dispatch x node ctx left s).1.1 (dispatch x node ctx left s).2 =
        ((answer x node ctx s k).2,after x node ctx s (k + 1)) := by
  induction left generalizing s with
  | zero => exact ⟨0,le_refl 0,fun i below => absurd below (Nat.not_lt_zero i),.inl rfl,rfl,rfl⟩
  | succ left ih =>
    cases called : x.executor node ctx s.world with
    | mk reply world =>
      have own : (answer x node ctx s 0).1 = reply := congrArg Prod.fst called
      cases reply with
      | raised e =>
        have next : { s with world } = after x node ctx s 1 := by
          simp [after,attempt,called,finish]
        obtain ⟨k,few,raising,stops,unused,ends⟩ := ih (after x node ctx s 1)
        simp only [answer_add,after_add,Nat.add_comm 1] at raising stops ends
        refine ⟨k + 1,by omega,fun i below => ?_,stops.imp (congrArg (· + 1)) id,?_⟩
        · cases i with
          | zero => exact ⟨e,own⟩
          | succ i => exact raising i (by omega)
        · simp only [dispatch,called,next]
          exact ⟨by omega,ends⟩
      | result r =>
        refine ⟨0,Nat.zero_le _,fun i below => absurd below (Nat.not_lt_zero i),.inr ?_,?_⟩
        · rintro ⟨e,raised⟩
          rw [own] at raised
          contradiction
        · simp [dispatch,called,answer,after,attempt]
      | value v =>
        refine ⟨0,Nat.zero_le _,fun i below => absurd below (Nat.not_lt_zero i),.inr ?_,?_⟩
        · rintro ⟨e,raised⟩
          rw [own] at raised
          contradiction
        · simp [dispatch,called,answer,after,attempt]

/-- A run of the loops ends with one of the invocations and what became of it. -/
theorem rounds_ends (left : Nat) (s : Session ω) :
    ∃ m, rounds x node ctx left s = ((answer x node ctx s m).2,after x node ctx s (m + 1)) := by
  induction left generalizing s with
  | zero =>
    obtain ⟨k,_,_,_,_,ends⟩ := dispatch_spec x node ctx (maxRetries node) s
    exact ⟨k,ends⟩
  | succ left ih =>
    obtain ⟨k,_,_,_,_,ends⟩ := dispatch_spec x node ctx (maxRetries node) s
    simp only [rounds,ends]
    cases outcome : (answer x node ctx s k).2 with
    | ok r => exact ⟨k,by rw [outcome]⟩
    | error e =>
      simp only
      split
      · exact ⟨k,by rw [outcome]⟩
      · obtain ⟨m,later⟩ := ih (after x node ctx s (k + 1))
        exact ⟨k + 1 + m,by rw [later,answer_add,after_add,Nat.add_assoc (k + 1) m 1]⟩

end Loops

/-! ### Counting -/

section Counting

/-- The session of a run that has made `n` invocations so far. -/
def counting (s : Session ω) (n : Nat) : Session (ω × Nat) := ⟨s.budget,(s.world,n)⟩

variable (x : Executors ω) (node : NodeConfig) (ctx : Context)

end Counting

/-- A success with successful post-processing. -/
def Succeeds (a : Reply × Except Exn NodeExecutionResult) : Prop := ∃ r, a.2 = .ok r ∧ r.success = true

end NodeExecutor

end IceOS
