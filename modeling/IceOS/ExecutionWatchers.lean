import IceOS.ExecutionApi

/-! WebSocket clients that watch an execution. They wait on one event of its record, which every client clears
before it sends. -/
namespace IceOS

open ActionRuns

/-- Where the handler of one client stands: what it sends is the record at the time it took it, `seen` is what it
has sent last. -/
inductive Watcher where
  | absent
  | greeting (payload : ExecutionRecord)
  | waiting (seen : ExecutionRecord)
  | woken (seen : ExecutionRecord)
  | sending (payload : ExecutionRecord)
  | closing
  | gone

/-- Setting the event wakes those that wait for it. -/
def Watcher.wake : Watcher → Watcher
  | .waiting seen => .woken seen
  | w => w

/-- An execution with its event and the clients `ι` that watch it. -/
structure Watched (ι κ : Type) where
  execution : Execution κ := {}
  event : Bool := false
  watchers : ι → Watcher := fun _ => .absent

/-- A step of the task or of a cancel request, or a client that connects, has been sent its message, is found to
be gone, or runs on after it was woken. -/
inductive WatchAction (ι κ : Type) where
  | run (a : ExecutionAction κ)
  | connect (j : ι)
  | sent (j : ι)
  | drop (j : ι)
  | resume (j : ι)

/-- The steps after which the record's event is set. -/
def ExecutionAction.notifies {κ : Type} : ExecutionAction κ → Bool
  | .begin available => available
  | .finish _ _ | .cancel _ => true
  | _ => false

namespace Watched

variable {ι κ : Type}

def setEvent (s : Watched ι κ) : Watched ι κ :=
  { s with event := true,watchers := fun j => (s.watchers j).wake }

variable [DecidableEq ι]

def setWatcher (s : Watched ι κ) (j : ι) (w : Watcher) : Watched ι κ :=
  { s with watchers := Function.update s.watchers j w }

/-- Past the wait: the event is cleared and the record as it is now goes out. -/
def clearEvent (s : Watched ι κ) (j : ι) : Watched ι κ :=
  { s with event := false }.setWatcher j (.sending s.execution.memory)

/-- The top of the loop: an event that is set is not waited for. -/
def listen (s : Watched ι κ) (j : ι) (seen : ExecutionRecord) : Watched ι κ :=
  if s.event then s.clearEvent j else s.setWatcher j (.waiting seen)

/-- The handler closes after sending if the record is final by then, whatever it has sent. -/
def step [DecidableEq κ] (s : Watched ι κ) : WatchAction ι κ → Option (Watched ι κ)
  | .run a => (s.execution.step a).map fun execution =>
    if a.notifies then { s with execution }.setEvent else { s with execution }
  | .connect j =>
    match s.watchers j with
    | .absent => some (s.setWatcher j (.greeting s.execution.memory))
    | _ => none
  | .sent j =>
    match s.watchers j with
    | .greeting payload => some (s.listen j payload)
    | .sending payload =>
      if s.execution.memory.status.Terminal then some (s.setWatcher j .closing) else some (s.listen j payload)
    | .closing => some (s.setWatcher j .gone)
    | _ => none
  | .drop j =>
    match s.watchers j with
    | .greeting _ | .sending _ | .closing => some (s.setWatcher j .gone)
    | _ => none
  | .resume j =>
    match s.watchers j with
    | .woken _ => some (s.clearEvent j)
    | _ => none

end Watched

variable {ι κ : Type}

/-- No client can go on: each that is connected waits on the event. -/
def Still (s : Watched ι κ) : Prop :=
  ∀ j, s.watchers j = .absent ∨ s.watchers j = .gone ∨ ∃ seen, s.watchers j = .waiting seen

/-- When no client can go on, what each was sent last shows the current status. -/
def Informed (s : Watched ι κ) : Prop :=
  Still s → ∀ j seen, s.watchers j = .waiting seen → seen.status = s.execution.memory.status

/-- A client that is being sent another status than the current one and will wait for the event after that. -/
def Behind (s : Watched ι κ) (j : ι) : Prop :=
  (∃ payload, s.watchers j = .greeting payload ∧ payload.status ≠ s.execution.memory.status) ∨
    ∃ payload, s.watchers j = .sending payload ∧ payload.status ≠ s.execution.memory.status ∧
      ¬s.execution.memory.status.Terminal

/-- The client clears the event in this step. -/
def Clears (s : Watched ι κ) : WatchAction ι κ → ι → Prop
  | .resume i,j => i = j
  | .sent i,j => i = j ∧ s.event = true ∧ ((∃ payload, s.watchers i = .greeting payload) ∨
    (∃ payload, s.watchers i = .sending payload) ∧ ¬s.execution.memory.status.Terminal)
  | _,_ => False

/-- The event is not cleared while it concerns another client too. -/
def Unshared (s : Watched ι κ) (a : WatchAction ι κ) : Prop :=
  ∀ j, Clears s a j → ∀ k, k ≠ j → ¬Behind s k

/-- Who waits has seen the current status, and who does not know it yet will find the event set. -/
structure Alerted (s : Watched ι κ) : Prop where
  waiting : ∀ j seen, s.watchers j = .waiting seen → seen.status = s.execution.memory.status ∧ s.event = false
  behind : ∀ j, Behind s j → s.event = true

/-! ### What a step changes -/

theorem status_unnotified [DecidableEq κ] {s t : Execution κ} {a : ExecutionAction κ} (quiet : a.notifies = false)
    (stepped : s.step a = some t) : t.memory.status = s.memory.status := by
  cases a with
  | finish | cancel => contradiction
  | begin available =>
    cases available with
    | true => contradiction
    | false =>
      simp only [Execution.step] at stepped
      split at stepped
      · cases stepped
        rfl
      · contradiction
  | cancelCommit =>
    simp only [Execution.step] at stepped
    split at stepped
    · split at stepped <;> cases stepped <;> rfl
    · contradiction
  | insert | announce | fetch | commit | publish | emit | cancelFetch | cancelPublish =>
    simp only [Execution.step] at stepped
    split at stepped
    · cases stepped
      rfl
    · contradiction

theorem wake_ne_waiting (w : Watcher) (seen : ExecutionRecord) : w.wake ≠ .waiting seen := by
  cases w <;> simp [Watcher.wake]

theorem alerted_setEvent (s : Watched ι κ) : Alerted s.setEvent :=
  ⟨fun _ seen waits => absurd waits (wake_ne_waiting _ seen),fun _ _ => rfl⟩

theorem alerted_start : Alerted ({} : Watched ι κ) :=
  ⟨fun _ _ waits => by contradiction,fun _ behind => by simp [Behind] at behind⟩

theorem alerted_execution {s : Watched ι κ} (alerted : Alerted s) {execution : Execution κ}
    (same : execution.memory.status = s.execution.memory.status) : Alerted { s with execution } :=
  ⟨fun j seen waits => same ▸ alerted.waiting j seen waits,fun j behind => alerted.behind j (by
    simpa only [Behind,same] using behind)⟩

variable [DecidableEq ι]

@[simp] theorem setWatcher_same (s : Watched ι κ) (j : ι) (w : Watcher) : (s.setWatcher j w).watchers j = w := by
  simp [Watched.setWatcher]

@[simp] theorem setWatcher_other (s : Watched ι κ) (w : Watcher) {j k : ι} (other : k ≠ j) :
    (s.setWatcher j w).watchers k = s.watchers k := by
  simp [Watched.setWatcher,other]

@[simp] theorem setWatcher_execution (s : Watched ι κ) (j : ι) (w : Watcher) :
    (s.setWatcher j w).execution = s.execution := rfl

theorem behind_setWatcher (s : Watched ι κ) (w : Watcher) {j k : ι} (other : k ≠ j) :
    Behind (s.setWatcher j w) k ↔ Behind s k := by
  simp only [Behind,setWatcher_other s w other]
  rfl

/-- A client that moves on without touching the event. -/
theorem Alerted.setWatcher {s : Watched ι κ} (alerted : Alerted s) (j : ι) (w : Watcher)
    (waits : ∀ seen, w = .waiting seen → seen.status = s.execution.memory.status ∧ s.event = false)
    (late : Behind (s.setWatcher j w) j → s.event = true) : Alerted (s.setWatcher j w) := by
  refine ⟨fun k seen here => ?_,fun k behind => ?_⟩
  · by_cases same : k = j
    · rw [same,setWatcher_same] at here
      exact waits seen here
    · rw [setWatcher_other s w same] at here
      exact alerted.waiting k seen here
  · by_cases same : k = j
    · exact late (same ▸ behind)
    · exact alerted.behind k ((behind_setWatcher s w same).mp behind)

/-- Clearing the event is safe where it concerns nobody else. -/
theorem Alerted.clearEvent {s : Watched ι κ} (alerted : Alerted s) (j : ι) (own : ∀ k, k ≠ j → ¬Behind s k) :
    Alerted (s.clearEvent j) := by
  refine ⟨fun k seen here => ?_,fun k behind => ?_⟩
  · by_cases same : k = j
    · rw [same,Watched.clearEvent,setWatcher_same] at here
      contradiction
    · rw [Watched.clearEvent,setWatcher_other _ _ same] at here
      exact ⟨(alerted.waiting k seen here).1,rfl⟩
  · by_cases same : k = j
    · rw [same] at behind
      simp [Behind,Watched.clearEvent,Watched.setWatcher] at behind
    · exact absurd ((behind_setWatcher _ _ same).mp behind) (own k same)

/-- A client that is not behind may wait; one that is finds the event set. -/
theorem Alerted.listen {s : Watched ι κ} (alerted : Alerted s) (j : ι) (seen : ExecutionRecord)
    (current : s.event = false → seen.status = s.execution.memory.status)
    (own : s.event = true → ∀ k, k ≠ j → ¬Behind s k) : Alerted (s.listen j seen) := by
  cases event : s.event with
  | true =>
    simp only [Watched.listen,event,if_true]
    exact alerted.clearEvent j (own event)
  | false =>
    simp only [Watched.listen,event,Bool.false_eq_true,if_false]
    refine alerted.setWatcher j _ (fun seen' same => ?_) fun behind => ?_
    · cases same
      exact ⟨current event,event⟩
    · simp [Behind] at behind

variable [DecidableEq κ]

theorem step_alerted {s t : Watched ι κ} {a : WatchAction ι κ} (alerted : Alerted s) (unshared : Unshared s a)
    (stepped : s.step a = some t) : Alerted t := by
  cases a with
  | run a =>
    obtain ⟨execution,ran,rfl⟩ := Option.map_eq_some_iff.mp stepped
    cases notifies : a.notifies with
    | true => exact alerted_setEvent _
    | false => exact alerted_execution alerted (status_unnotified notifies ran)
  | connect j =>
    simp only [Watched.step] at stepped
    split at stepped
    · cases stepped
      refine alerted.setWatcher j _ (fun _ same => by contradiction) fun behind => ?_
      simp [Behind] at behind
    · contradiction
  | sent j =>
    simp only [Watched.step] at stepped
    split at stepped
    · next payload here =>
      cases stepped
      refine alerted.listen j payload (fun quiet => ?_) fun event => ?_
      · by_contra other
        exact absurd (alerted.behind j (.inl ⟨payload,here,other⟩)) (by simp [quiet])
      · exact unshared j ⟨rfl,event,.inl ⟨payload,here⟩⟩
    · next payload here =>
      split at stepped
      · cases stepped
        exact alerted.setWatcher j _ (fun _ same => by contradiction) fun behind => by simp [Behind] at behind
      · next live =>
        cases stepped
        refine alerted.listen j payload (fun quiet => ?_) fun event => ?_
        · by_contra other
          exact absurd (alerted.behind j (.inr ⟨payload,here,other,live⟩)) (by simp [quiet])
        · exact unshared j ⟨rfl,event,.inr ⟨⟨payload,here⟩,live⟩⟩
    · cases stepped
      exact alerted.setWatcher j _ (fun _ same => by contradiction) fun behind => by simp [Behind] at behind
    · contradiction
  | drop j =>
    simp only [Watched.step] at stepped
    split at stepped
    all_goals first
      | contradiction
      | cases stepped
        exact alerted.setWatcher j _ (fun _ same => by contradiction) fun behind => by simp [Behind] at behind
  | resume j =>
    simp only [Watched.step] at stepped
    split at stepped
    · cases stepped
      exact alerted.clearEvent j (unshared j rfl)
    · contradiction

/-- The event is enough for all clients in the runs in which none of them clears it while it concerns another. -/
theorem watchers_informed (actions : List (WatchAction ι κ)) (s : Watched ι κ)
    (ran : run Watched.step actions {} = some s) (unshared : Throughout Watched.step Unshared actions {}) :
    Informed s := by
  have preserved (s : Watched ι κ) (a : WatchAction ι κ) (t : Watched ι κ) (alerted : Alerted s)
      (fine : Unshared s a) (stepped : s.step a = some t) : Alerted t := step_alerted alerted fine stepped
  have alerted := run_invariant preserved ran alerted_start unshared
  exact fun _ j seen waits => (alerted.waiting j seen waits).1

/-- The first of two clients. -/
abbrev earlyClient : Fin 2 := ⟨0,Nat.zero_lt_two⟩

/-- The other one. -/
abbrev lateClient : Fin 2 := ⟨1,Nat.one_lt_two⟩

/-- A client that connects to a running execution is told so, and once more since the event was set. -/
def firstWatcher : List (WatchAction (Fin 2) Empty) :=
  [.run (.insert true),.run (.announce true),.run (.begin true),.connect earlyClient,.sent earlyClient,
    .sent earlyClient]

theorem firstWatcher_informed : ∃ s, run Watched.step firstWatcher {} = some s ∧ Informed s := by
  have unshared : Throughout Watched.step Unshared firstWatcher {} := by
    refine ⟨fun _ clears => clears.elim,fun _ taken => ?_⟩
    cases taken
    refine ⟨fun _ clears => clears.elim,fun _ taken => ?_⟩
    cases taken
    refine ⟨fun _ clears => clears.elim,fun _ taken => ?_⟩
    cases taken
    refine ⟨fun _ clears => clears.elim,fun _ taken => ?_⟩
    cases taken
    refine ⟨?_,fun _ taken => ?_⟩
    · rintro j ⟨rfl,-⟩ k other behind
      obtain rfl | rfl := Fin.exists_fin_two.mp ⟨k,rfl⟩
      · exact absurd rfl other
      rcases behind with ⟨_,greeted,_⟩ | ⟨_,served,_⟩
      · contradiction
      · contradiction
    cases taken
    refine ⟨?_,fun _ _ => trivial⟩
    rintro j ⟨-,event,-⟩
    contradiction
  exact ⟨_,rfl,watchers_informed firstWatcher _ rfl unshared⟩

/-- The first client waits and the second is being greeted when the execution completes; the first clears the
event for both. -/
def lateGreeting : List (WatchAction (Fin 2) Empty) :=
  firstWatcher ++ [.connect lateClient,.run (.fetch true),.run (.commit true),.run (.publish true),
    .run (.finish (.ok {}) none),.resume earlyClient,.sent earlyClient,.sent earlyClient,.sent lateClient]

/-- The second client waits for good, and has not been told that the execution is completed. -/
theorem lateGreeting_loses_completion :
    ¬∀ (actions : List (WatchAction (Fin 2) Empty)) (s : Watched (Fin 2) Empty),
      run Watched.step actions {} = some s → Informed s := by
  intro informed
  have told := informed lateGreeting _ rfl (Fin.forall_fin_two.mpr ⟨.inr (.inl rfl),.inr (.inr ⟨_,rfl⟩)⟩) lateClient _ rfl
  contradiction

end IceOS
