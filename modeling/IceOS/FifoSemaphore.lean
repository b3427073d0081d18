import Mathlib.Algebra.BigOperators.Group.Finset.Basic
import Mathlib.Data.Fintype.BigOperators
import Mathlib.Logic.Relation

/-! A counting semaphore that hands its slots over in FIFO order, and tasks that take
several slots one at a time and keep those they have while they wait for the rest.
The wait queue holds every suspended task, also one that was already handed a slot
and has not run since; such a task still makes newcomers queue behind it. -/
namespace FifoSemaphore

variable {ι : Type} [DecidableEq ι]

/-- Where a task is. `held` counts the slots it took before the one it waits for. -/
inductive Phase where
  | created
  | queued (held : Nat)
  | woken (held : Nat)
  | inside
  | exited
  deriving DecidableEq, Repr

namespace Phase

/-- Slots a task of this weight owns; a woken task owns the slot it was handed. -/
def held (weight : Nat) : Phase → Nat
  | .created | .exited => 0
  | .queued h => h
  | .woken h => h + 1
  | .inside => weight

@[simp] theorem held_created (w : Nat) : held w .created = 0 := rfl
@[simp] theorem held_queued (w h : Nat) : held w (.queued h) = h := rfl
@[simp] theorem held_woken (w h : Nat) : held w (.woken h) = h + 1 := rfl
@[simp] theorem held_inside (w : Nat) : held w .inside = w := rfl
@[simp] theorem held_exited (w : Nat) : held w .exited = 0 := rfl

def pending : Phase → Bool
  | .queued _ => true
  | _ => false

def wake : Phase → Phase
  | .queued h => .woken h
  | p => p

end Phase

structure State (ι : Type) where
  value : Nat
  waiters : List ι
  phase : ι → Phase

namespace State

def initial (slots : Nat) : State ι := ⟨slots, [], fun _ => .created⟩

/-- A newcomer may not take a slot past a task that is still in the queue. -/
def locked (s : State ι) : Bool := s.value == 0 || !s.waiters.isEmpty

def install (s : State ι) (i : ι) (p : Phase) : State ι :=
  { s with phase := Function.update s.phase i p }

/-- Hand one slot to a task: the slot leaves the counter with the handover. -/
def grant (s : State ι) (i : ι) : State ι :=
  { s.install i (s.phase i).wake with value := s.value - 1 }

def wakeUpNext (s : State ι) : Option (State ι) :=
  (s.waiters.find? fun i => (s.phase i).pending).map s.grant

def release (s : State ι) : State ι :=
  let freed := { s with value := s.value + 1 }
  freed.wakeUpNext.getD freed

def releases : Nat → State ι → State ι
  | 0, s => s
  | n + 1, s => releases n s.release

/-- A resumed task passes one free slot on, to the next pending task if there is one. -/
def wakeIfFree (s : State ι) : State ι := if 0 < s.value then s.wakeUpNext.getD s else s

/-- Take `need` further slots in turn, suspending at the first that is not free. -/
def takeSlots (i : ι) (held : Nat) : Nat → State ι → State ι
  | 0, s => s.install i .inside
  | need + 1, s =>
    if s.locked then { s.install i (.queued held) with waiters := s.waiters ++ [i] }
    else takeSlots i (held + 1) need { s with value := s.value - 1 }

/-- Run one task to its next suspension. A pending or finished task cannot run. -/
def step (weight : ι → Nat) (i : ι) (s : State ι) : Option (State ι) :=
  match s.phase i with
  | .created => some (takeSlots i 0 (weight i) s)
  | .woken h =>
    let left := { s with waiters := s.waiters.erase i }
    some (takeSlots i (h + 1) (weight i - (h + 1)) left.wakeIfFree)
  | .inside => some (releases (weight i) (s.install i .exited))
  | .queued _ | .exited => none

end State

open State

def Step (weight : ι → Nat) (s t : State ι) : Prop := ∃ i, step weight i s = some t

abbrev Steps (weight : ι → Nat) : State ι → State ι → Prop := Relation.ReflTransGen (Step weight)

def Reachable (weight : ι → Nat) (slots : Nat) (s : State ι) : Prop :=
  Steps weight (initial slots) s

/-- Run the tasks of a schedule one after another. -/
def run (weight : ι → Nat) : List ι → State ι → Option (State ι)
  | [], s => some s
  | i :: rest, s => (step weight i s).bind (run weight rest)

theorem steps_of_run {weight : ι → Nat} {schedule : List ι} {s t : State ι}
    (ran : run weight schedule s = some t) : Steps weight s t := by
  induction schedule generalizing s with
  | nil => cases ran; exact .refl
  | cons i rest ih =>
    obtain ⟨u,first,later⟩ := Option.bind_eq_some_iff.mp ran
    exact .head ⟨i,first⟩ (ih later)

def Blocked (s : State ι) (i : ι) : Prop := (s.phase i).pending = true

/-- Some task is unfinished and every unfinished task waits for a slot. -/
def Deadlock (s : State ι) : Prop :=
  (∃ i, s.phase i ≠ .exited) ∧ ∀ i, s.phase i ≠ .exited → Blocked s i

/-! ### What each operation can do -/

@[simp] theorem install_value (s : State ι) (i : ι) (p : Phase) : (s.install i p).value = s.value := rfl
@[simp] theorem install_waiters (s : State ι) (i : ι) (p : Phase) :
    (s.install i p).waiters = s.waiters := rfl
@[simp] theorem install_same (s : State ι) (i : ι) (p : Phase) : (s.install i p).phase i = p := by
  simp [install]
@[simp] theorem install_other (s : State ι) {i j : ι} (p : Phase) (h : j ≠ i) :
    (s.install i p).phase j = s.phase j := by simp [install,h]

theorem pending_iff {p : Phase} : p.pending = true ↔ ∃ h, p = .queued h := by
  cases p <;> simp [Phase.pending]

/-- Waking takes the first pending task of the queue, and nothing else changes. -/
theorem wakeUpNext_some {s t : State ι} (woke : s.wakeUpNext = some t) :
    ∃ i h, i ∈ s.waiters ∧ s.phase i = .queued h ∧
      t = { s.install i (.woken h) with value := s.value - 1 } := by
  obtain ⟨i,found,rfl⟩ := Option.map_eq_some_iff.mp woke
  obtain ⟨h,queued⟩ := pending_iff.mp (by simpa using List.find?_some found)
  exact ⟨i,h,List.mem_of_find?_eq_some found,queued,by simp [grant,queued,Phase.wake]⟩

theorem wakeUpNext_none {s : State ι} :
    s.wakeUpNext = none ↔ ∀ i ∈ s.waiters, ¬Blocked s i := by
  simp [wakeUpNext,List.find?_eq_none,Blocked]

/-- `t` is `s` with `gained` further slots, some of its pending tasks woken with one each. -/
structure Hands [Fintype ι] (weight : ι → Nat) (gained : Nat) (s t : State ι) : Prop where
  waiters : t.waiters = s.waiters
  phase : ∀ j, t.phase j = s.phase j ∨ ∃ h, s.phase j = .queued h ∧ t.phase j = .woken h
  slots : t.value + ∑ j, (t.phase j).held (weight j) =
    s.value + ∑ j, (s.phase j).held (weight j) + gained

section Accounting

variable [Fintype ι] (weight : ι → Nat)

/-- All slots in existence: the free ones and those the tasks own. -/
def total (s : State ι) : Nat := s.value + ∑ j, (s.phase j).held (weight j)

/-- Changing one task's phase moves only that task's slots. -/
theorem held_change {s t : State ι} (i : ι) (others : ∀ j, j ≠ i → t.phase j = s.phase j) :
    ∑ j, (t.phase j).held (weight j) + (s.phase i).held (weight i) =
      ∑ j, (s.phase j).held (weight j) + (t.phase i).held (weight i) := by
  have split (f : ι → Nat) := Finset.add_sum_erase Finset.univ f (Finset.mem_univ i)
  have rest : ∑ j ∈ Finset.univ.erase i, (t.phase j).held (weight j) =
      ∑ j ∈ Finset.univ.erase i, (s.phase j).held (weight j) :=
    Finset.sum_congr rfl fun j member => by rw [others j (Finset.ne_of_mem_erase member)]
  rw [← split fun j => (s.phase j).held (weight j),
    ← split fun j => (t.phase j).held (weight j),rest]
  omega

omit [DecidableEq ι] in
theorem Hands.refl (s : State ι) : Hands weight 0 s s := ⟨rfl,fun _ => .inl rfl,rfl⟩

variable {weight} in
omit [DecidableEq ι] in
theorem Hands.trans {s t u : State ι} (first : Hands weight a s t) (second : Hands weight b t u) :
    Hands weight (a + b) s u := by
  refine ⟨second.waiters.trans first.waiters,fun j => ?_,?_⟩
  · rcases first.phase j with same | ⟨h,queued,woken⟩
    · rw [← same]; exact second.phase j
    · rcases second.phase j with same | ⟨k,queued',_⟩
      · exact .inr ⟨h,queued,same.trans woken⟩
      · rw [woken] at queued'; contradiction
  · have := first.slots; have := second.slots; omega

theorem wakeUpNext_hands {s t : State ι} (free : 0 < s.value) (woke : s.wakeUpNext = some t) :
    Hands weight 0 s t ∧ t.value + 1 = s.value ∧
      ∃ j ∈ s.waiters, ∃ h, t.phase j = .woken h := by
  obtain ⟨i,h,member,queued,rfl⟩ := wakeUpNext_some woke
  refine ⟨⟨rfl,fun j => ?_,?_⟩,Nat.sub_add_cancel free,i,member,h,install_same ..⟩
  · by_cases same : j = i
    · subst j; exact .inr ⟨h,queued,install_same ..⟩
    · exact .inl (install_other s _ same)
  · have moved := held_change weight i fun j other => install_other s (.woken h) other
    simp only [queued,install_same,Phase.held_queued,Phase.held_woken] at moved
    simp only
    omega

theorem release_hands (s : State ι) : Hands weight 1 s s.release := by
  have gain : Hands weight 1 s { s with value := s.value + 1 } :=
    ⟨rfl,fun _ => .inl rfl,by simp only; omega⟩
  simp only [release]
  cases woke : ({ s with value := s.value + 1 } : State ι).wakeUpNext with
  | none => exact gain
  | some t => exact gain.trans (wakeUpNext_hands weight (Nat.succ_pos _) woke).1

theorem releases_hands (n : Nat) (s : State ι) : Hands weight n s (releases n s) := by
  induction n generalizing s with
  | zero => exact Hands.refl weight s
  | succ n ih => simpa [releases,Nat.add_comm] using (release_hands weight s).trans (ih s.release)

theorem wakeIfFree_hands (s : State ι) : Hands weight 0 s s.wakeIfFree := by
  simp only [wakeIfFree]
  split
  · next free =>
    cases woke : s.wakeUpNext with
    | none => exact Hands.refl weight s
    | some t => exact (wakeUpNext_hands weight free woke).1
  · exact Hands.refl weight s

end Accounting

/-- Everything `takeSlots` can do: it enters with all its slots, or it stops in the
queue after `k` of them. It only gets past its first slot when the queue is empty. -/
theorem takeSlots_cases (i : ι) (held need : Nat) (s : State ι) :
    (∀ j, j ≠ i → (takeSlots i held need s).phase j = s.phase j) ∧
    ((takeSlots i held need s).phase i = .inside ∧
        (takeSlots i held need s).waiters = s.waiters ∧
        (takeSlots i held need s).value + need = s.value ∧ (need = 0 ∨ s.waiters = []) ∨
      ∃ k, k < need ∧ (takeSlots i held need s).phase i = .queued (held + k) ∧
        (takeSlots i held need s).waiters = s.waiters ++ [i] ∧
        (takeSlots i held need s).value + k = s.value ∧
        ((takeSlots i held need s).value = 0 ∨ s.waiters ≠ []) ∧ (k = 0 ∨ s.waiters = [])) := by
  induction need generalizing held s with
  | zero => exact ⟨fun j other => install_other s _ other,.inl ⟨install_same ..,rfl,rfl,.inl rfl⟩⟩
  | succ need ih =>
    cases full : s.locked with
    | true =>
      have queues : takeSlots i held (need + 1) s =
        { s.install i (.queued held) with waiters := s.waiters ++ [i] } := by simp [takeSlots,full]
      rw [queues]
      exact ⟨fun j other => install_other s _ other,
        .inr ⟨0,by omega,install_same ..,rfl,rfl,by simpa [locked] using full,.inl rfl⟩⟩
    | false =>
      have empty : s.value ≠ 0 ∧ s.waiters = [] := by simpa [locked] using full
      obtain ⟨others,entered | ⟨k,below,queued,waiters,value,rest,_⟩⟩ :=
        ih (held + 1) { s with value := s.value - 1 }
      all_goals simp only [takeSlots,full,Bool.false_eq_true,if_false]
      · obtain ⟨inside,waiters,value,_⟩ := entered
        exact ⟨others,.inl ⟨inside,waiters,by simp only at value; omega,.inr empty.2⟩⟩
      · exact ⟨others,.inr ⟨k + 1,by omega,by rw [queued]; congr 1; omega,waiters,
          by simp only at value; omega,rest,.inr empty.2⟩⟩

/-! ### The invariant of every run -/

def Waiting (s : State ι) (i : ι) : Prop := ∃ h, s.phase i = .queued h ∨ s.phase i = .woken h

/-- A free slot next to a pending task is only there while a woken one is still to run. -/
def Alert (s : State ι) : Prop :=
  0 < s.value → (∃ i ∈ s.waiters, Blocked s i) → ∃ j ∈ s.waiters, ∃ h, s.phase j = .woken h

structure Invariant [Fintype ι] (weight : ι → Nat) (slots : Nat) (s : State ι) : Prop where
  slots : total weight s = slots
  queue : ∀ i, i ∈ s.waiters ↔ Waiting s i
  nodup : s.waiters.Nodup
  below : ∀ i h, s.phase i = .queued h ∨ s.phase i = .woken h → h < weight i
  alert : Alert s

theorem release_alert (s : State ι) : Alert s.release := by
  simp only [release]
  cases woke : ({ s with value := s.value + 1 } : State ι).wakeUpNext with
  | none => exact fun _ ⟨i,member,blocked⟩ => absurd blocked (wakeUpNext_none.mp woke i member)
  | some t =>
    obtain ⟨i,h,member,_,rfl⟩ := wakeUpNext_some woke
    exact fun _ _ => ⟨i,member,h,install_same ..⟩

theorem wakeIfFree_alert (s : State ι) : Alert s.wakeIfFree := by
  simp only [wakeIfFree]
  split
  · cases woke : s.wakeUpNext with
    | none => exact fun _ ⟨i,member,blocked⟩ => absurd blocked (wakeUpNext_none.mp woke i member)
    | some t =>
      obtain ⟨i,h,member,_,rfl⟩ := wakeUpNext_some woke
      exact fun _ _ => ⟨i,member,h,install_same ..⟩
  · next free => exact fun held => absurd held free

theorem releases_alert (n : Nat) (s : State ι) (alert : Alert s) : Alert (releases n s) := by
  induction n generalizing s with
  | zero => exact alert
  | succ n ih => exact ih _ (release_alert s)

omit [DecidableEq ι] in
theorem Hands.waiting [Fintype ι] {weight : ι → Nat} {s t : State ι}
    (hands : Hands weight gained s t) (i : ι) : Waiting t i ↔ Waiting s i := by
  rcases hands.phase i with same | ⟨h,queued,woken⟩
  · simp [Waiting,same]
  · simp [Waiting,queued,woken]

omit [DecidableEq ι] in
theorem Hands.below [Fintype ι] {weight : ι → Nat} {s t : State ι} (hands : Hands weight gained s t)
    (i : ι) (below : ∀ h, s.phase i = .queued h ∨ s.phase i = .woken h → h < weight i) :
    ∀ h, t.phase i = .queued h ∨ t.phase i = .woken h → h < weight i := by
  rcases hands.phase i with same | ⟨k,queued,woken⟩
  · rwa [same]
  · intro h waits
    have := below k (.inl queued)
    simp_all

section Preservation

variable [Fintype ι] {weight : ι → Nat} {slots : Nat}

/-- Taking slots restores the invariant for a task that is in no queue and owns
`held` slots, whatever its phase said before. -/
theorem takeSlots_invariant (i : ι) (held need : Nat) (s : State ι)
    (whole : held + need = weight i) (owns : (s.phase i).held (weight i) = held)
    (outside : i ∉ s.waiters) (accounted : total weight s = slots) (nodup : s.waiters.Nodup)
    (queue : ∀ j, j ≠ i → (j ∈ s.waiters ↔ Waiting s j))
    (below : ∀ j, j ≠ i → ∀ h, s.phase j = .queued h ∨ s.phase j = .woken h → h < weight j)
    (alert : Alert s) : Invariant weight slots (takeSlots i held need s) := by
  obtain ⟨others,ends⟩ := takeSlots_cases i held need s
  generalize takeSlots i held need s = t at others ends
  have moved := held_change weight i others
  have apart : ∀ j ∈ s.waiters, j ≠ i := fun j member same => outside (same ▸ member)
  have waiting (j : ι) (other : j ≠ i) : Waiting t j ↔ Waiting s j := by simp [Waiting,others j other]
  simp only [total] at accounted
  rcases ends with ⟨inside,waiters,value,entry⟩ | ⟨k,few,queued,waiters,value,full,entry⟩
  · rw [inside,owns,Phase.held_inside] at moved
    refine ⟨by simp only [total]; omega,fun j => ?_,waiters ▸ nodup,fun j h => ?_,?_⟩
    · by_cases same : j = i
      · subst j; simp [waiters,outside,Waiting,inside]
      · rw [waiters,queue j same,waiting j same]
    · by_cases same : j = i
      · subst j; simp [inside]
      · rw [others j same]; exact below j same h
    · intro free ⟨j,member,blocked⟩
      rw [waiters] at member ⊢
      rcases entry with none | empty
      · obtain ⟨w,memberW,h,woken⟩ := alert (by omega)
          ⟨j,member,by simpa only [Blocked,others j (apart j member)] using blocked⟩
        exact ⟨w,memberW,h,by rw [others w (apart w memberW),woken]⟩
      · simp [empty] at member
  · rw [queued,owns,Phase.held_queued] at moved
    refine ⟨by simp only [total]; omega,fun j => ?_,?_,fun j h => ?_,?_⟩
    · by_cases same : j = i
      · subst j; simp [waiters,Waiting,queued]
      · rw [waiting j same,← queue j same]; simp [waiters,same]
    · rw [waiters]
      exact List.nodup_append.mpr ⟨nodup,List.nodup_singleton i,fun a inA b inB => by
        rw [List.mem_singleton.mp inB]; exact apart a inA⟩
    · by_cases same : j = i
      · subst j; simp only [queued]; simp; omega
      · rw [others j same]; exact below j same h
    · intro free _
      have busy : s.waiters ≠ [] := full.resolve_left (by omega)
      have first : k = 0 := entry.resolve_right busy
      by_cases pending : ∃ j ∈ s.waiters, Blocked s j
      · obtain ⟨w,memberW,h,woken⟩ := alert (by omega) pending
        exact ⟨w,by simp [waiters,memberW],h,by rw [others w (apart w memberW),woken]⟩
      · obtain ⟨w,memberW⟩ := List.exists_mem_of_ne_nil _ busy
        obtain ⟨h,isQueued | woken⟩ := (queue w (apart w memberW)).mp memberW
        · exact absurd ⟨w,memberW,pending_iff.mpr ⟨h,isQueued⟩⟩ pending
        · exact ⟨w,by simp [waiters,memberW],h,by rw [others w (apart w memberW),woken]⟩

omit [DecidableEq ι] in
theorem initial_invariant (slots : Nat) : Invariant weight slots (initial slots) := by
  constructor <;> simp [initial,total,Waiting,Alert]

theorem step_invariant {s t : State ι} (valid : Invariant weight slots s) (i : ι)
    (ran : step weight i s = some t) : Invariant weight slots t := by
  simp only [step] at ran
  cases phase : s.phase i with
  | queued h => simp [phase] at ran
  | exited => simp [phase] at ran
  | created =>
    simp only [phase,Option.some.injEq] at ran
    subst t
    have outside : i ∉ s.waiters := by simp [valid.queue i,Waiting,phase]
    exact takeSlots_invariant i 0 (weight i) s (Nat.zero_add _) (by simp [phase]) outside
      valid.slots valid.nodup (fun j _ => valid.queue j) (fun j _ => valid.below j) valid.alert
  | inside =>
    simp only [phase,Option.some.injEq] at ran
    subst t
    have outside : i ∉ s.waiters := by simp [valid.queue i,Waiting,phase]
    have hands := releases_hands weight (weight i) (s.install i .exited)
    have moved := held_change weight i fun j other => install_other s .exited other
    have alert : Alert (s.install i .exited) := by
      have same (j : ι) (member : j ∈ s.waiters) := install_other s .exited
        (show j ≠ i from fun eq => outside (eq ▸ member))
      intro free ⟨j,member,blocked⟩
      obtain ⟨w,memberW,h,woken⟩ := valid.alert free
        ⟨j,member,by simpa only [Blocked,same j member] using blocked⟩
      exact ⟨w,memberW,h,by rw [same w memberW,woken]⟩
    refine ⟨?_,fun j => ?_,hands.waiters ▸ valid.nodup,fun j => hands.below j ?_,
      releases_alert _ _ alert⟩
    · have := hands.slots
      have := valid.slots
      simp only [phase,install_same,Phase.held_inside,Phase.held_exited,install_value,total] at *
      omega
    · rw [hands.waiters,hands.waiting,install_waiters,valid.queue j]
      by_cases same : j = i
      · subst j; simp [Waiting,phase]
      · simp [Waiting,install_other s .exited same]
    · by_cases same : j = i
      · subst j; simp
      · rw [install_other s .exited same]; exact valid.below j
  | woken h =>
    simp only [phase,Option.some.injEq] at ran
    subst t
    have fits := valid.below i h (.inr phase)
    have hands := wakeIfFree_hands weight { s with waiters := s.waiters.erase i }
    have alert := wakeIfFree_alert { s with waiters := s.waiters.erase i }
    generalize wakeIfFree { s with waiters := s.waiters.erase i } = m at hands alert
    have kept : m.phase i = .woken h := by
      rcases hands.phase i with same | ⟨k,queued,_⟩
      · exact same.trans phase
      · simp [phase] at queued
    have waiters : m.waiters = s.waiters.erase i := hands.waiters
    refine takeSlots_invariant i (h + 1) (weight i - (h + 1)) m (by omega) (by simp [kept]) ?_ ?_ ?_
      ?_ (fun j _ => hands.below j (valid.below j)) alert
    · rw [waiters]; exact valid.nodup.not_mem_erase
    · have := hands.slots
      have := valid.slots
      simp only [total] at *
      omega
    · rw [waiters]; exact valid.nodup.erase i
    · intro j other
      rw [waiters,List.mem_erase_of_ne other,valid.queue j]
      exact (hands.waiting j).symm

theorem reachable_invariant {s : State ι} (run : Reachable weight slots s) :
    Invariant weight slots s := by
  induction run with
  | refl => exact initial_invariant slots
  | tail _ taken ih => obtain ⟨i,ran⟩ := taken; exact step_invariant ih i ran

end Preservation

end FifoSemaphore
