import IceOS.FifoSemaphore
import Mathlib.Algebra.GroupWithZero.Nat
import Mathlib.Algebra.Order.BigOperators.Group.Finset

/-! When tasks of weight one and two can starve each other on a FIFO semaphore: the
exact set of task families for which some schedule ends with every unfinished task
waiting for a slot. -/
namespace FifoSemaphore

open State

variable {ι : Type} [DecidableEq ι] [Fintype ι] {weight : ι → Nat} {slots : Nat}

/-- Tasks that need more than one slot. -/
def heavy (weight : ι → Nat) : Finset ι := Finset.univ.filter fun i => weight i = 2

/-- With one slot a single heavy task starves; otherwise there must be as many heavy
tasks as slots, next to tasks that can fill all the slots before them. -/
def Starvable (weight : ι → Nat) (slots : Nat) : Prop :=
  (slots = 1 ∧ 1 ≤ (heavy weight).card) ∨
    (slots ≤ (heavy weight).card ∧ 3 * slots ≤ ∑ i, weight i)

instance (weight : ι → Nat) (slots : Nat) : Decidable (Starvable weight slots) :=
  inferInstanceAs (Decidable (_ ∨ _))

theorem step_other {s t : State ι} {i j : ι} (ran : step weight i s = some t) (other : j ≠ i) :
    t.phase j = s.phase j ∨ ∃ h, s.phase j = .queued h ∧ t.phase j = .woken h := by
  simp only [step] at ran
  cases phase : s.phase i with
  | queued h => simp [phase] at ran
  | exited => simp [phase] at ran
  | created =>
    simp only [phase,Option.some.injEq] at ran
    exact .inl (ran ▸ (takeSlots_cases i 0 (weight i) s).1 j other)
  | inside =>
    simp only [phase,Option.some.injEq] at ran
    have hands := releases_hands weight (weight i) (s.install i .exited)
    rw [ran] at hands
    simpa only [install_other s _ other] using hands.phase j
  | woken h =>
    simp only [phase,Option.some.injEq] at ran
    have hands := wakeIfFree_hands weight { s with waiters := s.waiters.erase i }
    rw [← ran,(takeSlots_cases i (h + 1) _ _).1 j other]
    exact hands.phase j

/-- Of the tasks in `D`, the first to be granted a slot is never stuck with one slot
while another of them holds one too. -/
inductive Ahead (D : Finset ι) (s : State ι) : Prop where
  | untouched (empty : s.waiters = []) (fresh : ∀ i ∈ D, s.phase i = .created)
      (smooth : ∀ i, s.phase i = .created ∨ s.phase i = .inside ∨ s.phase i = .exited)
  | first (d : ι) (rest : List ι) (member : d ∈ D) (queued : s.phase d = .queued 1)
      (full : s.value = 0) (head : s.waiters = d :: rest)
      (pending : ∀ i ∈ s.waiters, Blocked s i)
      (others : ∀ i ∈ D, i ≠ d → s.phase i = .created ∨ s.phase i = .queued 0)
  | through (d : ι) (member : d ∈ D)
      (passed : s.phase d = .woken 1 ∨ s.phase d = .inside ∨ s.phase d = .exited)

omit [DecidableEq ι] in
theorem held_le {s : State ι} (valid : Invariant weight slots s) (i : ι) :
    (s.phase i).held (weight i) ≤ weight i := by
  cases phase : s.phase i with
  | queued h => exact Nat.le_of_lt (valid.below i h (.inl phase))
  | woken h => exact valid.below i h (.inr phase)
  | _ => simp

/-- If the tasks of `D` own nothing, a full semaphore is filled by the others. -/
theorem full_weight {s : State ι} (valid : Invariant weight slots s) (D : Finset ι)
    (idle : ∀ i ∈ D, (s.phase i).held (weight i) = 0) (full : s.value = 0) :
    slots ≤ ∑ i ∈ Dᶜ, weight i := by
  have accounted := valid.slots
  simp only [total,full,Nat.zero_add] at accounted
  rw [← accounted,← Finset.sum_add_sum_compl D,Finset.sum_eq_zero idle,Nat.zero_add]
  exact Finset.sum_le_sum fun i _ => held_le valid i

/-- Once a task of `D` has its slots or is gone, it stays so. -/
theorem through_step {D : Finset ι} {s t : State ι} (two : ∀ i ∈ D, weight i = 2) {i : ι}
    (ran : step weight i s = some t) {d : ι} (member : d ∈ D)
    (passed : s.phase d = .woken 1 ∨ s.phase d = .inside ∨ s.phase d = .exited) : Ahead D t := by
  by_cases same : i = d
  · subst i
    refine .through d member ?_
    simp only [step] at ran
    rcases passed with woken | inside | exited
    · simp only [woken,two d member,Option.some.injEq] at ran
      subst t
      simp [takeSlots]
    · simp only [inside,Option.some.injEq] at ran
      subst t
      rcases (releases_hands weight (weight d) (s.install d .exited)).phase d with
        same | ⟨h,queued,_⟩
      · simp [same]
      · simp at queued
    · simp [exited] at ran
  · refine .through d member ?_
    rcases step_other ran (Ne.symm same) with same | ⟨h,queued,_⟩
    · simpa only [same] using passed
    · simp [queued] at passed

/-- The task of `D` at the head of the queue is woken by the first task that leaves. -/
theorem first_step {D : Finset ι} {s t : State ι} (valid : Invariant weight slots s) (positive : ∀ i, 1 ≤ weight i)
    {i : ι} (ran : step weight i s = some t) {d : ι} {rest : List ι} (member : d ∈ D) (queued : s.phase d = .queued 1)
    (full : s.value = 0) (head : s.waiters = d :: rest) (pending : ∀ i ∈ s.waiters, Blocked s i)
    (others : ∀ i ∈ D, i ≠ d → s.phase i = .created ∨ s.phase i = .queued 0) : Ahead D t := by
  simp only [step] at ran
  cases phase : s.phase i with
  | queued h => simp [phase] at ran
  | exited => simp [phase] at ran
  | woken h =>
    have inside : i ∈ s.waiters := (valid.queue i).mpr ⟨h,.inr phase⟩
    have := pending i inside
    simp [Blocked,phase,Phase.pending] at this
  | created =>
    simp only [phase,Option.some.injEq] at ran
    obtain ⟨same,⟨_,_,spent,_⟩ | ⟨k,_,queuedI,waiters,value,_,_⟩⟩ := takeSlots_cases i 0 (weight i) s
    · have := positive i; omega
    · rw [ran] at same queuedI waiters value
      have other : d ≠ i := by rintro rfl; simp [phase] at queued
      have none : k = 0 := by omega
      subst none
      refine .first d (rest ++ [i]) member (by rw [same d other,queued]) (by omega)
        (by rw [waiters,head]; rfl) (fun j inJ => ?_) (fun j inD ne => ?_)
      · rw [waiters] at inJ
        rcases List.mem_append.mp inJ with old | new
        · have apart : j ≠ i := by
            rintro rfl
            obtain ⟨h,waits | waits⟩ := (valid.queue j).mp old <;> simp [phase] at waits
          simpa only [Blocked,same j apart] using pending j old
        · rw [List.mem_singleton.mp new]; simp [Blocked,queuedI,Phase.pending]
      · by_cases eq : j = i
        · subst j; exact .inr queuedI
        · rw [same j eq]; exact others j inD ne
  | inside =>
    simp only [phase,Option.some.injEq] at ran
    have other : d ≠ i := by rintro rfl; simp [phase] at queued
    obtain ⟨n,some⟩ : ∃ n, weight i = n + 1 := ⟨weight i - 1,by have := positive i; omega⟩
    have woken : (s.install i .exited).release.phase d = .woken 1 := by
      simp [release,wakeUpNext,head,queued,Phase.pending,grant,Phase.wake,
        install,other]
    rw [some,releases] at ran
    refine .through d member (.inl ?_)
    rcases (releases_hands weight n (s.install i .exited).release).phase d with
      same | ⟨h,waits,_⟩
    · rw [← ran,same,woken]
    · simp [woken] at waits

/-- The first task that has to queue is one of `D`. -/
theorem untouched_step {D : Finset ι} {s t : State ι} (valid : Invariant weight slots s)
    (two : ∀ i ∈ D, weight i = 2) (short : ∑ i ∈ Dᶜ, weight i < slots) {i : ι}
    (ran : step weight i s = some t) (empty : s.waiters = []) (fresh : ∀ i ∈ D, s.phase i = .created)
    (smooth : ∀ i, s.phase i = .created ∨ s.phase i = .inside ∨ s.phase i = .exited) : Ahead D t := by
  have valid' := step_invariant valid i ran
  have room : s.value ≠ 0 := fun full => by
    have := full_weight valid D (fun i inD => by simp [fresh i inD]) full
    omega
  simp only [step] at ran
  rcases smooth i with phase | phase | phase
  · simp only [phase,Option.some.injEq] at ran
    obtain ⟨same,⟨inside,waiters,_,_⟩ | ⟨k,few,queued,waiters,value,full,_⟩⟩ :=
      takeSlots_cases i 0 (weight i) s
    all_goals rw [ran] at same waiters
    · rw [ran] at inside
      by_cases member : i ∈ D
      · exact .through i member (.inr (.inl inside))
      · refine .untouched (waiters.trans empty) (fun j inD => ?_) (fun j => ?_)
        · rw [same j fun eq => member (eq ▸ inD),fresh j inD]
        · by_cases eq : j = i
          · subst j; exact .inr (.inl inside)
          · rw [same j eq]; exact smooth j
    · rw [ran] at queued value full
      have full : t.value = 0 := full.resolve_right (by simp [empty])
      have member : i ∈ D := by
        by_contra outside
        have idle : ∀ j ∈ D, (t.phase j).held (weight j) = 0 := fun j inD => by
          rw [same j fun eq => outside (eq ▸ inD),fresh j inD]; rfl
        have := full_weight valid' D idle full
        omega
      have one : k = 1 := by have := two i member; omega
      subst one
      refine .first i [] member (by simpa using queued) full (by simp [waiters,empty])
        (fun j inJ => ?_) (fun j inD ne => .inl (by rw [same j ne,fresh j inD]))
      have : j = i := by simpa [waiters,empty] using inJ
      simp [this,Blocked,queued,Phase.pending]
  · simp only [phase,Option.some.injEq] at ran
    have hands := releases_hands weight (weight i) (s.install i .exited)
    rw [ran] at hands
    have still (j : ι) : t.phase j = (s.install i .exited).phase j := by
      rcases hands.phase j with same | ⟨h,queued,_⟩
      · exact same
      · by_cases eq : j = i
        · subst j; simp at queued
        · rw [install_other s _ eq] at queued
          rcases smooth j with p | p | p <;> simp [queued] at p
    refine .untouched (hands.waiters.trans empty) (fun j inD => ?_) (fun j => ?_)
    · have apart : j ≠ i := by rintro rfl; simp [fresh j inD] at phase
      rw [still,install_other s _ apart,fresh j inD]
    · rw [still]
      by_cases eq : j = i
      · subst j; simp
      · rw [install_other s _ eq]; exact smooth j
  · simp [phase] at ran

theorem step_ahead {D : Finset ι} {s t : State ι} (valid : Invariant weight slots s)
    (two : ∀ i ∈ D, weight i = 2) (positive : ∀ i, 1 ≤ weight i)
    (short : ∑ i ∈ Dᶜ, weight i < slots) {i : ι} (ran : step weight i s = some t)
    (ahead : Ahead D s) : Ahead D t := by
  cases ahead with
  | through d member passed => exact through_step two ran member passed
  | first d rest member queued full head pending others =>
    exact first_step valid positive ran member queued full head pending others
  | untouched empty fresh smooth => exact untouched_step valid two short ran empty fresh smooth

theorem reachable_ahead {D : Finset ι} (two : ∀ i ∈ D, weight i = 2) (positive : ∀ i, 1 ≤ weight i)
    (short : ∑ i ∈ Dᶜ, weight i < slots) {s : State ι} (run : Reachable weight slots s) :
    Ahead D s := by
  induction run with
  | refl => exact .untouched rfl (fun _ _ => rfl) fun _ => .inl rfl
  | tail before taken ih =>
    obtain ⟨i,ran⟩ := taken
    exact step_ahead (reachable_invariant before) two positive short ran ih

omit [DecidableEq ι] in
/-- In a deadlock no slot is free, and as many tasks as there are slots hold one each. -/
theorem deadlock_holders {s : State ι} (light : ∀ i, weight i = 1 ∨ weight i = 2)
    (valid : Invariant weight slots s) (dead : Deadlock s) :
    ∃ D : Finset ι, (∀ i ∈ D, s.phase i = .queued 1 ∧ weight i = 2) ∧ D.card = slots := by
  obtain ⟨⟨i,unfinished⟩,stuck⟩ := dead
  have queued (j : ι) (live : s.phase j ≠ .exited) : ∃ h, s.phase j = .queued h :=
    pending_iff.mp (stuck j live)
  have full : s.value = 0 := by
    by_contra free
    have member : i ∈ s.waiters := (valid.queue i).mpr ((queued i unfinished).imp fun _ => .inl)
    obtain ⟨w,_,h,woken⟩ := valid.alert (by omega) ⟨i,member,stuck i unfinished⟩
    obtain ⟨k,pending⟩ := queued w (by simp [woken])
    simp [woken] at pending
  refine ⟨Finset.univ.filter fun j => s.phase j = .queued 1,fun j member => ?_,?_⟩
  · have one : s.phase j = .queued 1 := by simpa using member
    have := valid.below j 1 (.inl one)
    exact ⟨one,by have := light j; omega⟩
  · have accounted := valid.slots
    simp only [total,full,Nat.zero_add] at accounted
    rw [← accounted,Finset.card_filter]
    refine Finset.sum_congr rfl fun j _ => ?_
    by_cases live : s.phase j = .exited
    · simp [live]
    · obtain ⟨h,waits⟩ := queued j live
      have := valid.below j h (.inl waits)
      obtain rfl | rfl : h = 0 ∨ h = 1 := by have := light j; omega
      all_goals simp [waits]

theorem deadlock_starvable {s : State ι} (light : ∀ i, weight i = 1 ∨ weight i = 2)
    (some : 1 ≤ slots) (run : Reachable weight slots s) (dead : Deadlock s) :
    Starvable weight slots := by
  obtain ⟨D,holders,card⟩ := deadlock_holders light (reachable_invariant run) dead
  have inside : D ⊆ heavy weight := fun i member => by simp [heavy,(holders i member).2]
  have many : slots ≤ (heavy weight).card := card ▸ Finset.card_le_card inside
  by_cases single : slots = 1
  · exact .inl ⟨single,by omega⟩
  refine .inr ⟨many,?_⟩
  by_contra little
  have owned : ∑ i ∈ D, weight i = 2 * slots := by
    rw [Finset.sum_congr rfl fun i member => (holders i member).2]
    simp [card,Nat.mul_comm]
  have short : ∑ i ∈ Dᶜ, weight i < slots := by
    have := Finset.sum_add_sum_compl D weight
    omega
  obtain ⟨e,inD⟩ : D.Nonempty := Finset.card_pos.mp (by omega)
  cases reachable_ahead (fun i member => (holders i member).2)
    (fun i => by have := light i; omega) short run with
  | untouched _ fresh => simpa [(holders e inD).1] using fresh e inD
  | through d member passed => simp [(holders d member).1] at passed
  | first d _ member _ _ _ _ others =>
    obtain ⟨j,inJ,ne⟩ := Finset.exists_mem_ne (by omega : 1 < D.card) d
    simpa [(holders j inJ).1] using others j inJ ne

/-! ### The run that starves -/

section Run

omit [Fintype ι]

variable (weight) in
theorem start_all (L : List ι) {s : State ι} (positive : ∀ i, 1 ≤ weight i) (full : s.value = 0)
    (nodup : L.Nodup) (fresh : ∀ i ∈ L, s.phase i = .created) :
    ∃ t, Steps weight s t ∧ t.value = 0 ∧ t.waiters = s.waiters ++ L ∧
      (∀ i ∈ L, t.phase i = .queued 0) ∧ ∀ i ∉ L, t.phase i = s.phase i := by
  induction L generalizing s with
  | nil => exact ⟨s,.refl,full,by simp,by simp,by simp⟩
  | cons a L ih =>
    obtain ⟨apart,nodup⟩ := List.nodup_cons.mp nodup
    let u : State ι := { s.install a (.queued 0) with waiters := s.waiters ++ [a] }
    have ran : step weight a s = some u := by
      obtain ⟨n,more⟩ : ∃ n, weight a = n + 1 := ⟨weight a - 1,by have := positive a; omega⟩
      simp [step,fresh a List.mem_cons_self,more,takeSlots,locked,full,u]
    obtain ⟨t,steps,empty,waiters,queued,same⟩ := ih (s := u) full nodup fun i member => by
      have ne : i ≠ a := fun eq => apart (eq ▸ member)
      exact (install_other s _ ne).trans (fresh i (List.mem_cons_of_mem a member))
    refine ⟨t,.head ⟨a,ran⟩ steps,empty,by simp [waiters,u],fun i member => ?_,fun i outside => ?_⟩
    · rcases List.mem_cons.mp member with rfl | later
      · rw [same i apart]; simp [u]
      · exact queued i later
    · obtain ⟨ne,later⟩ := List.ne_and_not_mem_of_not_mem_cons outside
      rw [same i later]
      exact install_other s _ ne

/-- With no slot free, each release goes to the next pending task of the queue. -/
theorem releases_wake (w q p : List ι) {s : State ι} (full : s.value = 0)
    (waiters : s.waiters = w ++ q ++ p) (idle : ∀ i ∈ w, ¬Blocked s i)
    (pending : ∀ i ∈ q, Blocked s i) (nodup : q.Nodup) :
    (releases q.length s).value = 0 ∧ (releases q.length s).waiters = s.waiters ∧
      (∀ i ∈ q, (releases q.length s).phase i = (s.phase i).wake) ∧
      ∀ i ∉ q, (releases q.length s).phase i = s.phase i := by
  induction q generalizing w s with
  | nil => simp [releases,full]
  | cons a q ih =>
    obtain ⟨apart,nodup⟩ := List.nodup_cons.mp nodup
    have woke : s.release = s.install a (s.phase a).wake := by
      have found : s.waiters.find? (fun i => (s.phase i).pending) = some a := by
        rw [waiters,List.append_assoc,List.find?_append,List.find?_eq_none.mpr idle]
        have first : (s.phase a).pending = true := pending a List.mem_cons_self
        simp [first]
      simp [release,wakeUpNext,found,grant,full,install]
    have kept (i : ι) (ne : i ≠ a) := install_other s (s.phase a).wake ne
    obtain ⟨h,queued⟩ := pending_iff.mp (pending a List.mem_cons_self)
    have later := ih (w ++ [a]) (s := s.install a (s.phase a).wake) full (by simp [waiters])
      (fun i member => by
        rcases List.mem_append.mp member with old | new
        · have ne : i ≠ a := fun eq => idle i old (eq ▸ pending a List.mem_cons_self)
          simpa [Blocked,kept i ne] using idle i old
        · simp [List.mem_singleton.mp new,Blocked,queued,Phase.wake,Phase.pending])
      (fun i member => by
        simpa [Blocked,kept i fun eq => apart (eq ▸ member)] using
          pending i (List.mem_cons_of_mem a member)) nodup
    obtain ⟨value,queue,woken,same⟩ := later
    simp only [List.length_cons,releases,woke]
    refine ⟨value,queue,fun i member => ?_,fun i outside => ?_⟩
    · rcases List.mem_cons.mp member with rfl | later
      · rw [same i apart]; exact install_same ..
      · rw [woken i later,kept i fun eq => apart (eq ▸ later)]
    · obtain ⟨ne,later⟩ := List.ne_and_not_mem_of_not_mem_cons outside
      rw [same i later,kept i ne]

variable (weight) in
/-- Finishing the tasks of `F` wakes as many tasks as they had slots. -/
theorem exit_all (F : List ι) (w q p : List ι) {s : State ι} (full : s.value = 0)
    (waiters : s.waiters = w ++ q ++ p) (idle : ∀ i ∈ w, ¬Blocked s i)
    (pending : ∀ i ∈ q, Blocked s i) (nodup : q.Nodup) (distinct : F.Nodup)
    (inside : ∀ i ∈ F, s.phase i = .inside) (enough : (F.map weight).sum = q.length) :
    ∃ t, Steps weight s t ∧ t.value = 0 ∧ t.waiters = s.waiters ∧ (∀ i ∈ F, t.phase i = .exited) ∧
      (∀ i ∈ q, t.phase i = (s.phase i).wake) ∧ ∀ i, i ∉ F → i ∉ q → t.phase i = s.phase i := by
  induction F generalizing w q s with
  | nil =>
    have none : q = [] := List.length_eq_zero_iff.mp (by simpa using enough.symm)
    exact ⟨s,.refl,full,rfl,by simp,by simp [none],fun _ _ _ => rfl⟩
  | cons f F ih =>
    obtain ⟨apart,distinct⟩ := List.nodup_cons.mp distinct
    simp only [List.map_cons,List.sum_cons] at enough
    obtain ⟨q₁,q₂,rfl,length⟩ : ∃ q₁ q₂, q = q₁ ++ q₂ ∧ q₁.length = weight f :=
      ⟨q.take (weight f),q.drop (weight f),(List.take_append_drop ..).symm,by simp; omega⟩
    obtain ⟨nodup₁,nodup₂,cross⟩ := List.nodup_append.mp nodup
    have inF := inside f List.mem_cons_self
    have busy (i : ι) (blocked : Blocked s i) : i ≠ f := by
      rintro rfl; simp [Blocked,inF,Phase.pending] at blocked
    obtain ⟨value,queue,woken,same⟩ := releases_wake w q₁ (q₂ ++ p) (s := s.install f .exited) full
      (by simp [waiters]) (fun i member => by
        by_cases eq : i = f
        · subst i; simp [Blocked,Phase.pending]
        · simpa [Blocked,install_other s _ eq] using idle i member)
      (fun i member => by
        have blocked := pending i (List.mem_append_left q₂ member)
        simpa [Blocked,install_other s _ (busy i blocked)] using blocked) nodup₁
    rw [length] at value queue woken same
    have ran : step weight f s = some (releases (weight f) (s.install f .exited)) := by
      simp [step,inF]
    generalize releases (weight f) (s.install f .exited) = u at ran value queue woken same
    have untouched (i : ι) (outside : i ∉ q₁) (ne : i ≠ f) : u.phase i = s.phase i := by
      rw [same i outside,install_other s _ ne]
    have waked (i : ι) (member : i ∈ q₁) : u.phase i = (s.phase i).wake := by
      rw [woken i member,install_other s _ (busy i (pending i (List.mem_append_left q₂ member)))]
    have beyond (i : ι) (member : i ∈ q₂) : i ∉ q₁ := fun early => cross i early i member rfl
    have gone : u.phase f = .exited := by
      rw [same f fun member => busy f (pending f (List.mem_append_left q₂ member)) rfl]
      exact install_same ..
    obtain ⟨t,steps,value',queue',exited,woken',same'⟩ := ih (w ++ q₁) q₂ (s := u) value
      (by simp [queue,waiters]) (fun i member blocked => by
        by_cases early : i ∈ q₁
        · obtain ⟨h,queued⟩ := pending_iff.mp (pending i (List.mem_append_left q₂ early))
          simp [Blocked,waked i early,queued,Phase.wake,Phase.pending] at blocked
        · by_cases eq : i = f
          · subst i; simp [Blocked,gone,Phase.pending] at blocked
          · have old := (List.mem_append.mp member).resolve_right early
            exact idle i old (by simpa [Blocked,untouched i early eq] using blocked))
      (fun i member => by
        have blocked := pending i (List.mem_append_right q₁ member)
        simpa [Blocked,untouched i (beyond i member) (busy i blocked)] using blocked)
      nodup₂ distinct (fun i member => by
        rw [untouched i (fun early => ?_) fun eq => apart (eq ▸ member)]
        · exact inside i (List.mem_cons_of_mem f member)
        · have blocked := pending i (List.mem_append_left q₂ early)
          simp [Blocked,inside i (List.mem_cons_of_mem f member),Phase.pending] at blocked)
      (by simp at enough; omega)
    have outside (i : ι) (member : i ∈ q₁ ++ q₂) : i ∉ f :: F := fun inF => by
      simpa [Blocked,inside i inF,Phase.pending] using pending i member
    refine ⟨t,.head ⟨f,ran⟩ steps,value',queue'.trans queue,fun i member => ?_,fun i member => ?_,
      fun i notF notQ => ?_⟩
    · rcases List.mem_cons.mp member with rfl | later
      · rw [same' i apart fun late => outside i (List.mem_append_right q₁ late) List.mem_cons_self]
        exact gone
      · exact exited i later
    · have notF := List.ne_and_not_mem_of_not_mem_cons (outside i member)
      rcases List.mem_append.mp member with early | late
      · rw [same' i notF.2 fun late => beyond i late early,waked i early]
      · rw [woken' i late,untouched i (beyond i late) notF.1]
    · obtain ⟨ne,notF⟩ := List.ne_and_not_mem_of_not_mem_cons notF
      simp only [List.mem_append,not_or] at notQ
      rw [same' i notF notQ.2,untouched i notQ.1 ne]

/-- A woken heavy task finds no second slot and queues again, holding the first. -/
theorem resume_all (q p : List ι) {s : State ι} (full : s.value = 0) (waiters : s.waiters = q ++ p)
    (nodup : (q ++ p).Nodup) (woken : ∀ i ∈ q, s.phase i = .woken 0 ∧ weight i = 2) :
    ∃ t, Steps weight s t ∧ (∀ i ∈ q, t.phase i = .queued 1) ∧ ∀ i ∉ q, t.phase i = s.phase i := by
  induction q generalizing p s with
  | nil => exact ⟨s,.refl,by simp,fun _ _ => rfl⟩
  | cons a q ih =>
    obtain ⟨apart,nodup⟩ := List.nodup_cons.mp nodup
    obtain ⟨notQ,_⟩ : a ∉ q ∧ a ∉ p := by simpa using apart
    obtain ⟨phase,two⟩ := woken a List.mem_cons_self
    let u : State ι := { s.install a (.queued 1) with waiters := q ++ (p ++ [a]) }
    have ran : step weight a s = some u := by
      simp [step,phase,two,full,wakeIfFree,takeSlots,locked,waiters,u,install]
    obtain ⟨t,steps,queued,same⟩ := ih (p ++ [a]) (s := u) full rfl
      (by rw [← List.append_assoc]; exact List.nodup_append.mpr ⟨nodup,List.nodup_singleton a,
        fun x inX y inY => by rw [List.mem_singleton.mp inY]; exact fun eq => apart (eq ▸ inX)⟩)
      (fun i member => by
        have ne : i ≠ a := fun eq => notQ (eq ▸ member)
        obtain ⟨phase,two⟩ := woken i (List.mem_cons_of_mem a member)
        exact ⟨(install_other s _ ne).trans phase,two⟩)
    refine ⟨t,.head ⟨a,ran⟩ steps,fun i member => ?_,fun i outside => ?_⟩
    · rcases List.mem_cons.mp member with rfl | later
      · rw [same i notQ]; simp [u]
      · exact queued i later
    · obtain ⟨ne,later⟩ := List.ne_and_not_mem_of_not_mem_cons outside
      rw [same i later]
      exact install_other s _ ne

/-- Starting tasks until no slot is left: the last of them may have to queue with one. -/
theorem fill (L : List ι) {s : State ι} (light : ∀ i, weight i = 1 ∨ weight i = 2)
    (empty : s.waiters = []) (nodup : L.Nodup) (fresh : ∀ i ∈ L, s.phase i = .created)
    (enough : s.value ≤ (L.map weight).sum) :
    ∃ F f G t, L = F ++ f ++ G ∧ Steps weight s t ∧ t.value = 0 ∧ t.waiters = f ∧ f.length ≤ 1 ∧
      (F.map weight).sum + f.length = s.value ∧ (∀ i ∈ F, t.phase i = .inside) ∧
      (∀ i ∈ f, t.phase i = .queued 1 ∧ weight i = 2) ∧
      ∀ i, i ∉ F → i ∉ f → t.phase i = s.phase i := by
  induction L generalizing s with
  | nil => exact ⟨[],[],[],s,rfl,.refl,by simpa using enough,empty,by simp,by simp at *; omega,by simp⟩
  | cons a L ih =>
    obtain ⟨apart,nodup⟩ := List.nodup_cons.mp nodup
    have phase := fresh a List.mem_cons_self
    simp only [List.map_cons,List.sum_cons] at enough
    have ran : step weight a s = some (takeSlots a 0 (weight a) s) := by simp [step,phase]
    obtain ⟨same,ends⟩ := takeSlots_cases a 0 (weight a) s
    generalize takeSlots a 0 (weight a) s = u at ran same ends
    by_cases none : s.value = 0
    · exact ⟨[],[],a :: L,s,rfl,.refl,none,empty,by simp,by simp [none],by simp⟩
    rcases ends with ⟨inside,waiters,value,_⟩ | ⟨k,few,queued,waiters,value,full,_⟩
    · obtain ⟨F,f,G,t,rfl,steps,spent,queue,short,filled,entered,waits,rest⟩ :=
        ih (s := u) (waiters.trans empty) nodup (fun i member => by
          rw [same i fun eq => apart (eq ▸ member)]
          exact fresh i (List.mem_cons_of_mem a member)) (by omega)
      simp only [List.mem_append,not_or] at apart
      refine ⟨a :: F,f,G,t,rfl,.head ⟨a,ran⟩ steps,spent,queue,short,by simp; omega,
        fun i member => ?_,waits,fun i notF notf => ?_⟩
      · rcases List.mem_cons.mp member with rfl | later
        · rw [rest i apart.1.1 apart.1.2,inside]
        · exact entered i later
      · obtain ⟨ne,notF⟩ := List.ne_and_not_mem_of_not_mem_cons notF
        rw [rest i notF notf,same i ne]
    · have spent : u.value = 0 := full.resolve_right (by simp [empty])
      obtain ⟨two,rfl⟩ : weight a = 2 ∧ k = 1 := by have := light a; omega
      refine ⟨[],[a],L,u,rfl,.single ⟨a,ran⟩,spent,by simp [waiters,empty],by simp,by simp; omega,
        by simp,by simpa [two] using queued,fun i _ ne => same i (by simpa using ne)⟩

/-- The state before the last round: all heavy tasks of `q` were handed their first slot. -/
structure Handed (s : State ι) (q p : List ι) : Prop where
  full : s.value = 0
  waiters : s.waiters = q ++ p
  woken : ∀ i ∈ q, s.phase i = .woken 0
  queued : ∀ i ∈ p, s.phase i = .queued 0
  rest : ∀ i, i ∉ q → i ∉ p → s.phase i = .exited

/-- The fillers leave. If one of them still queued, it passes its slots on as well. -/
theorem fillers_leave (F f q p : List ι) {s : State ι} (full : s.value = 0)
    (waiters : s.waiters = f ++ (q ++ p)) (nodup : (F ++ f ++ (q ++ p)).Nodup)
    (everyone : ∀ i, i ∈ F ++ f ++ (q ++ p)) (short : f.length ≤ 1)
    (enough : (F.map weight).sum + f.length = q.length) (several : 2 ≤ q.length)
    (inside : ∀ i ∈ F, s.phase i = .inside)
    (waits : ∀ i ∈ f, s.phase i = .queued 1 ∧ weight i = 2)
    (pending : ∀ i ∈ q ++ p, s.phase i = .queued 0) :
    ∃ t, Steps weight s t ∧ Handed t q p := by
  obtain ⟨⟨distinct,_,apartFf⟩,distinctQP,apart⟩ :=
    List.nodup_append.mp nodup |>.imp_left List.nodup_append.mp
  obtain ⟨distinctQ,_,apartQP⟩ := List.nodup_append.mp distinctQP
  have blocked (i : ι) (h : Nat) (at_h : s.phase i = .queued h) : Blocked s i := by
    simp [Blocked,at_h,Phase.pending]
  cases f with
  | nil =>
    obtain ⟨t,steps,value,queue,exited,woken,same⟩ := exit_all weight F [] q p full (by simpa using waiters)
      (by simp) (fun i member => blocked i 0 (pending i (List.mem_append_left p member)))
      distinctQ distinct inside (by simpa using enough)
    refine ⟨t,steps,value,by simp [queue,waiters],fun i member => ?_,fun i member => ?_,
      fun i notQ notP => ?_⟩
    · rw [woken i member,pending i (List.mem_append_left p member)]; rfl
    · have inQP := List.mem_append_right q member
      rw [same i (fun inF => apart i (by simpa using inF) i inQP rfl)
        (fun inQ => apartQP i inQ i member rfl),pending i inQP]
    · exact exited i (by simpa [notQ,notP] using everyone i)
  | cons x others =>
    obtain rfl : others = [] := by simpa using short
    obtain ⟨waitsX,two⟩ := waits x List.mem_cons_self
    obtain ⟨q₁,q₂,rfl,length⟩ : ∃ q₁ q₂, q = q₁ ++ q₂ ∧ q₂.length = 2 :=
      ⟨q.take (q.length - 2),q.drop (q.length - 2),(List.take_append_drop ..).symm,by simp; omega⟩
    simp only [List.length_append,List.length_singleton,length] at enough
    obtain ⟨distinct₁,distinct₂,apart₁₂⟩ := List.nodup_append.mp distinctQ
    have notQP (i : ι) (member : i ∈ q₁ ++ q₂ ++ p) : i ∉ F ∧ i ≠ x := by
      refine ⟨fun inF => apart i (by simp [inF]) i member rfl,?_⟩
      rintro rfl
      exact apart i (by simp) i member rfl
    have outX : x ∉ q₁ ++ q₂ ++ p := fun member => (notQP x member).2 rfl
    obtain ⟨t,steps,value,queue,exited,woken,same⟩ := exit_all weight F [] (x :: q₁)
      (q₂ ++ p) full (by simpa using waiters) (by simp) (fun i member => by
        rcases List.mem_cons.mp member with rfl | later
        · exact blocked i 1 waitsX
        · exact blocked i 0 (pending i (by simp [later])))
      (List.nodup_cons.mpr ⟨fun member => outX (by simp [member]),distinct₁⟩) distinct inside
      (by simp; omega)
    have atX : t.phase x = .woken 1 := by rw [woken x List.mem_cons_self,waitsX]; rfl
    have at₁ (i : ι) (member : i ∈ q₁) : t.phase i = .woken 0 := by
      rw [woken i (List.mem_cons_of_mem x member),pending i (by simp [member])]; rfl
    have atLater (i : ι) (member : i ∈ q₂ ++ p) : t.phase i = .queued 0 := by
      have inQP : i ∈ q₁ ++ q₂ ++ p := by rw [List.append_assoc]; exact List.mem_append_right q₁ member
      rw [same i (notQP i inQP).1 fun early => ?_,pending i inQP]
      rcases List.mem_cons.mp early with eq | early
      · exact (notQP i inQP).2 eq
      · rcases List.mem_append.mp member with late | late
        · exact apart₁₂ i early i late rfl
        · exact apartQP i (List.mem_append_left q₂ early) i late rfl
    let u : State ι := { t.install x .inside with waiters := q₁ ++ q₂ ++ p }
    have ran : step weight x t = some u := by
      simp [step,atX,two,value,wakeIfFree,takeSlots,queue,waiters,u,install]
    have still (i : ι) (ne : i ≠ x) : u.phase i = t.phase i := install_other t _ ne
    obtain ⟨v,more,value',queue',exited',woken',same'⟩ := exit_all weight [x] q₁ q₂ p
      (s := u) value rfl (fun i member => by
        simp [Blocked,still i (notQP i (by simp [member])).2,at₁ i member,Phase.pending])
      (fun i member => by
        simp [Blocked,still i (notQP i (by simp [member])).2,atLater i (by simp [member]),
          Phase.pending])
      distinct₂ (List.nodup_singleton x) (by simp [u]) (by simp [two,length])
    refine ⟨v,steps.trans (.head ⟨x,ran⟩ more),value',queue',fun i member => ?_,fun i member => ?_,
      fun i notQ notP => ?_⟩
    · have ne := (notQP i (List.mem_append_left p member)).2
      rcases List.mem_append.mp member with early | late
      · rw [same' i (by simpa using ne) (fun late => apart₁₂ i early i late rfl),still i ne,at₁ i early]
      · rw [woken' i late,still i ne,atLater i (by simp [late])]; rfl
    · have ne := (notQP i (List.mem_append_right _ member)).2
      rw [same' i (by simpa using ne)
        (fun late => apartQP i (List.mem_append_right q₁ late) i member rfl),still i ne,
        atLater i (by simp [member])]
    · by_cases eq : i = x
      · subst i; exact exited' x List.mem_cons_self
      · have inF : i ∈ F := by
          simp only [List.mem_append,not_or] at notQ
          simpa [notQ,notP,eq] using everyone i
        rw [same' i (by simpa using eq) (fun late => notQ (List.mem_append_right q₁ late)),still i eq,
          exited i inF]

theorem handed_deadlock {s : State ι} {q p : List ι} (nodup : (q ++ p).Nodup) (some : q ≠ [])
    (two : ∀ i ∈ q, weight i = 2) (handed : Handed s q p) :
    ∃ t, Steps weight s t ∧ Deadlock t := by
  obtain ⟨t,steps,queued,same⟩ := resume_all q p handed.full handed.waiters nodup
    fun i member => ⟨handed.woken i member,two i member⟩
  obtain ⟨i,member⟩ := List.exists_mem_of_ne_nil q some
  refine ⟨t,steps,⟨i,by simp [queued i member]⟩,fun j unfinished => ?_⟩
  by_cases inQ : j ∈ q
  · simp [Blocked,queued j inQ,Phase.pending]
  · rw [same j inQ] at unfinished
    have inP : j ∈ p := by_contra fun notP => unfinished (handed.rest j inQ notP)
    simp [Blocked,same j inQ,handed.queued j inP,Phase.pending]

end Run

/-- One slot: the heavy task takes it and queues for its second one. -/
theorem single_deadlock (positive : ∀ i, 1 ≤ weight i) {d : ι} (two : weight d = 2) :
    ∃ s, Reachable weight 1 s ∧ Deadlock s := by
  let u : State ι := { (initial 1).install d (.queued 1) with value := 0,waiters := [d] }
  have ran : step weight d (initial 1) = some u := by
    simp [step,initial,two,takeSlots,locked,install,u]
  obtain ⟨t,steps,_,_,queued,same⟩ := start_all weight (Finset.univ.erase d).toList (s := u) positive rfl
    (Finset.nodup_toList _) fun i member => install_other _ _ (by simpa using member)
  have atD : t.phase d = .queued 1 := by rw [same d (by simp)]; simp [u]
  refine ⟨t,.head ⟨d,ran⟩ steps,⟨d,by simp [atD]⟩,fun i _ => ?_⟩
  by_cases eq : i = d
  · simp [Blocked,eq,atD,Phase.pending]
  · simp [Blocked,queued i (by simpa using eq),Phase.pending]

/-- Several slots: the fillers start first and the heavy tasks queue behind them. -/
theorem crowd_deadlock (light : ∀ i, weight i = 1 ∨ weight i = 2) (several : 2 ≤ slots)
    (many : slots ≤ (heavy weight).card) (enough : 3 * slots ≤ ∑ i, weight i) :
    ∃ s, Reachable weight slots s ∧ Deadlock s := by
  obtain ⟨D,heavyD,card⟩ := Finset.exists_subset_card_eq many
  have two (i : ι) (member : i ∈ D) : weight i = 2 := by simpa [heavy] using heavyD member
  have owned : ∑ i ∈ D, weight i = 2 * slots := by
    rw [Finset.sum_congr rfl two]; simp [card,Nat.mul_comm]
  have left : slots ≤ ∑ i ∈ Dᶜ, weight i := by
    have := Finset.sum_add_sum_compl D weight
    omega
  obtain ⟨F,f,G,s,parts,started,full,waiters,short,filled,inside,waits,fresh⟩ :=
    fill Dᶜ.toList (s := initial slots) light rfl (Finset.nodup_toList _) (fun _ _ => rfl)
      (by rw [Finset.sum_map_toList]; exact left)
  have length : D.toList.length = slots := by simp [card]
  have outside (i : ι) : i ∈ F ++ f ++ G ↔ i ∉ D := by rw [← parts]; simp
  have distinct : (F ++ f ++ G).Nodup := parts ▸ Finset.nodup_toList _
  have nodup : (F ++ f ++ (D.toList ++ G)).Nodup :=
    (List.perm_append_comm_assoc (F ++ f) D.toList G).nodup_iff.mpr
      (List.nodup_append.mpr ⟨Finset.nodup_toList D,distinct,fun i inD j inL eq =>
        (outside j).mp inL (eq ▸ Finset.mem_toList.mp inD)⟩)
  have apart (i : ι) (member : i ∈ D.toList ++ G) : i ∉ F ∧ i ∉ f := by
    have := (List.nodup_append.mp nodup).2.2
    exact ⟨fun inF => this i (by simp [inF]) i member rfl,
      fun inf => this i (by simp [inf]) i member rfl⟩
  have distinctQP := (List.nodup_append.mp nodup).2.1
  obtain ⟨t,steps,full',waiters',queued,same⟩ := start_all weight (D.toList ++ G) (s := s)
    (fun i => by have := light i; omega) full distinctQP fun i member => by
      rw [fresh i (apart i member).1 (apart i member).2]; rfl
  have kept (i : ι) (member : i ∈ F ++ f) : t.phase i = s.phase i := same i fun inQP => by
    rcases List.mem_append.mp member with inF | inf
    · exact (apart i inQP).1 inF
    · exact (apart i inQP).2 inf
  obtain ⟨u,leave,handed⟩ := fillers_leave F f D.toList G full' (by rw [waiters',waiters]) nodup
    (fun i => by
      by_cases inD : i ∈ D
      · simp [inD]
      · have := (outside i).mpr inD
        simp only [List.mem_append] at this ⊢
        tauto)
    short (filled.trans length.symm) (length.symm ▸ several)
    (fun i member => by rw [kept i (by simp [member])]; exact inside i member)
    (fun i member => by rw [kept i (by simp [member])]; exact waits i member) queued
  obtain ⟨v,last,dead⟩ := handed_deadlock distinctQP (List.ne_nil_of_length_pos (by omega))
    (fun i member => two i (Finset.mem_toList.mp member)) handed
  exact ⟨v,((started.trans steps).trans leave).trans last,dead⟩

/-- Exactly the starvable families have a schedule that ends in a deadlock. -/
theorem deadlock_iff (light : ∀ i, weight i = 1 ∨ weight i = 2) (positive : 1 ≤ slots) :
    (∃ s, Reachable weight slots s ∧ Deadlock s) ↔ Starvable weight slots := by
  refine ⟨fun ⟨_,run,dead⟩ => deadlock_starvable light positive run dead,fun starvable => ?_⟩
  by_cases single : slots = 1
  · subst single
    obtain ⟨d,member⟩ : (heavy weight).Nonempty := Finset.card_pos.mp
      (by rcases starvable with ⟨_,h⟩ | ⟨h,_⟩ <;> exact h)
    exact single_deadlock (fun i => by have := light i; omega) (by simpa [heavy] using member)
  · rcases starvable with ⟨one,_⟩ | ⟨many,enough⟩
    · exact absurd one single
    · exact crowd_deadlock light (by omega) many enough

end FifoSemaphore
