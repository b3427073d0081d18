import IceOS.OrderedDict
import Mathlib.Data.List.Perm.Subperm

/-! Kahn's algorithm: a key is taken once nothing that it waits for is left. The open waits are counted in
a dictionary, and whoever waits for a key is listed with repetition. -/
namespace KahnSort

variable {κ : Type} [DecidableEq κ]

def degree (d : OrderedDict κ Int) (k : κ) : Int := (d.get? k).getD 0

@[simp] theorem degree_set (d : OrderedDict κ Int) (k j : κ) (n : Int) :
    degree (d.set k n) j = if k = j then n else degree d j := by
  simp only [degree,OrderedDict.get?_set]
  split <;> rfl

/-- One wait less; the key joins the queue when it was the last. -/
def relax (state : OrderedDict κ Int × List κ) (k : κ) : OrderedDict κ Int × List κ :=
  let left := degree state.1 k - 1
  (state.1.set k left,if left = 0 then state.2 ++ [k] else state.2)

/-- The keys in the order in which they leave the queue. -/
def take (neighbours : κ → List κ) : Nat → List κ → OrderedDict κ Int → List κ
  | 0,_,_ => []
  | _,[],_ => []
  | fuel + 1,current :: queue,d =>
    let (d,queue) := (neighbours current).foldl relax (d,queue)
    current :: take neighbours fuel queue d

/-- What a round of relaxing does: the waits go down, and who waits for nothing more is queued once. -/
theorem relax_all (l : List κ) (d : OrderedDict κ Int) (queue : List κ) :
    (∀ k, degree (l.foldl relax (d,queue)).1 k = degree d k - l.count k) ∧
      ∃ joined, (l.foldl relax (d,queue)).2 = queue ++ joined ∧ joined.Nodup ∧
        ∀ k, k ∈ joined ↔ 0 < degree d k ∧ degree d k ≤ l.count k := by
  induction l generalizing d queue with
  | nil => exact ⟨by simp,[],by simp,List.nodup_nil,fun k => by simp⟩
  | cons j rest ih =>
    have counts (k : κ) : ((j :: rest).count k : Int) = rest.count k + if j = k then 1 else 0 := by
      simp only [List.count_cons,beq_iff_eq]
      split <;> simp
    obtain ⟨down,joined,queued,nodup,members⟩ := ih (d.set j (degree d j - 1))
      (if degree d j - 1 = 0 then queue ++ [j] else queue)
    simp only [degree_set] at down members
    rw [List.foldl_cons]
    refine ⟨fun k => ?_,?_⟩
    · rw [counts]
      refine (down k).trans ?_
      by_cases same : j = k
      · subst same
        simp only [if_true]
        omega
      · simp only [same,if_false]
        omega
    · by_cases last : degree d j - 1 = 0
      · rw [if_pos last] at queued
        refine ⟨j :: joined,by simpa [relax,last] using queued,List.nodup_cons.mpr ⟨?_,nodup⟩,fun k => ?_⟩
        · rw [members]
          simp [last]
        · rw [List.mem_cons,members,counts]
          by_cases same : j = k
          · subst same
            simp only [if_true,true_or,true_iff]
            omega
          · simp [same,Ne.symm same]
      · rw [if_neg last] at queued
        refine ⟨joined,by simpa [relax,last] using queued,nodup,fun k => ?_⟩
        rw [members,counts]
        by_cases same : j = k
        · subst same
          simp only [if_true]
          omega
        · simp [same]

/-- The keys, what each of them waits for, and who waits for whom, as the algorithm is given them. -/
structure Problem (κ : Type) [DecidableEq κ] where
  keys : List κ
  nodup : keys.Nodup
  waits : κ → List κ
  neighbours : κ → List κ
  inside : ∀ k, ∀ j ∈ neighbours k, j ∈ keys
  counted : ∀ k, ∀ j ∈ keys, (neighbours k).count j = (waits j).count k

namespace Problem

variable (p : Problem κ)

/-- After `done` was taken and with `queue` to come. -/
structure State (done queue : List κ) (d : OrderedDict κ Int) : Prop where
  nodup : (done ++ queue).Nodup
  inside : ∀ k ∈ done ++ queue, k ∈ p.keys
  open' : ∀ k ∈ p.keys, degree d k = (p.waits k).countP (· ∉ done)
  ready : ∀ k ∈ p.keys, k ∈ done ++ queue ↔ degree d k = 0
  ordered : ∀ before k after, done = before ++ k :: after → ∀ j ∈ p.waits k, j ∈ before

variable {p}

theorem State.settled {done queue : List κ} {d : OrderedDict κ Int} (s : p.State done queue d) {k : κ}
    (known : k ∈ p.keys) : k ∈ done ++ queue ↔ ∀ j ∈ p.waits k, j ∈ done := by
  rw [s.ready k known,s.open' k known]
  simp [List.countP_eq_zero]

theorem countP_split {l done : List κ} {current : κ} (new : current ∉ done) :
    l.countP (· ∉ done) = l.countP (· ∉ done ++ [current]) + l.count current := by
  induction l with
  | nil => rfl
  | cons j rest ih =>
    rw [List.countP_cons,List.countP_cons,List.count_cons,ih]
    by_cases same : j = current
    · subst same
      simp [new]
      omega
    · by_cases old : j ∈ done <;> simp [same,old]
      omega

/-- Taking the next key of the queue. -/
theorem State.next {done queue : List κ} {current : κ} {d : OrderedDict κ Int}
    (s : p.State done (current :: queue) d) :
    p.State (done ++ [current]) ((p.neighbours current).foldl relax (d,queue)).2
      ((p.neighbours current).foldl relax (d,queue)).1 := by
  obtain ⟨down,joined,queued,nodup,members⟩ := relax_all (p.neighbours current) d queue
  have new : current ∉ done := fun old => (List.nodup_append.mp s.nodup).2.2 current old current (by simp) rfl
  have known (k : κ) (joins : k ∈ joined) : k ∈ p.keys := by
    have bounds := (members k).mp joins
    have listed : 0 < (p.neighbours current).count k := by omega
    exact p.inside current k (List.count_pos_iff.mp listed)
  have fresh (k : κ) (joins : k ∈ joined) : k ∉ done ++ current :: queue := fun old => by
    have zero := (s.ready k (known k joins)).mp old
    have positive := ((members k).mp joins).1
    omega
  have opens (k : κ) (member : k ∈ p.keys) : degree ((p.neighbours current).foldl relax (d,queue)).1 k =
      (p.waits k).countP (· ∉ done ++ [current]) := by
    rw [down,s.open' k member,p.counted current k member,countP_split (l := p.waits k) new]
    omega
  have shape : done ++ [current] ++ (queue ++ joined) = done ++ current :: queue ++ joined := by simp
  rw [queued]
  refine ⟨?_,fun k inside => ?_,opens,fun k member => ?_,fun before k after parts => ?_⟩
  · rw [shape]
    exact List.nodup_append.mpr ⟨s.nodup,nodup,fun a old b joins same => fresh b joins (same ▸ old)⟩
  · rw [shape] at inside
    exact (List.mem_append.mp inside).elim (s.inside k) (known k)
  · rw [shape,List.mem_append,s.ready k member,members,down,p.counted current k member]
    have split := countP_split (l := p.waits k) new
    have open' := s.open' k member
    omega
  · rcases List.eq_nil_or_concat after with rfl | ⟨front,last,rfl⟩
    · obtain ⟨rfl,same⟩ := List.append_inj' parts rfl
      cases same
      exact (s.settled (s.inside current (by simp))).mp (by simp)
    · rw [List.concat_eq_append,← List.cons_append,← List.append_assoc] at parts
      exact s.ordered before k front (List.append_inj' parts rfl).1

/-- With a round for every key the queue runs empty. -/
theorem take_state {fuel : Nat} {done queue : List κ} {d : OrderedDict κ Int} (s : p.State done queue d)
    (enough : p.keys.length ≤ done.length + fuel) :
    ∃ e, p.State (done ++ take p.neighbours fuel queue d) [] e := by
  have short : done.length + queue.length ≤ p.keys.length := by
    rw [← List.length_append]
    exact (List.subperm_of_subset s.nodup s.inside).length_le
  induction fuel generalizing done queue d with
  | zero =>
    have empty : queue = [] := List.length_eq_zero_iff.mp (by omega)
    subst empty
    exact ⟨d,by simpa [take] using s⟩
  | succ fuel ih =>
    cases queue with
    | nil => exact ⟨d,by simpa [take] using s⟩
    | cons current queue =>
      have next := s.next
      have short : (done ++ [current]).length + ((p.neighbours current).foldl relax (d,queue)).2.length ≤ p.keys.length := by
        rw [← List.length_append]
        exact (List.subperm_of_subset next.nodup next.inside).length_le
      obtain ⟨e,last⟩ := ih next (by rw [List.length_append]; simp only [List.length_singleton]; omega) short
      refine ⟨e,?_⟩
      simpa [take] using last

/-- A finished run has taken whatever waits for taken keys only. -/
theorem State.closed {done : List κ} {d : OrderedDict κ Int} (s : p.State done [] d) {k : κ} (known : k ∈ p.keys) :
    k ∈ done ↔ ∀ j ∈ p.waits k, j ∈ done := by
  have settled := s.settled known
  rwa [List.append_nil] at settled

/-- A finished run has taken every key exactly when the keys can be ranked along the waits. -/
theorem State.complete_iff {done : List κ} {d : OrderedDict κ Int} (s : p.State done [] d) :
    (∀ k ∈ p.keys, k ∈ done) ↔
      ∃ rank : κ → Nat, ∀ k ∈ p.keys, ∀ j ∈ p.waits k, j ∈ p.keys ∧ rank j < rank k := by
  have nodup : done.Nodup := by simpa using s.nodup
  constructor
  · intro all
    refine ⟨done.idxOf,fun k known j waited => ?_⟩
    obtain ⟨before,after,parts⟩ := List.append_of_mem (all k known)
    have earlier := s.ordered before k after parts j waited
    have new : k ∉ before := fun old =>
      (List.nodup_append.mp (parts ▸ nodup)).2.2 k old k List.mem_cons_self rfl
    refine ⟨s.inside j (by rw [parts]; simp [earlier]),?_⟩
    change done.idxOf j < done.idxOf k
    rw [parts,List.idxOf_append_of_mem earlier,List.idxOf_append_of_notMem new,List.idxOf_cons_self]
    exact Nat.lt_add_right _ (List.idxOf_lt_length_of_mem earlier)
  · rintro ⟨rank,rising⟩ k
    induction bound : rank k using Nat.strongRecOn generalizing k with
    | _ n ih =>
      intro known
      refine (s.closed known).mpr fun j waited => ?_
      obtain ⟨inside,below⟩ := rising k known j waited
      exact ih (rank j) (bound ▸ below) j rfl inside

/-- Counting the taken keys tells whether all were taken. -/
theorem State.length_iff {done : List κ} {d : OrderedDict κ Int} (s : p.State done [] d) :
    done.length = p.keys.length ↔ ∀ k ∈ p.keys, k ∈ done := by
  have nodup : done.Nodup := by simpa using s.nodup
  have inside : done ⊆ p.keys := by
    intro k member
    exact s.inside k (by simpa using member)
  constructor
  · intro same k known
    exact ((List.subperm_of_subset nodup inside).perm_of_length_le (Nat.le_of_eq same.symm)).mem_iff.mpr known
  · intro all
    exact Nat.le_antisymm (List.subperm_of_subset nodup inside).length_le (List.subperm_of_subset p.nodup all).length_le

end Problem

end KahnSort
