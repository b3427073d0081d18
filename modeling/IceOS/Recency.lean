import Mathlib.Data.Finset.Card
import Mathlib.Data.List.Pairwise

/-! Lists in the order of the last use, oldest first, against the history of uses, latest first. -/
namespace Recency

variable {κ : Type} [DecidableEq κ]

/-- What was used after the last use of `k`. -/
def since (uses : List κ) (k : κ) : Finset κ := (uses.takeWhile (· ≠ k)).toFinset

/-- Whatever stands after a key was used after it. -/
def Ordered (uses keys : List κ) : Prop := keys.Pairwise fun k later => later ∈ since uses k

@[simp] theorem since_same (uses : List κ) (k : κ) : since (k :: uses) k = ∅ := by
  simp [since]

theorem since_other (uses : List κ) {j k : κ} (other : j ≠ k) : since (j :: uses) k = insert j (since uses k) := by
  simp [since,other]

theorem ordered_sublist {uses keys fewer : List κ} (sublist : fewer.Sublist keys) (ordered : Ordered uses keys) :
    Ordered uses fewer :=
  List.Pairwise.sublist sublist ordered

/-- A use moves the key to the end. -/
theorem ordered_use {uses keys : List κ} {k : κ} (ordered : Ordered uses keys) (fresh : k ∉ keys) :
    Ordered (k :: uses) (keys ++ [k]) := by
  refine List.pairwise_append.mpr ⟨?_,List.pairwise_singleton _ k,?_⟩
  · refine List.Pairwise.imp_of_mem ?_ ordered
    intro i j inside _ used
    have other : k ≠ i := fun same => fresh (same ▸ inside)
    rw [since_other uses other]
    exact Finset.mem_insert_of_mem used
  · intro i inside j last
    have other : k ≠ i := fun same => fresh (same ▸ inside)
    rw [List.mem_singleton.mp last,since_other uses other]
    exact Finset.mem_insert_self k _

/-- As many keys as stand behind a key have been used since. -/
theorem behind_le_since {uses front back : List κ} {k : κ} (ordered : Ordered uses (front ++ back)) (nodup : back.Nodup)
    (ahead : k ∈ front) : back.length ≤ (since uses k).card := by
  have behind : back.toFinset ⊆ since uses k := by
    intro j member
    exact (List.pairwise_append.mp ordered).2.2 k ahead j (List.mem_toFinset.mp member)
  rw [← List.toFinset_card_of_nodup nodup]
  exact Finset.card_le_card behind

/-! ### The last few keys -/

/-- A use of `k`: it goes to the end, and the oldest make place. -/
def use (max : Nat) (keys : List κ) (k : κ) : List κ :=
  let moved := keys.filter (· ≠ k) ++ [k]
  moved.drop (moved.length - max)

/-- Behind a key stand those that were used since, and a key that is missing has been followed by `max` others. -/
structure Retains (max : Nat) (uses keys : List κ) : Prop where
  behind : ∀ front k back, keys = front ++ k :: back → since uses k = back.toFinset
  nodup : keys.Nodup
  used : ∀ k ∈ keys, k ∈ uses
  missing : ∀ k ∈ uses, k ∉ keys → max ≤ (since uses k).card
  bounded : keys.length ≤ max

section

variable {max : Nat} {uses keys : List κ}

theorem retains_nil : Retains max ([] : List κ) [] where
  behind front _ _ parts := by cases front <;> cases parts
  nodup := List.nodup_nil
  used _ member := by cases member
  missing _ member := by cases member
  bounded := Nat.zero_le max

/-- A key is kept exactly while it is among the `max` that were used last. -/
theorem Retains.mem_iff (r : Retains max uses keys) (k : κ) : k ∈ keys ↔ k ∈ uses ∧ (since uses k).card < max := by
  constructor
  · intro member
    obtain ⟨front,back,parts⟩ := List.append_of_mem member
    have nodup := parts ▸ r.nodup
    have back_nodup : back.Nodup := (List.nodup_cons.mp (List.nodup_append.mp nodup).2.1).2
    have length := parts ▸ r.bounded
    rw [List.length_append,List.length_cons] at length
    refine ⟨r.used k member,?_⟩
    rw [r.behind front k back parts,List.toFinset_card_of_nodup back_nodup]
    omega
  · rintro ⟨member,few⟩
    by_contra missing
    exact absurd (r.missing k member missing) (Nat.not_le.mpr few)

theorem since_again {k : κ} (last : uses.head? = some k) (j : κ) : since (k :: uses) j = since uses j := by
  obtain ⟨rest,rfl⟩ := List.head?_eq_some_iff.mp last
  by_cases same : k = j
  · rw [same,since_same,since_same]
  · rw [since_other (k :: rest) same,since_other rest same,Finset.insert_eq_of_mem (Finset.mem_insert_self k _)]

/-- A use of the key that was used last changes nothing. -/
theorem Retains.again (r : Retains max uses keys) {k : κ} (last : uses.head? = some k) :
    Retains max (k :: uses) keys where
  behind front j back parts := (since_again last j).trans (r.behind front j back parts)
  nodup := r.nodup
  used j member := List.mem_cons_of_mem k (r.used j member)
  missing j member missing := by
    rw [since_again last]
    refine r.missing j ?_ missing
    rcases List.mem_cons.mp member with rfl | old
    · exact List.mem_of_mem_head? last
    · exact old
  bounded := r.bounded

theorem moved_nodup (nodup : keys.Nodup) (k : κ) : (keys.filter (· ≠ k) ++ [k]).Nodup := by
  refine List.nodup_append.mpr ⟨nodup.filter _,List.nodup_singleton k,?_⟩
  intro i inside j last
  rw [List.mem_singleton.mp last]
  exact of_decide_eq_true (List.mem_filter.mp inside).2

theorem behind_moved (r : Retains max uses keys) (k : κ) {front back : List κ} {j : κ}
    (parts : keys.filter (· ≠ k) ++ [k] = front ++ j :: back) : since (k :: uses) j = back.toFinset := by
  rcases List.eq_nil_or_concat back with rfl | ⟨behind,last,rfl⟩
  · have same := congrArg List.getLast? parts
    simp only [List.getLast?_append,List.getLast?_singleton,Option.some_or,Option.some.injEq] at same
    rw [same,since_same]
    rfl
  · have split : keys.filter (· ≠ k) ++ [k] = (front ++ j :: behind) ++ [last] := by
      rw [parts,List.concat_eq_append,List.append_assoc,List.cons_append]
    obtain ⟨kept,ends⟩ := List.append_inj' split rfl
    cases ends
    obtain ⟨before,after,rfl,_,rest⟩ := List.filter_eq_append_iff.mp kept
    obtain ⟨gone,later,rfl,none,other,rfl⟩ := List.filter_eq_cons_iff.mp rest
    have differs : k ≠ j := fun same => absurd same.symm (of_decide_eq_true other)
    rw [since_other uses differs,r.behind (before ++ gone) j later (List.append_assoc _ _ _).symm]
    ext i
    by_cases same : i = k
    · simp [same]
    · simp [same]

theorem Retains.use (r : Retains max uses keys) (k : κ) : Retains max (k :: uses) (use max keys k) := by
  have nodup := moved_nodup r.nodup k
  generalize moved : keys.filter (· ≠ k) ++ [k] = all at nodup
  have kept : Recency.use max keys k = all.drop (all.length - max) := by rw [← moved]; rfl
  generalize extra : all.length - max = n at kept
  have parts : all.take n ++ all.drop n = all := List.take_append_drop n all
  rw [kept]
  exact {
    behind := fun front j back split => by
      have whole : keys.filter (· ≠ k) ++ [k] = (all.take n ++ front) ++ j :: back := by
        rw [moved,List.append_assoc,← split,parts]
      exact behind_moved r k whole
    nodup := (List.drop_sublist n all).nodup nodup
    used := fun j member => by
      have inside : j ∈ keys.filter (· ≠ k) ++ [k] := moved ▸ List.mem_of_mem_drop member
      rcases List.mem_append.mp inside with old | new
      · exact List.mem_cons_of_mem k (r.used j (List.mem_filter.mp old).1)
      · exact List.mem_cons.mpr (.inl (List.mem_singleton.mp new))
    missing := fun j member missing => by
      by_cases inside : j ∈ all
      · have front : j ∈ all.take n := by
          rw [← parts] at inside
          exact (List.mem_append.mp inside).resolve_right missing
        obtain ⟨before,after,split⟩ := List.append_of_mem front
        have whole : all = before ++ j :: (after ++ all.drop n) := by
          calc all = all.take n ++ all.drop n := parts.symm
            _ = before ++ j :: (after ++ all.drop n) := by rw [split,List.append_assoc,List.cons_append]
        have later : (after ++ all.drop n).Nodup :=
          (List.nodup_cons.mp (List.nodup_append.mp (whole ▸ nodup)).2.1).2
        rw [behind_moved r k (moved.trans whole),List.toFinset_card_of_nodup later,List.length_append,List.length_drop]
        have taken : n ≠ 0 := by
          rintro rfl
          cases front
        omega
      · rw [← moved,List.mem_append,List.mem_singleton,not_or,List.mem_filter] at inside
        have other : j ≠ k := inside.2
        have gone : j ∉ keys := fun old => inside.1 ⟨old,decide_eq_true other⟩
        have old : j ∈ uses := (List.mem_cons.mp member).resolve_left other
        rw [since_other uses (Ne.symm other)]
        exact (r.missing j old gone).trans (Finset.card_le_card (Finset.subset_insert k _))
    bounded := by
      rw [List.length_drop]
      omega }

end

end Recency
