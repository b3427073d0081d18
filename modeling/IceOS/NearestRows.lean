import Mathlib.Data.List.Perm.Basic
import Mathlib.Data.List.Sort
import Mathlib.Order.Lattice
import Mathlib.Tactic.ByContra

/-! Rows ranked by a distance: a query answers with the first of them, in some order by distance. -/
namespace NearestRows

variable {ρ τ δ : Type} [LinearOrder δ]

/-- `ORDER BY distance LIMIT k`; rows at the same distance come in any order. -/
def Nearest (distance : ρ → δ) (k : Nat) (rows out : List ρ) : Prop :=
  ∃ order : List ρ, order.Perm rows ∧ order.Pairwise (distance · ≤ distance ·) ∧ out = order.take k

/-- Whatever may come among the first `k` by one distance is by the other no farther than what may come after it. -/
def Agree (first second : ρ → δ) (k : Nat) (rows : List ρ) : Prop :=
  ∀ u ∈ rows, ∀ v ∈ rows, rows.countP (first · < first u) < k → first u ≤ first v → second u ≤ second v

theorem Nearest.perm {distance : ρ → δ} {k : Nat} {rows rows' out : List ρ} (same : rows.Perm rows')
    (nearest : Nearest distance k rows out) : Nearest distance k rows' out := by
  obtain ⟨order,perm,sorted,rfl⟩ := nearest
  exact ⟨order,perm.trans same,sorted,rfl⟩

theorem Nearest.map {distance : τ → δ} (f : ρ → τ) {k : Nat} {rows out : List ρ}
    (nearest : Nearest (fun r => distance (f r)) k rows out) : Nearest distance k (rows.map f) (out.map f) := by
  obtain ⟨order,perm,sorted,rfl⟩ := nearest
  exact ⟨order.map f,perm.map f,List.pairwise_map.mpr sorted,List.map_take⟩

theorem nearest_map_iff {distance : τ → δ} (f : ρ → τ) {k : Nat} {rows : List ρ} {shown : List τ} :
    Nearest distance k (rows.map f) shown ↔
      ∃ out, Nearest (fun r => distance (f r)) k rows out ∧ shown = out.map f := by
  constructor
  · rintro ⟨order,perm,sorted,rfl⟩
    obtain ⟨order,rfl,same⟩ := (congrFun (congrFun (List.eq_map_comp_perm f) order) rows).mpr perm
    rw [List.pairwise_map] at sorted
    exact ⟨order.take k,⟨order,same,sorted,rfl⟩,List.map_take.symm⟩
  · rintro ⟨out,nearest,rfl⟩
    exact nearest.map f

/-- Rows can be sorted by any distance. -/
theorem exists_sorted (distance : ρ → δ) (rows : List ρ) :
    ∃ order : List ρ, order.Perm rows ∧ order.Pairwise (distance · ≤ distance ·) := by
  refine ⟨rows.mergeSort fun a b => decide (distance a ≤ distance b),List.mergeSort_perm _ _,?_⟩
  have sorted : (rows.mergeSort fun a b => decide (distance a ≤ distance b)).Pairwise
      fun a b => decide (distance a ≤ distance b) = true := by
    refine List.pairwise_mergeSort (fun a b c first second => ?_) (fun a b => ?_) rows
    · exact decide_eq_true (le_trans (of_decide_eq_true first) (of_decide_eq_true second))
    · simpa using le_total (distance a) (distance b)
  exact sorted.imp of_decide_eq_true

theorem insertionSort_nearest (distance : ρ → δ) (k : Nat) (rows : List ρ) :
    Nearest distance k rows ((rows.insertionSort (distance · ≤ distance ·)).take k) := by
  have : Std.Total fun a b : ρ => distance a ≤ distance b := ⟨fun a b => le_total (distance a) (distance b)⟩
  have : IsTrans ρ fun a b => distance a ≤ distance b := ⟨fun a b c first second => le_trans first second⟩
  exact ⟨_,List.perm_insertionSort _ rows,List.pairwise_insertionSort _ rows,rfl⟩

/-- The rows are as many as are asked for, or all, and none that is left out is closer. -/
def Closest (distance : ρ → δ) (k : Nat) (rows out : List ρ) : Prop :=
  ∃ left, (out ++ left).Perm rows ∧ out.length = min k rows.length ∧ ∀ u ∈ out, ∀ v ∈ left, distance u ≤ distance v

theorem Closest.mem {distance : ρ → δ} {k : Nat} {rows out : List ρ} (closest : Closest distance k rows out) {u : ρ}
    (member : u ∈ out) : u ∈ rows := by
  obtain ⟨left,perm,_,_⟩ := closest
  exact perm.mem_iff.mp (List.mem_append_left left member)

theorem Closest.le {distance : ρ → δ} {k : Nat} {rows out : List ρ} (closest : Closest distance k rows out) {u v : ρ}
    (member : u ∈ out) (inside : v ∈ rows) (absent : v ∉ out) : distance u ≤ distance v := by
  obtain ⟨left,perm,_,far⟩ := closest
  exact far u member v ((List.mem_append.mp (perm.mem_iff.mpr inside)).resolve_left absent)

theorem Nearest.pairwise {distance : ρ → δ} {k : Nat} {rows out : List ρ} (nearest : Nearest distance k rows out) :
    out.Pairwise (distance · ≤ distance ·) := by
  obtain ⟨order,perm,sorted,rfl⟩ := nearest
  exact sorted.sublist (List.take_sublist k order)

theorem Nearest.closest {distance : ρ → δ} {k : Nat} {rows out : List ρ} (nearest : Nearest distance k rows out) :
    Closest distance k rows out := by
  obtain ⟨order,perm,sorted,rfl⟩ := nearest
  refine ⟨order.drop k,by rwa [List.take_append_drop],by rw [List.length_take,perm.length_eq],?_⟩
  rw [← List.take_append_drop k order] at sorted
  exact (List.pairwise_append.mp sorted).2.2

/-- In sorted rows whatever is strictly closer comes before. -/
theorem countP_le {distance : ρ → δ} {before after : List ρ} {u : ρ}
    (sorted : (before ++ u :: after).Pairwise (distance · ≤ distance ·)) :
    (before ++ u :: after).countP (distance · < distance u) ≤ before.length := by
  have behind : after.countP (distance · < distance u) = 0 := by
    refine List.countP_eq_zero.mpr fun v member => ?_
    have close := (List.pairwise_cons.mp (List.pairwise_append.mp sorted).2.1).1 v member
    simpa using close
  rw [List.countP_append,List.countP_cons,behind]
  simp only [lt_irrefl,decide_false,Bool.false_eq_true,if_false,Nat.add_zero]
  exact List.countP_le_length

/-- One of the first `k` rows by one distance is by the other no farther than the rows after it. -/
theorem Agree.le {first second : ρ → δ} {k : Nat} {rows before after : List ρ} {u v : ρ}
    (agree : Agree first second k rows) (perm : (before ++ u :: after).Perm rows)
    (sorted : (before ++ u :: after).Pairwise (first · ≤ first ·)) (early : before.length < k) (later : v ∈ after) :
    second u ≤ second v := by
  refine agree u (perm.mem_iff.mp (by simp)) v (perm.mem_iff.mp (by simp [later])) ?_
    ((List.pairwise_cons.mp (List.pairwise_append.mp sorted).2.1).1 v later)
  rw [← perm.countP_eq]
  exact Nat.lt_of_le_of_lt (countP_le sorted) early

/-- So they are sorted by the other one as well, and before all the rest. -/
theorem Agree.sorted {first second : ρ → δ} {k : Nat} {rows : List ρ} (agree : Agree first second k rows)
    (before : List ρ) {after : List ρ} (perm : (before ++ after).Perm rows)
    (sorted : (before ++ after).Pairwise (first · ≤ first ·)) :
    (after.take (k - before.length)).Pairwise (second · ≤ second ·) ∧
      ∀ u ∈ after.take (k - before.length), ∀ v ∈ after.drop (k - before.length), second u ≤ second v := by
  induction after generalizing before with
  | nil => simp
  | cons u after ih =>
    rcases Nat.lt_or_ge before.length k with early | late
    · obtain ⟨n,left⟩ : ∃ n, k - before.length = n + 1 := ⟨k - before.length - 1,by omega⟩
      have rest := ih (before ++ [u]) (by simpa using perm) (by simpa using sorted)
      have shorter : k - (before ++ [u]).length = n := by
        rw [List.length_append,List.length_singleton]
        omega
      rw [shorter] at rest
      rw [left,List.take_succ_cons,List.drop_succ_cons]
      refine ⟨List.pairwise_cons.mpr ⟨fun v member => ?_,rest.1⟩,List.forall_mem_cons.mpr ⟨fun v member => ?_,rest.2⟩⟩
      · exact agree.le perm sorted early (List.mem_of_mem_take member)
      · exact agree.le perm sorted early (List.mem_of_mem_drop member)
    · simp [Nat.sub_eq_zero_of_le late]

theorem Agree.nearest {first second : ρ → δ} {k : Nat} {rows out : List ρ} (agree : Agree first second k rows)
    (nearest : Nearest first k rows out) : Nearest second k rows out := by
  obtain ⟨order,perm,sorted,rfl⟩ := nearest
  obtain ⟨early,cross⟩ := agree.sorted [] perm sorted
  obtain ⟨rest,same,late⟩ := exists_sorted second (order.drop k)
  refine ⟨order.take k ++ rest,?_,?_,?_⟩
  · refine ((List.Perm.refl (order.take k)).append same).trans ?_
    rwa [List.take_append_drop]
  · exact List.pairwise_append.mpr ⟨early,late,fun u inside v outside => cross u inside v (same.mem_iff.mp outside)⟩
  · rcases Nat.lt_or_ge order.length k with short | long
    · rw [List.drop_eq_nil_of_le (Nat.le_of_lt short)] at same
      rw [same.eq_nil,List.append_nil,List.take_take,Nat.min_self]
    · rw [List.take_left' (List.length_take_of_le long)]

/-- Any row that has fewer than `k` strictly closer ones may come before another that is no closer. -/
theorem exists_before (distance : ρ → δ) {rows : List ρ} {u : ρ} (member : u ∈ rows) :
    ∃ closer rest, (closer ++ u :: rest).Perm rows ∧ (closer ++ u :: rest).Pairwise (distance · ≤ distance ·) ∧
      closer.length = rows.countP (distance · < distance u) ∧ ∀ v ∈ closer, distance v < distance u := by
  classical
  obtain ⟨closer,same,sorted⟩ := exists_sorted distance (rows.filter (distance · < distance u))
  obtain ⟨rest,same',sorted'⟩ := exists_sorted distance ((rows.filter fun v => !decide (distance v < distance u)).erase u)
  have close (v : ρ) (inside : v ∈ closer) : distance v < distance u := by
    simpa using (List.mem_filter.mp (same.mem_iff.mp inside)).2
  have far (v : ρ) (inside : v ∈ rest) : distance u ≤ distance v := by
    simpa using (List.mem_filter.mp (List.mem_of_mem_erase (same'.mem_iff.mp inside))).2
  refine ⟨closer,rest,?_,?_,?_,close⟩
  · have own : u ∈ rows.filter fun v => !decide (distance v < distance u) := by simp [member]
    exact (same.append ((same'.cons u).trans (List.perm_cons_erase own).symm)).trans (List.filter_append_perm _ rows)
  · refine List.pairwise_append.mpr ⟨sorted,List.pairwise_cons.mpr ⟨far,sorted'⟩,fun v inside w outside => ?_⟩
    rcases List.mem_cons.mp outside with rfl | later
    · exact le_of_lt (close v inside)
    · exact le_trans (le_of_lt (close v inside)) (far w later)
  · rw [same.length_eq,List.countP_eq_length_filter]

/-- The answers by one distance are answers by another exactly where the two agree. -/
theorem nearest_iff_agree {first second : ρ → δ} {k : Nat} {rows : List ρ} :
    (∀ out, Nearest first k rows out → Nearest second k rows out) ↔ Agree first second k rows := by
  refine ⟨fun always u inside v inside' few close => ?_,fun agree out => agree.nearest⟩
  obtain ⟨closer,rest,perm,sorted,count,near⟩ := exists_before first inside
  obtain ⟨order,perm',sorted',taken⟩ := always _ ⟨_,perm,sorted,rfl⟩
  rw [← count] at few
  obtain ⟨n,left⟩ : ∃ n, k - closer.length = n + 1 := ⟨k - closer.length - 1,by omega⟩
  rw [List.take_append,List.take_of_length_le (Nat.le_of_lt few),left,List.take_succ_cons] at taken
  rw [← List.take_append_drop k order,← taken] at sorted'
  have member := perm'.mem_iff.mpr inside'
  rw [← List.take_append_drop k order,← taken,List.append_assoc,List.cons_append,List.mem_append,List.mem_cons] at member
  rw [List.append_assoc,List.cons_append] at sorted'
  have after := List.pairwise_cons.mp (List.pairwise_append.mp sorted').2.1
  rcases member with closest | rfl | later
  · exact absurd close (not_le.mpr (near v closest))
  · exact le_rfl
  · exact after.1 v later

end NearestRows
