import Mathlib.Algebra.Order.Group.Basic
import Mathlib.Data.List.Basic

/-! Admission by a bucket of the latest admitted times: an arrival goes through while fewer than a
given number of the times in the bucket are less than a window old. -/
namespace SlidingWindow

variable {τ : Type} [AddCommGroup τ] [LinearOrder τ] [IsOrderedAddMonoid τ]

/-- The times that still count at `now`. -/
def recent (window now : τ) (times : List τ) : List τ := times.filter (now - · < window)

/-- No two times of the set are a window apart. -/
def Narrow (window : τ) (inside : τ → Prop) : Prop := ∀ s, inside s → ∀ t, inside t → t - s < window

theorem narrow_from (window start : τ) : Narrow window fun t => start ≤ t ∧ t < start + window := by
  intro s early t late
  calc t - s ≤ t - start := sub_le_sub_left early.1 t
    _ < window := sub_lt_iff_lt_add'.mpr late.2

theorem narrow_until (window start : τ) : Narrow window fun t => start < t ∧ t ≤ start + window := by
  intro s early t late
  calc t - s < t - start := sub_lt_sub_left early.1 t
    _ ≤ window := sub_le_iff_le_add'.mpr late.2

omit [IsOrderedAddMonoid τ] in
theorem recent_append (window now : τ) (old new : List τ) :
    recent window now (old ++ new) = recent window now old ++ recent window now new := List.filter_append old new

/-- What counts later counts now. -/
theorem recent_recent {window now later : τ} (order : now ≤ later) (times : List τ) :
    recent window later (recent window now times) = recent window later times := by
  simp only [recent,List.filter_filter]
  refine List.filter_congr fun t _ => ?_
  have earlier : later - t < window → now - t < window := lt_of_le_of_lt (sub_le_sub_right order t)
  simpa using earlier

/-- A bucket stands for the whole log of admitted times: from `last` on, they count the same, and no
narrow set holds more than `max` of the log. -/
structure Tracks (window : τ) (max : Nat) (last : τ) (log bucket : List τ) : Prop where
  counts : ∀ now, last ≤ now → recent window now bucket = recent window now log
  capped : ∀ inside : τ → Prop, Narrow window inside → ∀ [DecidablePred inside],
    (log.filter (inside ·)).length ≤ max

section

variable {window : τ} {max : Nat} {last : τ} {log bucket : List τ}

omit [IsOrderedAddMonoid τ] in
theorem tracks_nil (window : τ) (max : Nat) (last : τ) : Tracks window max last [] [] where
  counts _ _ := rfl
  capped _ _ := Nat.zero_le max

omit [IsOrderedAddMonoid τ] in
theorem Tracks.later (tracks : Tracks window max last log bucket) {now : τ} (order : last ≤ now) :
    Tracks window max now log bucket where
  counts next later := tracks.counts next (order.trans later)
  capped := tracks.capped

/-- An arrival prunes the bucket. -/
theorem Tracks.prune (tracks : Tracks window max last log bucket) {now : τ} (order : last ≤ now) :
    Tracks window max now log (recent window now bucket) where
  counts next later := (recent_recent later bucket).trans (tracks.counts next (order.trans later))
  capped := tracks.capped

omit [IsOrderedAddMonoid τ] in
/-- Whatever a narrow set holds of the log when it also holds `now` still counts at `now`. -/
theorem Tracks.near_le (tracks : Tracks window max last log bucket) {now : τ} (order : last ≤ now)
    {inside : τ → Prop} [DecidablePred inside] (narrow : Narrow window inside) (arrived : inside now) :
    (log.filter (inside ·)).length ≤ (recent window now bucket).length := by
  rw [tracks.counts now order]
  refine (List.monotone_filter_right log fun t member => ?_).length_le
  exact decide_eq_true (narrow t (of_decide_eq_true member) now arrived)

theorem Tracks.admit (tracks : Tracks window max last log bucket) {now : τ} (order : last ≤ now)
    (room : (recent window now bucket).length < max) :
    Tracks window max now (log ++ [now]) (recent window now bucket ++ [now]) where
  counts next later := by rw [recent_append,recent_append,(tracks.prune order).counts next later]
  capped inside narrow _ := by
    rw [List.filter_append,List.length_append]
    by_cases arrived : inside now
    · have near := tracks.near_le order narrow arrived
      simp only [List.filter_cons,arrived,decide_true,if_true,List.filter_nil,List.length_singleton]
      omega
    · simp only [List.filter_cons,arrived,decide_false,Bool.false_eq_true,if_false,List.filter_nil,List.length_nil,
        Nat.add_zero]
      exact tracks.capped inside narrow

end

end SlidingWindow
