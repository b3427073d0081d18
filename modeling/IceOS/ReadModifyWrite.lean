import IceOS.ActionRuns
import Mathlib.Logic.Function.Basic

/-! Requests that read a cell, edit what they read, and write it back: each edits a copy of its own, or the one value that
all of them share. -/
namespace ReadModifyWrite

open ActionRuns

inductive Progress (σ : Type) where
  | arrived
  | copied (copy : σ)
  | done

/-- The value, with the requests whose edits it was given, latest first. -/
structure Cell (σ ι : Type) where
  value : σ
  progress : ι → Progress σ := fun _ => .arrived
  log : List ι := []

variable {σ ι : Type} [DecidableEq ι]

/-- A request reads, or it writes. A shared value is edited as soon as it was read. -/
def step (shared : Bool) (edit : ι → σ → σ) (s : Cell σ ι) (i : ι) : Option (Cell σ ι) :=
  match s.progress i with
  | .arrived =>
    if shared then
      some ⟨edit i s.value,Function.update s.progress i (.copied (edit i s.value)),i :: s.log⟩
    else some { s with progress := Function.update s.progress i (.copied s.value) }
  | .copied copy =>
    if shared then some { s with progress := Function.update s.progress i .done }
    else some ⟨edit i copy,Function.update s.progress i .done,i :: s.log⟩
  | .done => some s

/-- One edit after the other. -/
def replay (edit : ι → σ → σ) (start : σ) (log : List ι) : σ := log.foldr edit start

/-- What a request writes is what its edit makes of the value that is there. -/
def Careful (shared : Bool) (edit : ι → σ → σ) (s : Cell σ ι) (i : ι) : Prop :=
  match s.progress i with
  | .copied copy => shared = true ∨ edit i copy = edit i s.value
  | _ => True

/-- The edits in the log are those that took effect. -/
structure Logged (shared : Bool) (s : Cell σ ι) : Prop where
  once : s.log.Nodup
  fresh : ∀ i, s.progress i = .arrived → i ∉ s.log
  copied : ∀ i copy, s.progress i = .copied copy → (i ∈ s.log ↔ shared = true)
  done : ∀ i, s.progress i = .done → i ∈ s.log

section

variable {shared : Bool} {edit : ι → σ → σ} {start : σ} {s t : Cell σ ι} {i : ι}

theorem enabled (shared : Bool) (edit : ι → σ → σ) (s : Cell σ ι) (i : ι) : ∃ t, step shared edit s i = some t := by
  rw [step]
  split
  · split <;> exact ⟨_,rfl⟩
  · split <;> exact ⟨_,rfl⟩
  · exact ⟨_,rfl⟩

/-- The edit of a request takes effect, once. -/
theorem Logged.effect (logged : Logged shared s) (p : Progress σ) (value : σ) (new : i ∉ s.log) (started : p ≠ .arrived)
    (right : ∀ copy, p = .copied copy → shared = true) :
    Logged shared ⟨value,Function.update s.progress i p,i :: s.log⟩ where
  once := List.nodup_cons.mpr ⟨new,logged.once⟩
  fresh j there := by
    simp only [Function.update_apply] at there
    split at there
    · exact absurd there started
    · next other => simpa [other] using logged.fresh j there
  copied j copy there := by
    simp only [Function.update_apply] at there
    split at there
    · next same => simpa [same] using right copy there
    · next other => simpa [other] using logged.copied j copy there
  done j there := by
    simp only [Function.update_apply] at there
    split at there
    · next same => exact List.mem_cons.mpr (.inl same)
    · exact List.mem_cons_of_mem i (logged.done j there)

/-- A request goes on without an effect. -/
theorem Logged.pass (logged : Logged shared s) {p : Progress σ} (started : p ≠ .arrived)
    (right : ∀ copy, p = .copied copy → (i ∈ s.log ↔ shared = true)) (finished : p = .done → i ∈ s.log) :
    Logged shared { s with progress := Function.update s.progress i p } where
  once := logged.once
  fresh j there := by
    simp only [Function.update_apply] at there
    split at there
    · exact absurd there started
    · exact logged.fresh j there
  copied j copy there := by
    simp only [Function.update_apply] at there
    split at there
    · next same => exact same ▸ right copy there
    · exact logged.copied j copy there
  done j there := by
    simp only [Function.update_apply] at there
    split at there
    · next same => exact same ▸ finished there
    · exact logged.done j there

theorem Logged.step (logged : Logged shared s) (stepped : ReadModifyWrite.step shared edit s i = some t) :
    Logged shared t := by
  rw [ReadModifyWrite.step] at stepped
  cases there : s.progress i with
  | arrived =>
    simp only [there] at stepped
    split at stepped
    · next sharing =>
      cases stepped
      exact logged.effect (.copied _) _ (logged.fresh i there) nofun (fun _ _ => sharing)
    · next copying =>
      cases stepped
      refine logged.pass nofun (fun copy _ => ?_) nofun
      exact iff_of_false (logged.fresh i there) copying
  | copied copy =>
    simp only [there] at stepped
    split at stepped
    · next sharing =>
      cases stepped
      exact logged.pass nofun nofun (fun _ => (logged.copied i copy there).mpr sharing)
    · next copying =>
      cases stepped
      refine logged.effect .done _ (fun member => ?_) nofun nofun
      exact copying ((logged.copied i copy there).mp member)
  | done =>
    simp only [there] at stepped
    cases stepped
    exact logged

end

end ReadModifyWrite
