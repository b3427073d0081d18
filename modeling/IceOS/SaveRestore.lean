import IceOS.ActionRuns
import Mathlib.Logic.Function.Basic

/-! A setting shared by activities that overlap in any order: on entry an activity saves the setting and
changes it, on leaving it puts back what it saved. -/
namespace SaveRestore

variable {ι σ : Type} [DecidableEq ι]

/-- An activity is under way while it holds a saved setting. -/
structure State (ι σ : Type) where
  cell : σ
  saved : ι → Option σ := fun _ => none

inductive Action (ι : Type) where
  | enter (i : ι)
  | leave (i : ι)
  deriving DecidableEq, Repr

def step (patch : ι → σ → σ) (s : State ι σ) : Action ι → Option (State ι σ)
  | .enter i =>
    match s.saved i with
    | none => some ⟨patch i s.cell,Function.update s.saved i (some s.cell)⟩
    | some _ => some s
  | .leave i =>
    match s.saved i with
    | none => some s
    | some c => some ⟨c,Function.update s.saved i none⟩

def State.Active (s : State ι σ) (i : ι) : Prop := s.saved i ≠ none

omit [DecidableEq ι] in
theorem State.active_of_saved {s : State ι σ} {i : ι} {c : σ} (known : s.saved i = some c) : s.Active i := by
  rw [State.Active,known]
  exact nofun

variable {patch : ι → σ → σ} {fits : ι → σ → Prop} {first : σ}

variable (patch) in
theorem step_total (s : State ι σ) (a : Action ι) : ∃ t, step patch s a = some t := by
  cases a with
  | enter i => cases known : s.saved i <;> simp [step,known]
  | leave i => cases known : s.saved i <;> simp [step,known]

/-- A step changes nothing, begins an activity or ends one. -/
theorem step_cases {s t : State ι σ} {a : Action ι} (stepped : step patch s a = some t) :
    t = s ∨ (∃ i, a = .enter i ∧ s.saved i = none ∧ t = ⟨patch i s.cell,Function.update s.saved i (some s.cell)⟩) ∨
      ∃ i c, a = .leave i ∧ s.saved i = some c ∧ t = ⟨c,Function.update s.saved i none⟩ := by
  cases a with
  | enter i =>
    cases known : s.saved i <;> simp only [step,known,Option.some.injEq] at stepped
    · exact .inr (.inl ⟨i,rfl,known,stepped.symm⟩)
    · exact .inl stepped.symm
  | leave i =>
    cases known : s.saved i <;> simp only [step,known,Option.some.injEq] at stepped
    · exact .inl stepped.symm
    · exact .inr (.inr ⟨i,_,rfl,known,stepped.symm⟩)

/-- Every activity under way is served, and with none under way the setting is the first one. -/
structure Served (fits : ι → σ → Prop) (first : σ) (s : State ι σ) : Prop where
  fits : ∀ i, s.Active i → fits i s.cell
  first : (∀ i, ¬s.Active i) → s.cell = first

/-- What is set on entry serves all that are under way, and what is put back on leaving serves those that stay. -/
def Careful (patch : ι → σ → σ) (fits : ι → σ → Prop) (first : σ) (s : State ι σ) : Action ι → Prop
  | .enter i => s.saved i = none → fits i (patch i s.cell) ∧ ∀ j, s.Active j → fits j (patch i s.cell)
  | .leave i => ∀ c ∈ s.saved i, (∀ j, j ≠ i → s.Active j → fits j c) ∧ ((∀ j, j ≠ i → ¬s.Active j) → c = first)

omit [DecidableEq ι] in
theorem served_start : Served fits first (⟨first,fun _ => none⟩ : State ι σ) :=
  ⟨fun _ active => absurd rfl active,fun _ => rfl⟩

theorem active_update_some (saved : ι → Option σ) (cell c : σ) (i j : ι) :
    State.Active ⟨cell,Function.update saved i (some c)⟩ j ↔ j = i ∨ saved j ≠ none := by
  by_cases same : j = i
  · subst same
    simp [State.Active]
  · simp [State.Active,same]

theorem active_update_none (saved : ι → Option σ) (cell : σ) (i j : ι) :
    State.Active ⟨cell,Function.update saved i none⟩ j ↔ j ≠ i ∧ saved j ≠ none := by
  by_cases same : j = i
  · subst same
    simp [State.Active]
  · simp [State.Active,same]

theorem served_iff {s t : State ι σ} {a : Action ι} (served : Served fits first s) (stepped : step patch s a = some t) :
    Served fits first t ↔ Careful patch fits first s a := by
  cases a with
  | enter i =>
    cases known : s.saved i with
    | some c =>
      simp only [step,known,Option.some.injEq] at stepped
      subst stepped
      simp [Careful,known,served]
    | none =>
      simp only [step,known,Option.some.injEq] at stepped
      subst stepped
      simp only [Careful,known,forall_const]
      constructor
      · intro after
        refine ⟨after.fits i ((active_update_some _ _ _ i i).mpr (.inl rfl)),fun j active => ?_⟩
        exact after.fits j ((active_update_some _ _ _ i j).mpr (.inr active))
      · rintro ⟨own,others⟩
        refine ⟨fun j active => ?_,fun idle => ?_⟩
        · rcases (active_update_some _ _ _ i j).mp active with rfl | active
          · exact own
          · exact others j active
        · exact absurd ((active_update_some _ _ _ i i).mpr (.inl rfl)) (idle i)
  | leave i =>
    cases known : s.saved i with
    | none =>
      simp only [step,known,Option.some.injEq] at stepped
      subst stepped
      simp [Careful,known,served]
    | some c =>
      simp only [step,known,Option.some.injEq] at stepped
      subst stepped
      simp only [Careful,known,Option.mem_def,Option.some.injEq,forall_eq']
      constructor
      · intro after
        refine ⟨fun j other active => ?_,fun idle => ?_⟩
        · exact after.fits j ((active_update_none _ _ i j).mpr ⟨other,active⟩)
        · refine after.first fun j active => ?_
          obtain ⟨other,active⟩ := (active_update_none _ _ i j).mp active
          exact idle j other active
      · rintro ⟨others,last⟩
        refine ⟨fun j active => ?_,fun idle => last fun j other active => ?_⟩
        · obtain ⟨other,active⟩ := (active_update_none _ _ i j).mp active
          exact others j other active
        · exact idle j ((active_update_none _ _ i j).mpr ⟨other,active⟩)

/-- The setting serves whoever is under way all along the runs of careful steps and along no others. -/
theorem served_throughout_iff (actions : List (Action ι)) :
    (∀ begun rest u, actions = begun ++ rest →
      ActionRuns.run (step patch) begun ⟨first,fun _ => none⟩ = some u → Served fits first u) ↔
      ActionRuns.Throughout (step patch) (Careful patch fits first) actions ⟨first,fun _ => none⟩ := by
  obtain ⟨t,ran⟩ := ActionRuns.run_total (step_total patch) actions ⟨first,fun _ => none⟩
  exact ActionRuns.throughout_iff (fun _ _ _ served stepped => served_iff served stepped) ran served_start

end SaveRestore
