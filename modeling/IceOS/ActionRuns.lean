import Mathlib.Data.List.Basic

/-! Runs of a system whose steps are chosen by a list of actions: an action that is not
enabled has no successor. -/
namespace ActionRuns

variable {σ α : Type}

@[grind =] def run (step : σ → α → Option σ) : List α → σ → Option σ
  | [], s => some s
  | a :: rest, s => (step s a).bind (run step rest)

/-- Every action of the run is taken in a state in which it is `good`. -/
def Throughout (step : σ → α → Option σ) (good : σ → α → Prop) : List α → σ → Prop
  | [], _ => True
  | a :: rest, s => good s a ∧ ∀ t ∈ step s a, Throughout step good rest t

instance decidableThroughout (step : σ → α → Option σ) (good : σ → α → Prop)
    [decide : ∀ s a, Decidable (good s a)] : ∀ actions s, Decidable (Throughout step good actions s)
  | [], _ => isTrue trivial
  | a :: rest, s =>
    have := decidableThroughout step good rest
    inferInstanceAs (Decidable (good s a ∧ ∀ t ∈ step s a, Throughout step good rest t))

theorem run_append (step : σ → α → Option σ) (first second : List α) (s : σ) :
    run step (first ++ second) s = (run step first s).bind (run step second) := by
  induction first generalizing s with
  | nil => rfl
  | cons a rest ih =>
    have later : run step (rest ++ second) = fun t => (run step rest t).bind (run step second) := funext ih
    simp only [List.cons_append,run,later,Option.bind_assoc]

theorem run_map_actions {β : Type} (step : σ → β → Option σ) (g : α → β) (actions : List α) (s : σ) :
    run step (actions.map g) s = run (fun s a => step s (g a)) actions s := by
  induction actions generalizing s with
  | nil => rfl
  | cons a rest ih => exact congrArg (step s (g a)).bind (funext ih)

/-- A function of the state that every step commutes with commutes with the runs. -/
theorem run_map {τ : Type} {step : σ → α → Option σ} {step' : τ → α → Option τ} (f : σ → τ) {actions : List α}
    (commutes : ∀ a ∈ actions, ∀ s, (step s a).map f = step' (f s) a) (s : σ) :
    (run step actions s).map f = run step' actions (f s) := by
  induction actions generalizing s with
  | nil => rfl
  | cons a rest ih =>
    rw [run,run,← commutes a (List.mem_cons_self ..) s]
    cases step s a with
    | none => rfl
    | some t => exact ih (fun b member => commutes b (List.mem_cons_of_mem _ member)) t

theorem run_pair {step : σ → α → Option σ} {a b : α} {s t u : σ} (first : step s a = some t)
    (second : step t b = some u) : run step [a,b] s = some u := by
  simp only [run,first,second,Option.bind_some]

/-- Where there is no run, some action is not enabled in the state that those before it lead to. -/
theorem run_stuck {step : σ → α → Option σ} {actions : List α} {s : σ} (failed : run step actions s = none) :
    ∃ first a rest t, actions = first ++ a :: rest ∧ run step first s = some t ∧ step t a = none := by
  induction actions generalizing s with
  | nil => cases failed
  | cons a actions ih =>
    cases stepped : step s a with
    | none => exact ⟨[],a,actions,s,rfl,rfl,stepped⟩
    | some next =>
      rw [run,stepped,Option.bind_some] at failed
      obtain ⟨first,b,rest,t,rfl,reached,stuck⟩ := ih failed
      exact ⟨a :: first,b,rest,t,rfl,by rw [run,stepped,Option.bind_some,reached],stuck⟩

/-- Where every action is enabled there is a run for every list of them. -/
theorem run_total {step : σ → α → Option σ} (enabled : ∀ s a, ∃ t, step s a = some t) (actions : List α) (s : σ) :
    ∃ t, run step actions s = some t := by
  induction actions generalizing s with
  | nil => exact ⟨s,rfl⟩
  | cons a rest ih =>
    obtain ⟨u,first⟩ := enabled s a
    obtain ⟨t,later⟩ := ih u
    exact ⟨t,by simp only [run,first,Option.bind_some,later]⟩

/-- What every good step preserves holds at the end of a run of good steps. -/
theorem run_invariant {step : σ → α → Option σ} {good : σ → α → Prop} {inv : σ → Prop}
    (preserved : ∀ s a t, inv s → good s a → step s a = some t → inv t) {actions : List α} {s t : σ}
    (ran : run step actions s = some t) (start : inv s) (fine : Throughout step good actions s) : inv t := by
  induction actions generalizing s with
  | nil =>
    cases ran
    exact start
  | cons a rest ih =>
    obtain ⟨u,first,later⟩ := Option.bind_eq_some_iff.mp ran
    exact ih later (preserved s a u start fine.1 first) (fine.2 u first)

theorem throughout_append {step : σ → α → Option σ} {good : σ → α → Prop} {first second : List α} {s t : σ}
    (ran : run step first s = some t) (fine : Throughout step good (first ++ second) s) :
    Throughout step good first s ∧ Throughout step good second t := by
  induction first generalizing s with
  | nil =>
    cases ran
    exact ⟨trivial,fine⟩
  | cons a rest ih =>
    obtain ⟨u,stepped,later⟩ := Option.bind_eq_some_iff.mp ran
    obtain ⟨early,late⟩ := ih later (fine.2 u stepped)
    refine ⟨⟨fine.1,fun v other => ?_⟩,late⟩
    rw [Option.mem_def,stepped] at other
    cases other
    exact early

theorem throughout_append_of {step : σ → α → Option σ} {good : σ → α → Prop} {first second : List α} {s t : σ}
    (ran : run step first s = some t) (early : Throughout step good first s) (late : Throughout step good second t) :
    Throughout step good (first ++ second) s := by
  induction first generalizing s with
  | nil =>
    cases ran
    exact late
  | cons a rest ih =>
    obtain ⟨u,stepped,later⟩ := Option.bind_eq_some_iff.mp ran
    refine ⟨early.1,fun v other => ?_⟩
    cases stepped.symm.trans other
    exact ih later (early.2 u stepped)

theorem throughout_trivial (step : σ → α → Option σ) (actions : List α) (s : σ) :
    Throughout step (fun _ _ => True) actions s := by
  induction actions generalizing s with
  | nil => trivial
  | cons a rest ih => exact ⟨trivial,fun t _ => ih t⟩

/-- A condition on the actions alone. -/
theorem throughout_actions_iff {step : σ → α → Option σ} {good : α → Prop} {actions : List α} {s t : σ}
    (ran : run step actions s = some t) : Throughout step (fun _ a => good a) actions s ↔ ∀ a ∈ actions, good a := by
  induction actions generalizing s with
  | nil => simp [Throughout]
  | cons a rest ih =>
    obtain ⟨u,stepped,later⟩ := Option.bind_eq_some_iff.mp ran
    simp [Throughout,stepped,ih later]

/-- What every step preserves holds in every reachable state. -/
theorem run_always {step : σ → α → Option σ} {inv : σ → Prop}
    (preserved : ∀ s a t, inv s → step s a = some t → inv t) {actions : List α} {s t : σ}
    (ran : run step actions s = some t) (start : inv s) : inv t :=
  run_invariant (fun s a t holds _ => preserved s a t holds) ran start (throughout_trivial step actions s)

/-- Where an invariant makes no difference between two conditions, the runs that are good by the one are those that are
by the other. -/
theorem throughout_congr {step : σ → α → Option σ} {good fine : σ → α → Prop} {inv : σ → Prop}
    (preserved : ∀ s a t, inv s → step s a = some t → inv t) (same : ∀ s a, inv s → (good s a ↔ fine s a))
    (actions : List α) {s : σ} (start : inv s) : Throughout step good actions s ↔ Throughout step fine actions s := by
  induction actions generalizing s with
  | nil => exact Iff.rfl
  | cons a rest ih =>
    exact and_congr (same s a start) (forall₂_congr fun t stepped => ih (preserved s a t start stepped))

/-- Where a strong invariant holds, exactly the good steps lead to a state with some property, and they preserve the
invariant: the property holds all along the runs of good steps and along no others. -/
theorem throughout_iff_of_strong {step : σ → α → Option σ} {good : σ → α → Prop} {strong prop : σ → Prop}
    (exact : ∀ s a t, strong s → step s a = some t → (prop t ↔ good s a))
    (kept : ∀ s a t, strong s → good s a → step s a = some t → strong t) {actions : List α} {s t : σ}
    (ran : run step actions s = some t) (start : strong s) (holds : prop s) :
    (∀ first rest u, actions = first ++ rest → run step first s = some u → prop u) ↔ Throughout step good actions s := by
  induction actions generalizing s with
  | nil =>
    refine ⟨fun _ => trivial,fun _ first rest u parts reached => ?_⟩
    rw [(List.append_eq_nil_iff.mp parts.symm).1] at reached
    cases reached
    exact holds
  | cons a actions ih =>
    obtain ⟨v,stepped,later⟩ := Option.bind_eq_some_iff.mp ran
    constructor
    · intro always
      have next : prop v := by
        refine always [a] actions v rfl ?_
        simp only [run,stepped,Option.bind_some]
      have fine := (exact s a v start stepped).mp next
      refine ⟨fine,fun w other => ?_⟩
      cases stepped.symm.trans other
      refine (ih later (kept s a v start fine stepped) next).mp fun first rest u parts reached => ?_
      refine always (a :: first) rest u (by rw [parts,List.cons_append]) ?_
      simp only [run,stepped,Option.bind_some,reached]
    · rintro ⟨fine,fines⟩ first rest u parts reached
      have next := (exact s a v start stepped).mpr fine
      cases first with
      | nil =>
        cases reached
        exact holds
      | cons b first =>
        obtain ⟨rfl,others⟩ := List.cons.inj parts
        simp only [run,stepped,Option.bind_some] at reached
        exact (ih later (kept s a v start fine stepped) next).mpr (fines v stepped) first rest u others reached

/-- Where exactly the good steps preserve an invariant, it holds all along the runs of good steps and along
no others. -/
theorem throughout_iff {step : σ → α → Option σ} {good : σ → α → Prop} {inv : σ → Prop}
    (exact : ∀ s a t, inv s → step s a = some t → (inv t ↔ good s a)) {actions : List α} {s t : σ}
    (ran : run step actions s = some t) (start : inv s) :
    (∀ first rest u, actions = first ++ rest → run step first s = some u → inv u) ↔ Throughout step good actions s :=
  throughout_iff_of_strong exact (fun s a t holds fine stepped => (exact s a t holds stepped).mpr fine) ran start start

/-- The same for a property of the steps themselves. -/
theorem throughout_steps_iff {step : σ → α → Option σ} {good : σ → α → Prop} {strong : σ → Prop}
    {prop : σ → α → σ → Prop} (exact : ∀ s a t, strong s → step s a = some t → (prop s a t ↔ good s a))
    (kept : ∀ s a t, strong s → good s a → step s a = some t → strong t) {actions : List α} {s t : σ}
    (ran : run step actions s = some t) (start : strong s) :
    (∀ first a rest u v, actions = first ++ a :: rest → run step first s = some u → step u a = some v → prop u a v) ↔
      Throughout step good actions s := by
  induction actions generalizing s with
  | nil => exact ⟨fun _ => trivial,fun _ first a rest u v parts => by cases first <;> cases parts⟩
  | cons a actions ih =>
    obtain ⟨w,stepped,later⟩ := Option.bind_eq_some_iff.mp ran
    constructor
    · intro always
      have fine := (exact s a w start stepped).mp (always [] a actions s w rfl rfl stepped)
      refine ⟨fine,fun w' other => ?_⟩
      cases stepped.symm.trans other
      refine (ih later (kept s a w start fine stepped)).mp fun first b rest u v parts reached => ?_
      refine always (a :: first) b rest u v (by rw [parts,List.cons_append]) ?_
      simp only [run,stepped,Option.bind_some,reached]
    · rintro ⟨fine,fines⟩ first b rest u v parts reached next
      cases first with
      | nil =>
        obtain ⟨rfl,rfl⟩ := List.cons.inj parts
        cases reached
        exact (exact s a v start next).mpr fine
      | cons c first =>
        obtain ⟨rfl,others⟩ := List.cons.inj parts
        simp only [run,stepped,Option.bind_some] at reached
        exact (ih later (kept s a w start fine stepped)).mpr (fines w stepped) first b rest u v others reached next

end ActionRuns
