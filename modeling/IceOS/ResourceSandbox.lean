import IceOS.SaveRestore
import Mathlib.Algebra.Order.Monoid.Unbundled.WithTop

/-! Resource limits of the process under sandboxes that are entered and left in any order. Every call of
`setrlimit` takes effect. -/
namespace IceOS.ResourceSandbox

open SaveRestore (State Action)

/-- The limits that a sandbox sets. -/
inductive Resource where
  | addressSpace | cpu | core
  deriving DecidableEq, Repr

/-- A soft and a hard limit; `⊤` is no limit. -/
abbrev Limit := WithTop Nat × WithTop Nat

/-- Limits compare resource by resource, the soft one and the hard one. -/
abbrev Limits := Resource → Limit

structure Sandbox where
  memoryLimitMb : Nat := 512
  cpuLimitSeconds : Nat := 10

def Sandbox.asks (sandbox : Sandbox) : Limits
  | .addressSpace => (↑(sandbox.memoryLimitMb * 1024 * 1024),↑(sandbox.memoryLimitMb * 1024 * 1024))
  | .cpu => (↑sandbox.cpuLimitSeconds,↑sandbox.cpuLimitSeconds)
  | .core => (↑(0 : Nat),↑(0 : Nat))

def resources : List Resource := [.addressSpace,.cpu,.core]

/-- `_apply_rlimits`: each limit is read into the snapshot and then set. -/
def applyRlimits (sandbox : Sandbox) (limits : Limits) : Limits × Limits :=
  resources.foldl (fun (orig,limits) res =>
    (Function.update orig res (limits res),Function.update limits res (sandbox.asks res))) (limits,limits)

/-- The end of `__aexit__` sets each limit of the snapshot. -/
def restoreLimits (orig limits : Limits) : Limits :=
  resources.foldl (fun limits res => Function.update limits res (orig res)) limits

variable {ι : Type} [DecidableEq ι] (sandbox : ι → Sandbox)

def step (s : State ι Limits) : Action ι → Option (State ι Limits)
  | .enter i =>
    match s.saved i with
    | none =>
      let applied := applyRlimits (sandbox i) s.cell
      some ⟨applied.2,Function.update s.saved i (some applied.1)⟩
    | some _ => some s
  | .leave i =>
    match s.saved i with
    | none => some s
    | some orig => some ⟨restoreLimits orig s.cell,Function.update s.saved i none⟩

/-- The limits are as strict as each sandbox under way asks, and with none under way they are the first ones. -/
def Enforced (first : Limits) (s : State ι Limits) : Prop :=
  (∀ i, s.Active i → s.cell ≤ (sandbox i).asks) ∧ ((∀ i, ¬s.Active i) → s.cell = first)

/-- A sandbox asks for no less than those it is entered under, and what it found on entry suits those that stay
when it is left, or is what the first one found when none stays. -/
def WellNested (first : Limits) (s : State ι Limits) : Action ι → Prop
  | .enter i => s.saved i = none → ∀ j, s.Active j → (sandbox i).asks ≤ (sandbox j).asks
  | .leave i => ∀ orig ∈ s.saved i,
    (∀ j, j ≠ i → s.Active j → orig ≤ (sandbox j).asks) ∧ ((∀ j, j ≠ i → ¬s.Active j) → orig = first)

theorem applyRlimits_eq (sandbox : Sandbox) (limits : Limits) :
    applyRlimits sandbox limits = (limits,sandbox.asks) := by
  refine Prod.ext (funext fun res => ?_) (funext fun res => ?_) <;> cases res <;> simp [applyRlimits,resources]

theorem restoreLimits_eq (orig limits : Limits) : restoreLimits orig limits = orig := by
  funext res
  cases res <;> simp [restoreLimits,resources]

/-- The sandboxes share the limits as a saved and restored setting. -/
theorem step_eq : step sandbox = SaveRestore.step fun i _ => (sandbox i).asks := by
  funext s a
  cases a with
  | enter i => cases known : s.saved i <;> simp only [step,SaveRestore.step,applyRlimits_eq,known]
  | leave i => cases known : s.saved i <;> simp only [step,SaveRestore.step,restoreLimits_eq,known]

omit [DecidableEq ι] in
theorem served_iff_enforced (first : Limits) (s : State ι Limits) :
    SaveRestore.Served (fun i limits => limits ≤ (sandbox i).asks) first s ↔ Enforced sandbox first s :=
  ⟨fun served => ⟨served.fits,served.first⟩,fun enforced => ⟨enforced.1,enforced.2⟩⟩

omit [DecidableEq ι] in
theorem careful_iff_wellNested (first : Limits) (s : State ι Limits) (a : Action ι) :
    SaveRestore.Careful (fun i _ => (sandbox i).asks) (fun i limits => limits ≤ (sandbox i).asks) first s a ↔
      WellNested sandbox first s a := by
  cases a with
  | enter i => simp only [SaveRestore.Careful,WellNested,le_refl,true_and]
  | leave i => exact Iff.rfl

/-- The limits asked for are in force all along the well-nested runs and along no others. -/
theorem enforced_throughout_iff (first : Limits) (actions : List (Action ι)) :
    (∀ begun rest u, actions = begun ++ rest →
      ActionRuns.run (step sandbox) begun ⟨first,fun _ => none⟩ = some u → Enforced sandbox first u) ↔
      ActionRuns.Throughout (step sandbox) (WellNested sandbox first) actions ⟨first,fun _ => none⟩ := by
  have careful : SaveRestore.Careful (fun i _ => (sandbox i).asks) (fun i limits => limits ≤ (sandbox i).asks) first =
      WellNested sandbox first := funext₂ fun s a => propext (careful_iff_wellNested sandbox first s a)
  rw [step_eq,← careful,← SaveRestore.served_throughout_iff]
  simp only [served_iff_enforced]

/-- Two sandboxes overlap, the one that came first is left first, and the limits of the other are gone. -/
theorem overlap_lifts_limits : ¬∀ (sandbox : Fin 2 → Sandbox) (first : Limits) actions begun rest u,
    actions = begun ++ rest → ActionRuns.run (step sandbox) begun ⟨first,fun _ => none⟩ = some u →
      Enforced sandbox first u := by
  intro always
  have enforced := always (fun _ => {}) (fun _ => (⊤,⊤)) [.enter 0,.enter 1,.leave 0] _ [] _
    (List.append_nil _).symm rfl
  have bound : (⊤ : WithTop Nat) ≤ ↑(10 : Nat) := (enforced.1 1 (SaveRestore.State.active_of_saved rfl) .cpu).1
  exact absurd (top_le_iff.mp bound) (WithTop.coe_ne_top)

end IceOS.ResourceSandbox
