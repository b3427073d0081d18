import IceOS.BudgetRuns
import Mathlib.Algebra.BigOperators.Group.Finset.Piecewise
import Mathlib.Algebra.Order.BigOperators.Group.Finset
import Mathlib.Tactic.Linarith

/-! Whether a fail-closed budget caps the executor invocations of a run. It is charged after the
fact, an executor that raises is not charged at all, and a violation is retried, so the cap holds
if and only if the retries of all calls together cannot get over it. -/
namespace IceOS

open ActionRuns NodeExecutor

/-- No kind is invoked more often than its maximum, nor again once its budget was violated. -/
structure WithinBudget (maximum : BudgetKind → Nat) (log : List BudgetEvent) : Prop where
  capped : ∀ kind, log.count (.started kind) ≤ maximum kind
  heeded : log.Pairwise fun earlier later => ∀ kind, earlier = .violated kind → later ≠ .started kind

/-- The invocations of a call all of whose rounds fail, each but the last after using up all its
retries but one. -/
def worstCase (node : NodeConfig) : Nat := maxRetries node * maxRetries node + maxRetries node + 1

section

variable {ι : Type} [Fintype ι]

def ofKind (nodes : ι → NodeConfig) (kind : BudgetKind) (f : ι → Nat) : Nat :=
  ∑ i, if BudgetKind.ofType (nodes i).type = some kind then f i else 0

def demand (nodes : ι → NodeConfig) (kind : BudgetKind) : Nat :=
  ofKind nodes kind fun i => worstCase (nodes i)

/-- The worst case of all calls stays within the maximum, and where costs are limited there is at
most one invocation that could cost something. -/
structure Affordable (nodes : ι → NodeConfig) (b : Budget) : Prop where
  counted : ∀ kind, demand nodes kind ≤ b.maximum kind
  priced : CostLimited b → demand nodes .llm ≤ 1 ∧ demand nodes .agent ≤ 1

end

/-- The invocations that a call may still make. -/
def CallStage.potential (retries : Nat) : CallStage → Nat
  | .ready rounds left => rounds * retries + left + 1
  | .invoked rounds left => rounds * retries + left
  | .replied (rounds + 1) (_ + 1) _ => (rounds + 1) * retries + 1
  | .replied _ _ _ | .ended => 0

@[simp] theorem CallStage.potential_ready (retries rounds left : Nat) :
    (CallStage.ready rounds left).potential retries = rounds * retries + left + 1 := rfl
@[simp] theorem CallStage.potential_invoked (retries rounds left : Nat) :
    (CallStage.invoked rounds left).potential retries = rounds * retries + left := rfl

/-- The invocations of a call that have not been accounted for, but still may. -/
def CallStage.unsettled : CallStage → Nat
  | .invoked .. | .replied .. => 1
  | .ready .. | .ended => 0

@[simp] theorem CallStage.unsettled_ready (rounds left : Nat) : (CallStage.ready rounds left).unsettled = 0 := rfl
@[simp] theorem CallStage.unsettled_invoked (rounds left : Nat) : (CallStage.invoked rounds left).unsettled = 1 := rfl
@[simp] theorem CallStage.unsettled_replied (rounds left : Nat) (reply : Reply) :
    (CallStage.replied rounds left reply).unsettled = 1 := rfl

section

variable {ι ω : Type} [Fintype ι] {nodes : ι → NodeConfig}

/-- The invocations of a kind that are still to come, at most. -/
def Spending.potential (nodes : ι → NodeConfig) (s : Spending ι ω) (kind : BudgetKind) : Nat :=
  ofKind nodes kind fun i => (s.calls i).potential (maxRetries (nodes i))

def Spending.unsettled (nodes : ι → NodeConfig) (s : Spending ι ω) (kind : BudgetKind) : Nat :=
  ofKind nodes kind fun i => (s.calls i).unsettled

/-- What is known of a run of calls whose worst case is affordable. -/
structure Accounted (nodes : ι → NodeConfig) (b : Budget) (s : Spending ι ω) : Prop where
  maximum : s.session.budget.maximum = b.maximum
  costLimit : s.session.budget.orgBudgetUsd = b.orgBudgetUsd
  spent : ∀ kind, s.log.count (.started kind) + s.potential nodes kind ≤ demand nodes kind
  charged : ∀ kind, s.session.budget.count kind + s.unsettled nodes kind ≤ s.log.count (.started kind)
  violations : ∀ kind, .violated kind ∈ s.log → 1 ≤ s.log.count (.started kind) ∧ demand nodes kind ≤ 1
  heeded : s.log.Pairwise fun earlier later => ∀ kind, earlier = .violated kind → later ≠ .started kind

/-- The share of one call in a sum over its kind. -/
theorem le_ofKind {kind : BudgetKind} {i : ι} (own : BudgetKind.ofType (nodes i).type = some kind) (f : ι → Nat) :
    f i ≤ ofKind nodes kind f := by
  have share := Finset.single_le_sum
    (f := fun j => if BudgetKind.ofType (nodes j).type = some kind then f j else 0)
    (fun _ _ => Nat.zero_le _) (Finset.mem_univ i)
  simp only [own,if_true] at share
  exact share

variable [DecidableEq ι]

variable (nodes) in
theorem ofKind_change (kind : BudgetKind) {f g : ι → Nat} (i : ι) (same : ∀ j, j ≠ i → g j = f j) :
    ofKind nodes kind g + (if BudgetKind.ofType (nodes i).type = some kind then f i else 0) =
      ofKind nodes kind f + if BudgetKind.ofType (nodes i).type = some kind then g i else 0 := by
  simp only [ofKind]
  rw [← Finset.add_sum_erase _ _ (Finset.mem_univ i),← Finset.add_sum_erase _ (fun j => ite _ (f j) _)
    (Finset.mem_univ i)]
  have rest : (∑ j ∈ Finset.univ.erase i, if BudgetKind.ofType (nodes j).type = some kind then g j else 0) =
      ∑ j ∈ Finset.univ.erase i, if BudgetKind.ofType (nodes j).type = some kind then f j else 0 := by
    refine Finset.sum_congr rfl fun j member => ?_
    rw [same j (Finset.ne_of_mem_erase member)]
  rw [rest]
  omega

variable (nodes) in
theorem potential_moveTo (s : Spending ι ω) (i : ι) (c : CallStage) (kind : BudgetKind) :
    (s.moveTo i c).potential nodes kind +
        (if BudgetKind.ofType (nodes i).type = some kind then (s.calls i).potential (maxRetries (nodes i)) else 0) =
      s.potential nodes kind +
        if BudgetKind.ofType (nodes i).type = some kind then c.potential (maxRetries (nodes i)) else 0 := by
  have change := ofKind_change nodes kind
    (f := fun j => (s.calls j).potential (maxRetries (nodes j)))
    (g := fun j => ((s.moveTo i c).calls j).potential (maxRetries (nodes j))) i (by intro j other; simp [other])
  simp only [Spending.moveTo_calls,if_true] at change
  simpa only [Spending.potential,Spending.moveTo_calls] using change

variable (nodes) in
theorem unsettled_moveTo (s : Spending ι ω) (i : ι) (c : CallStage) (kind : BudgetKind) :
    (s.moveTo i c).unsettled nodes kind +
        (if BudgetKind.ofType (nodes i).type = some kind then (s.calls i).unsettled else 0) =
      s.unsettled nodes kind + if BudgetKind.ofType (nodes i).type = some kind then c.unsettled else 0 := by
  have change := ofKind_change nodes kind (f := fun j => (s.calls j).unsettled)
    (g := fun j => ((s.moveTo i c).calls j).unsettled) i (by intro j other; simp [other])
  simp only [Spending.moveTo_calls,if_true] at change
  simpa only [Spending.unsettled,Spending.moveTo_calls] using change

end

section

variable {ι ω : Type} {s : Spending ι ω}

theorem note_started (s : Spending ι ω) (type : NodeType) (kind : BudgetKind) :
    (s.note .started type).log.count (.started kind) =
      s.log.count (.started kind) + if BudgetKind.ofType type = some kind then 1 else 0 := by
  simp only [Spending.note,List.count_append]
  cases BudgetKind.ofType type with
  | none => simp
  | some own => simp [List.count_singleton]

theorem note_violated (s : Spending ι ω) (type : NodeType) (kind : BudgetKind) :
    (s.note .violated type).log.count (.started kind) = s.log.count (.started kind) := by
  simp only [Spending.note,List.count_append]
  cases BudgetKind.ofType type with
  | none => simp
  | some own => simp

theorem note_members {event : BudgetKind → BudgetEvent} {type : NodeType} {e : BudgetEvent}
    (member : e ∈ (s.note event type).log) :
    e ∈ s.log ∨ ∃ kind, BudgetKind.ofType type = some kind ∧ e = event kind := by
  simp only [Spending.note,List.mem_append] at member
  rcases member with old | new
  · exact .inl old
  · right
    cases own : BudgetKind.ofType type with
    | none => simp [own] at new
    | some kind => exact ⟨kind,rfl,by simpa [own] using new⟩

theorem note_heeded {event : BudgetKind → BudgetEvent} {type : NodeType}
    (heeded : s.log.Pairwise fun earlier later => ∀ kind, earlier = .violated kind → later ≠ .started kind)
    (fresh : ∀ kind, .started kind ∈ (BudgetKind.ofType type).map event → .violated kind ∉ s.log) :
    (s.note event type).log.Pairwise fun earlier later =>
      ∀ kind, earlier = .violated kind → later ≠ .started kind := by
  refine List.pairwise_append.mpr ⟨heeded,?_,?_⟩
  · cases BudgetKind.ofType type <;> simp
  · rintro earlier old later new kind rfl rfl
    exact fresh kind (Option.mem_toList.mp new) old

theorem afterReply_potential (retries rounds left : Nat) (reply : Reply) :
    (Spending.afterReply rounds left reply).potential retries ≤ rounds * retries + left := by
  cases left with
  | zero => cases reply <;> cases rounds <;> simp [Spending.afterReply,CallStage.potential]
  | succ left =>
    have more : 1 ≤ left + 1 := Nat.le_add_left 1 left
    cases reply with
    | raised e => exact le_refl _
    | result r | value v =>
      cases rounds with
      | zero => exact Nat.zero_le _
      | succ rounds => exact Nat.add_le_add_left more _

theorem afterReply_unsettled (rounds left : Nat) (reply : Reply) :
    (Spending.afterReply rounds left reply).unsettled ≤ 1 := by
  cases left <;> cases reply <;> simp [Spending.afterReply,CallStage.unsettled]

theorem afterSettling_potential (node : NodeConfig) (rounds left : Nat) (reply : Reply)
    (outcome : Except Exn NodeExecutionResult) :
    (Spending.afterSettling node rounds left outcome).potential (maxRetries node) ≤
      (CallStage.replied rounds left reply).potential (maxRetries node) := by
  cases rounds with
  | zero => exact Nat.zero_le _
  | succ rounds =>
    cases left with
    | zero => exact Nat.zero_le _
    | succ left =>
      cases outcome with
      | ok r => exact Nat.zero_le _
      | error e => simp [Spending.afterSettling,CallStage.potential,Nat.succ_mul]

theorem afterSettling_unsettled (node : NodeConfig) (rounds left : Nat)
    (outcome : Except Exn NodeExecutionResult) :
    (Spending.afterSettling node rounds left outcome).unsettled = 0 := by
  cases rounds <;> cases left <;> cases outcome <;> rfl

end

section

variable {ι ω : Type} [DecidableEq ι] [Fintype ι] {x : Executors ω} {nodes : ι → NodeConfig} {b : Budget}
  {s t : Spending ι ω}

/-- Another invocation leaves the accounts in order. -/
theorem Accounted.invoke {i : ι} {rounds left : Nat} (known : Accounted nodes b s)
    (ready : s.calls i = .ready rounds left) :
    Accounted nodes b ((s.note .started (nodes i).type).moveTo i (.invoked rounds left)) := by
  constructor
  · exact known.maximum
  · exact known.costLimit
  · intro kind
    have before := known.spent kind
    have moved := potential_moveTo nodes (s.note .started (nodes i).type) i (.invoked rounds left) kind
    simp only [Spending.note_calls,ready,CallStage.potential_ready,CallStage.potential_invoked] at moved
    change _ = s.potential nodes kind + _ at moved
    rw [Spending.moveTo_log,note_started]
    split_ifs at moved ⊢
    · omega
    · omega
  · intro kind
    have before := known.charged kind
    have moved := unsettled_moveTo nodes (s.note .started (nodes i).type) i (.invoked rounds left) kind
    simp only [Spending.note_calls,ready,CallStage.unsettled_ready,CallStage.unsettled_invoked] at moved
    change _ = s.unsettled nodes kind + _ at moved
    rw [Spending.moveTo_log,note_started,Spending.moveTo_session,Spending.note_session]
    split_ifs at moved ⊢
    · omega
    · omega
  · intro kind member
    rcases note_members member with old | ⟨_,_,new⟩
    · obtain ⟨started,few⟩ := known.violations kind old
      rw [Spending.moveTo_log,note_started]
      exact ⟨Nat.le_add_right_of_le started,few⟩
    · cases new
  · rw [Spending.moveTo_log]
    apply note_heeded known.heeded
    intro kind new old
    obtain ⟨_,own,same⟩ := Option.map_eq_some_iff.mp new
    cases same
    obtain ⟨started,few⟩ := known.violations kind old
    have share := le_ofKind own fun j => (s.calls j).potential (maxRetries (nodes j))
    have before := known.spent kind
    simp only [ready,CallStage.potential_ready] at share
    change _ ≤ s.potential nodes kind at share
    omega

/-- So does every step that starts nothing: a reply, or accounting for one. -/
theorem Accounted.moveTo {i : ι} {u : Spending ι ω} {c : CallStage} (known : Accounted nodes b s)
    (calls : u.calls = s.calls) (maximum : u.session.budget.maximum = s.session.budget.maximum)
    (costLimit : u.session.budget.orgBudgetUsd = s.session.budget.orgBudgetUsd)
    (started : ∀ kind, u.log.count (.started kind) = s.log.count (.started kind))
    (less : c.potential (maxRetries (nodes i)) ≤ (s.calls i).potential (maxRetries (nodes i)))
    (charged : ∀ kind, u.session.budget.count kind + (if BudgetKind.ofType (nodes i).type = some kind then c.unsettled else 0) ≤
      s.session.budget.count kind + if BudgetKind.ofType (nodes i).type = some kind then (s.calls i).unsettled else 0)
    (violations : ∀ kind, .violated kind ∈ u.log → 1 ≤ u.log.count (.started kind) ∧ demand nodes kind ≤ 1)
    (heeded : u.log.Pairwise fun earlier later => ∀ kind, earlier = .violated kind → later ≠ .started kind) :
    Accounted nodes b (u.moveTo i c) := by
  constructor
  · exact maximum.trans known.maximum
  · exact costLimit.trans known.costLimit
  · intro kind
    have before := known.spent kind
    have same : u.potential nodes kind = s.potential nodes kind := by simp only [Spending.potential,calls]
    have moved := potential_moveTo nodes u i c kind
    rw [same,calls] at moved
    rw [Spending.moveTo_log,started kind]
    split_ifs at moved
    · omega
    · omega
  · intro kind
    have before := known.charged kind
    have same : u.unsettled nodes kind = s.unsettled nodes kind := by simp only [Spending.unsettled,calls]
    have moved := unsettled_moveTo nodes u i c kind
    have paid := charged kind
    rw [same,calls] at moved
    rw [Spending.moveTo_log,Spending.moveTo_session,started kind]
    split_ifs at moved paid
    · omega
    · omega
  · exact violations
  · exact heeded

theorem Accounted.reply {i : ι} {rounds left : Nat} (known : Accounted nodes b s)
    (invoked : s.calls i = .invoked rounds left) (reply : Reply) (world : ω) :
    Accounted nodes b ({ s with session := { s.session with world } }.moveTo i
      (Spending.afterReply rounds left reply)) := by
  apply known.moveTo (u := { s with session := { s.session with world } }) rfl rfl rfl
  · intro kind
    rfl
  · rw [invoked]
    exact afterReply_potential _ _ _ _
  · intro kind
    rw [invoked]
    have less := afterReply_unsettled rounds left reply
    split_ifs
    · exact Nat.add_le_add_left less _
    · exact le_rfl
  · exact known.violations
  · exact known.heeded

omit [DecidableEq ι] in
/-- Within the maximum only the costs can be violated, and then nothing else was to come. -/
theorem Accounted.last {i : ι} {rounds left : Nat} {reply : Reply} (known : Accounted nodes b s)
    (afford : Affordable nodes b) (replied : s.calls i = .replied rounds left reply) {e : Exn}
    (violated : violation x (nodes i) reply s.session = some e) {kind : BudgetKind}
    (own : BudgetKind.ofType (nodes i).type = some kind) :
    1 ≤ s.log.count (.started kind) ∧ demand nodes kind ≤ 1 := by
  have share := le_ofKind own fun j => (s.calls j).unsettled
  simp only [replied,CallStage.unsettled_replied] at share
  change _ ≤ s.unsettled nodes kind at share
  have charged := known.charged kind
  have spent := known.spent kind
  have counted := afford.counted kind
  refine ⟨by omega,?_⟩
  obtain ⟨cost,raised⟩ := violation_registers violated
  obtain ⟨kind',own',exceeded⟩ := register_violates raised
  cases own.symm.trans own'
  rcases exceeded with exceeded | ⟨metered,limited⟩
  · rw [known.maximum] at exceeded
    omega
  · simp only [CostLimited,known.costLimit] at limited
    rcases metered with rfl | rfl
    · exact (afford.priced limited).1
    · exact (afford.priced limited).2

theorem Accounted.settle {i : ι} {rounds left : Nat} {reply : Reply} (known : Accounted nodes b s)
    (afford : Affordable nodes b) (replied : s.calls i = .replied rounds left reply) (u : Spending ι ω)
    (calls : u.calls = s.calls) (session : u.session = (finish x (nodes i) reply s.session).2)
    (log : u.log = if (violation x (nodes i) reply s.session).isSome then (s.note .violated (nodes i).type).log
      else s.log) (outcome : Except Exn NodeExecutionResult) :
    Accounted nodes b (u.moveTo i (Spending.afterSettling (nodes i) rounds left outcome)) := by
  have settings := finish_settings x (nodes i) reply s.session
  rw [← session] at settings
  have started (kind : BudgetKind) : u.log.count (.started kind) = s.log.count (.started kind) := by
    rw [log]
    split
    · exact note_violated s (nodes i).type kind
    · rfl
  apply known.moveTo calls settings.1 settings.2 started
  · rw [replied]
    exact afterSettling_potential _ _ _ _ _
  · intro kind
    rw [replied,afterSettling_unsettled,session]
    simp only [ite_self,Nat.add_zero]
    exact finish_count x (nodes i) reply s.session kind
  · intro kind member
    rw [started]
    rw [log] at member
    split at member
    · next violated =>
      obtain ⟨e,violated⟩ := Option.isSome_iff_exists.mp violated
      rcases note_members member with old | ⟨own,of,same⟩
      · exact known.violations kind old
      · cases same
        exact known.last afford replied violated of
    · exact known.violations kind member
  · rw [log]
    split
    · apply note_heeded known.heeded
      intro kind new
      obtain ⟨_,_,same⟩ := Option.map_eq_some_iff.mp new
      cases same
    · exact known.heeded

/-- Any step of a call, whatever its executor replies. -/
theorem Accounted.step (afford : Affordable nodes b) (known : Accounted nodes b s) {a : CallAction ι ω}
    (stepped : Spending.step x nodes s a = some t) : Accounted nodes b t := by
  cases a with
  | invoke i =>
    simp only [Spending.step] at stepped
    cases stage : s.calls i with
    | ready rounds left =>
      simp only [stage,Option.some.injEq] at stepped
      subst stepped
      exact known.invoke stage
    | invoked _ _ | replied _ _ _ | ended => simp [stage] at stepped
  | reply i reply world =>
    simp only [Spending.step] at stepped
    cases stage : s.calls i with
    | invoked rounds left =>
      simp only [stage,Option.some.injEq] at stepped
      subst stepped
      exact known.reply stage reply world
    | ready _ _ | replied _ _ _ | ended => simp [stage] at stepped
  | settle i =>
    simp only [Spending.step] at stepped
    cases stage : s.calls i with
    | replied rounds left reply =>
      simp only [stage,Option.some.injEq] at stepped
      subst stepped
      refine known.settle afford stage _ ?_ rfl ?_ _
      · split
        · rfl
        · rfl
      · split
        · rfl
        · rfl
    | ready _ _ | invoked _ _ | ended => simp [stage] at stepped

omit [DecidableEq ι] in
theorem Accounted.initial (x : Executors ω) (nodes : ι → NodeConfig) (b : Budget) (fresh : ∀ kind, b.count kind = 0)
    (w : ω) : Accounted nodes b (Spending.initial x nodes b w) := by
  constructor
  · rfl
  · rfl
  · intro kind
    simp only [Spending.initial,List.count_nil,Nat.zero_add]
    refine Finset.sum_le_sum fun i _ => ?_
    split
    · simp only [worstCase]
      split
      · exact Nat.zero_le _
      · exact le_rfl
    · exact le_rfl
  · intro kind
    simp only [Spending.initial,fresh,List.count_nil,Nat.zero_add]
    refine (Finset.sum_eq_zero fun i _ => ?_).le
    split
    · change CallStage.unsettled (if _ then _ else _) = 0
      split
      · rfl
      · rfl
    · rfl
  · intro kind member
    cases member
  · exact .nil

omit [DecidableEq ι] in
theorem Accounted.within (afford : Affordable nodes b) (known : Accounted nodes b s) :
    WithinBudget b.maximum s.log where
  capped kind := (Nat.le_of_add_right_le (known.spent kind)).trans (afford.counted kind)
  heeded := known.heeded

end

/-! ### Calls that use up all their rounds -/

/-- Nothing validates after the fact: every plain value is refused by the coercion. -/
def rejecting (ω : Type) : Executors ω where
  runtimeValidate _ := none
  executor _ _ w := (.value .none,w)
  coerce node _ := .error (keyError node.id)
  persist _ _ w := (none,w)
  isOutputValid _ _ := true

section

variable {ι ω : Type} [DecidableEq ι] {nodes : ι → NodeConfig}

/-- Call `i` gets from `s` to `t` with `n` invocations. -/
def Exhausts (nodes : ι → NodeConfig) (i : ι) (n : Nat) (s t : Spending ι ω) : Prop :=
  Moves (rejecting ω) nodes i s t ∧ ∀ kind, t.log.count (.started kind) =
    s.log.count (.started kind) + if BudgetKind.ofType (nodes i).type = some kind then n else 0

theorem Exhausts.trans {i : ι} {m n : Nat} {s t u : Spending ι ω} (first : Exhausts nodes i m s t)
    (second : Exhausts nodes i n t u) : Exhausts nodes i (m + n) s u := by
  refine ⟨first.1.trans second.1,fun kind => ?_⟩
  rw [second.2 kind,first.2 kind]
  split
  · omega
  · rfl

end

/-! ### Costs -/

def BudgetKind.metered (kind : BudgetKind) : Prop := kind = .llm ∨ kind = .agent

section

variable {ι ω : Type} [DecidableEq ι] {nodes : ι → NodeConfig} {b : Budget}

end

end IceOS
