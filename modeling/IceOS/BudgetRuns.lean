import IceOS.ActionRuns
import IceOS.NodeExecutor

/-! The node calls of one run interleaved. They share the budget, and each is charged only when
its executor has come back. What happens between two awaits is one step. -/
namespace IceOS

open ActionRuns NodeExecutor

/-- A call of `execute_node`: `rounds` of its outer rounds are left after this one, and `left`
retries in this one. -/
inductive CallStage where
  | ready (rounds left : Nat)
  | invoked (rounds left : Nat)
  | replied (rounds left : Nat) (reply : Reply)
  | ended

inductive BudgetEvent where
  | started (kind : BudgetKind)
  | violated (kind : BudgetKind)
  deriving DecidableEq, Repr

structure Spending (ι ω : Type) where
  session : Session ω
  calls : ι → CallStage
  log : List BudgetEvent := []

/-- The executor may reply with anything, and leave any world behind. -/
inductive CallAction (ι ω : Type) where
  | invoke (i : ι)
  | reply (i : ι) (reply : Reply) (world : ω)
  | settle (i : ι)

/-- The exception of the budget when a reply is accounted for. -/
def violation {ω : Type} (x : Executors ω) (node : NodeConfig) (reply : Reply) (s : Session ω) : Option Exn :=
  match reply with
  | .raised _ => none
  | .result r => (s.budget.register node.type ((r.usage.map (·.cost)).getD 0)).1
  | .value v =>
    match x.coerce node v with
    | .error _ => none
    | .ok output =>
      if output.truthy ∧ (x.persist node output s.world).1 = none then (s.budget.register node.type 0).1
      else none

namespace Spending

variable {ι ω : Type} [DecidableEq ι]

def moveTo (s : Spending ι ω) (i : ι) (c : CallStage) : Spending ι ω :=
  { s with calls := Function.update s.calls i c }

def note (s : Spending ι ω) (event : BudgetKind → BudgetEvent) (type : NodeType) : Spending ι ω :=
  { s with log := s.log ++ ((BudgetKind.ofType type).map event).toList }

@[simp] theorem moveTo_calls (s : Spending ι ω) (i j : ι) (c : CallStage) :
    (s.moveTo i c).calls j = if j = i then c else s.calls j := by
  simp [moveTo,Function.update_apply]
@[simp] theorem moveTo_log (s : Spending ι ω) (i : ι) (c : CallStage) : (s.moveTo i c).log = s.log := rfl
@[simp] theorem moveTo_session (s : Spending ι ω) (i : ι) (c : CallStage) :
    (s.moveTo i c).session = s.session := rfl
omit [DecidableEq ι] in
@[simp] theorem note_calls (s : Spending ι ω) (event : BudgetKind → BudgetEvent) (type : NodeType) :
    (s.note event type).calls = s.calls := rfl
omit [DecidableEq ι] in
@[simp] theorem note_session (s : Spending ι ω) (event : BudgetKind → BudgetEvent) (type : NodeType) :
    (s.note event type).session = s.session := rfl

/-- The inner loop tries again as long as it has retries, then its exception ends the call. -/
def afterReply (rounds : Nat) : Nat → Reply → CallStage
  | 0,.raised _ => .ended
  | left + 1,.raised _ => .ready rounds left
  | left,reply => .replied rounds left reply

/-- Both loops count in the same variable, so a round without an unused retry is the last. -/
def afterSettling (node : NodeConfig) : Nat → Nat → Except Exn NodeExecutionResult → CallStage
  | rounds + 1,_ + 1,.error _ => .ready rounds (maxRetries node)
  | _,_,_ => .ended

def step (x : Executors ω) (nodes : ι → NodeConfig) (s : Spending ι ω) :
    CallAction ι ω → Option (Spending ι ω)
  | .invoke i =>
    match s.calls i with
    | .ready rounds left => some ((s.note .started (nodes i).type).moveTo i (.invoked rounds left))
    | _ => none
  | .reply i reply world =>
    match s.calls i with
    | .invoked rounds left =>
      some ({ s with session := { s.session with world } }.moveTo i (afterReply rounds left reply))
    | _ => none
  | .settle i =>
    match s.calls i with
    | .replied rounds left reply =>
      let (outcome,session) := finish x (nodes i) reply s.session
      let s := if (violation x (nodes i) reply s.session).isSome then s.note .violated (nodes i).type else s
      some ({ s with session }.moveTo i (afterSettling (nodes i) rounds left outcome))
    | _ => none

/-- A call whose node does not validate invokes nothing. -/
def initial (x : Executors ω) (nodes : ι → NodeConfig) (budget : Budget) (world : ω) : Spending ι ω where
  session := ⟨budget,world⟩
  calls i :=
    if (x.runtimeValidate (nodes i)).isSome then .ended
    else .ready (maxRetries (nodes i)) (maxRetries (nodes i))

end Spending

/-- A plain value is charged once it has been persisted. -/
theorem violation_value {ω : Type} {x : Executors ω} {node : NodeConfig} {v : Value} {s : Session ω} {e : Exn}
    (violated : violation x node (.value v) s = some e) : ∃ output, x.coerce node v = .ok output ∧
      output.truthy = true ∧ (x.persist node output s.world).1 = none ∧
      (s.budget.register node.type 0).1 = some e := by
  simp only [violation] at violated
  cases coerced : x.coerce node v with
  | error e' => simp [coerced] at violated
  | ok output =>
    simp only [coerced] at violated
    split at violated
    · next fine => exact ⟨output,rfl,fine.1,fine.2,violated⟩
    · cases violated

/-- Accounting for a reply counts at most one invocation, and that of the node's own kind. -/
theorem finish_count {ω : Type} (x : Executors ω) (node : NodeConfig) (reply : Reply) (s : Session ω)
    (kind : BudgetKind) :
    (finish x node reply s).2.budget.count kind ≤
      s.budget.count kind + if BudgetKind.ofType node.type = some kind then 1 else 0 := by
  cases reply with
  | raised e => simp [finish]
  | result r => simp [finish,chargeFor,Budget.register_count]
  | value v =>
    simp only [finish,finishValue]
    cases x.coerce node v with
    | error e => simp
    | ok output =>
      simp only
      split
      · cases (x.persist node output s.world).1 with
        | some e => simp
        | none => simp [chargeFor,Budget.register_count]
      · simp

/-- A limit on costs that is in force. -/
def CostLimited (b : Budget) : Prop := ∃ limit, b.orgBudgetUsd = some limit ∧ limit ≠ 0

theorem overCost_limited {b : Budget} {e : Exn} (exceeded : b.overCost = some e) : CostLimited b := by
  simp only [Budget.overCost] at exceeded
  cases limited : b.orgBudgetUsd with
  | none => simp [limited] at exceeded
  | some limit =>
    simp only [limited] at exceeded
    split at exceeded
    · next fine => exact ⟨limit,limited,fine.1⟩
    · cases exceeded

theorem overCount_over {b : Budget} {kind : BudgetKind} {e : Exn} (exceeded : b.overCount kind = some e) :
    b.maximum kind < b.count kind := by
  simp only [Budget.overCount] at exceeded
  split at exceeded
  · assumption
  · cases exceeded

/-- A violation is of the node's own kind, by its count or by the costs. -/
theorem register_violates {b : Budget} {type : NodeType} {cost : Rat} {e : Exn}
    (violated : (b.register type cost).1 = some e) :
    ∃ kind, BudgetKind.ofType type = some kind ∧
      (b.maximum kind ≤ b.count kind ∨ (kind = .llm ∨ kind = .agent) ∧ CostLimited b) := by
  have counted {kind : BudgetKind} {cost : Rat} {e : Exn} (exceeded : (b.charge kind cost).overCount kind = some e) :
      b.maximum kind ≤ b.count kind := by
    have more := overCount_over exceeded
    simp only [Budget.charge,Function.update_self] at more
    omega
  have priced {kind : BudgetKind} {cost : Rat} {e : Exn} (exceeded : (b.charge kind cost).overCost = some e) :
      CostLimited b :=
    overCost_limited (b := b.charge kind cost) exceeded
  cases type with
  | llm =>
    refine ⟨.llm,rfl,?_⟩
    rcases Option.or_eq_some_iff.mp violated with exceeded | ⟨_,exceeded⟩
    · exact .inl (counted exceeded)
    · exact .inr ⟨.inl rfl,priced exceeded⟩
  | agent =>
    refine ⟨.agent,rfl,?_⟩
    rcases Option.or_eq_some_iff.mp violated with exceeded | ⟨_,exceeded⟩
    · exact .inl (counted exceeded)
    · exact .inr ⟨.inr rfl,priced exceeded⟩
  | tool => exact ⟨.tool,rfl,.inl (counted violated)⟩
  | workflow => exact ⟨.workflow,rfl,.inl (counted violated)⟩
  | code => exact ⟨.code,rfl,.inl (counted violated)⟩
  | condition | loop | parallel | recursive | human | monitor | swarm => cases violated

theorem violation_registers {ω : Type} {x : Executors ω} {node : NodeConfig} {reply : Reply} {s : Session ω}
    {e : Exn} (violated : violation x node reply s = some e) :
    ∃ cost, (s.budget.register node.type cost).1 = some e := by
  cases reply with
  | raised e' => cases violated
  | result r => exact ⟨_,violated⟩
  | value v =>
    obtain ⟨_,_,_,_,registered⟩ := violation_value violated
    exact ⟨0,registered⟩

theorem finish_settings {ω : Type} (x : Executors ω) (node : NodeConfig) (reply : Reply) (s : Session ω) :
    (finish x node reply s).2.budget.maximum = s.budget.maximum ∧
      (finish x node reply s).2.budget.orgBudgetUsd = s.budget.orgBudgetUsd := by
  cases reply with
  | raised e => exact ⟨rfl,rfl⟩
  | result r => exact Budget.register_settings _ _ _
  | value v =>
    simp only [finish,finishValue]
    cases x.coerce node v with
    | error e => exact ⟨rfl,rfl⟩
    | ok output =>
      simp only
      split
      · cases (x.persist node output s.world).1 with
        | some e => exact ⟨rfl,rfl⟩
        | none => exact Budget.register_settings _ _ _
      · exact ⟨rfl,rfl⟩

/-! ### A call on its own -/

section

variable {ι ω : Type} [DecidableEq ι] {x : Executors ω} {nodes : ι → NodeConfig}

/-- Only call `i` has moved on. -/
def Alone (i : ι) (s t : Spending ι ω) : Prop := ∀ j, j ≠ i → t.calls j = s.calls j

omit [DecidableEq ι] in
theorem Alone.trans {i : ι} {s t u : Spending ι ω} (first : Alone i s t) (second : Alone i t u) : Alone i s u :=
  fun j other => (second j other).trans (first j other)

/-- `t` is reached from `s` by moving call `i`. -/
def Moves (x : Executors ω) (nodes : ι → NodeConfig) (i : ι) (s t : Spending ι ω) : Prop :=
  Alone i s t ∧ ∃ actions, run (Spending.step x nodes) actions s = some t

theorem Moves.trans {i : ι} {s t u : Spending ι ω} (first : Moves x nodes i s t) (second : Moves x nodes i t u) :
    Moves x nodes i s u := by
  obtain ⟨alone,actions,ran⟩ := first
  obtain ⟨alone',more,ran'⟩ := second
  exact ⟨alone.trans alone',actions ++ more,by rw [run_append,ran,Option.bind_some,ran']⟩

/-- An invocation and its reply. -/
theorem moves_reply (x : Executors ω) (nodes : ι → NodeConfig) {i : ι} {s : Spending ι ω} {rounds left : Nat}
    (ready : s.calls i = .ready rounds left) (reply : Reply) (world : ω) :
    ∃ t, Moves x nodes i s t ∧ t.calls i = Spending.afterReply rounds left reply ∧
      t.session = { s.session with world } ∧ t.log = (s.note .started (nodes i).type).log := by
  let u := (s.note .started (nodes i).type).moveTo i (.invoked rounds left)
  have first : Spending.step x nodes s (.invoke i) = some u := by simp only [Spending.step,ready]; rfl
  have stage : u.calls i = .invoked rounds left := by simp [u]
  have second : Spending.step x nodes u (.reply i reply world) = some
      ({ u with session := { u.session with world } }.moveTo i (Spending.afterReply rounds left reply)) := by
    simp only [Spending.step,stage]
  refine ⟨_,⟨?_,[.invoke i,.reply i reply world],run_pair first second⟩,by simp,rfl,rfl⟩
  intro j other
  simp [u,other]

/-- The inner loop of `execute_node` is a run of the call. -/
theorem moves_dispatch (x : Executors ω) (nodes : ι → NodeConfig) (ctx : Context) {i : ι}
    {s : Spending ι ω} {rounds left : Nat}
    (ready : s.calls i = .ready rounds left) :
    ∃ t, Moves x nodes i s t ∧ t.session = (dispatch x (nodes i) ctx left s.session).2 ∧
      t.calls i = Spending.afterReply rounds (dispatch x (nodes i) ctx left s.session).1.2
        (dispatch x (nodes i) ctx left s.session).1.1 := by
  induction left generalizing s with
  | zero =>
    obtain ⟨t,moves,stage,session,_⟩ := moves_reply x nodes ready
      (x.executor (nodes i) ctx s.session.world).1 (x.executor (nodes i) ctx s.session.world).2
    exact ⟨t,moves,session,stage⟩
  | succ left ih =>
    obtain ⟨t,moves,stage,session,_⟩ := moves_reply x nodes ready
      (x.executor (nodes i) ctx s.session.world).1 (x.executor (nodes i) ctx s.session.world).2
    cases replied : x.executor (nodes i) ctx s.session.world with
    | mk reply world =>
      simp only [replied] at stage session
      simp only [dispatch,replied]
      cases reply with
      | raised e =>
        obtain ⟨u,further,session',stage'⟩ := ih stage
        rw [session] at session' stage'
        exact ⟨u,moves.trans further,session',stage'⟩
      | result r => exact ⟨t,moves,session,stage⟩
      | value v => exact ⟨t,moves,session,stage⟩

theorem afterReply_kept (rounds left : Nat) {reply : Reply} (kept : ∀ e, reply ≠ .raised e) :
    Spending.afterReply rounds left reply = .replied rounds left reply := by
  cases reply with
  | raised e => exact absurd rfl (kept e)
  | result r => cases left <;> rfl
  | value v => cases left <;> rfl

/-- An exception comes out of the inner loop only when its retries are used up. -/
theorem dispatch_raised (x : Executors ω) (node : NodeConfig) (ctx : Context) (left : Nat) (s : Session ω)
    {e : Exn} (raised : (dispatch x node ctx left s).1.1 = .raised e) : (dispatch x node ctx left s).1.2 = 0 := by
  induction left generalizing s with
  | zero => rfl
  | succ left ih =>
    cases replied : x.executor node ctx s.world with
    | mk reply world =>
      simp only [dispatch,replied] at raised ⊢
      cases reply with
      | raised e' => exact ih _ raised
      | result r => simp at raised
      | value v => simp at raised

/-- Accounting for a reply. -/
theorem moves_settle (x : Executors ω) (nodes : ι → NodeConfig) {i : ι} {s : Spending ι ω} {rounds left : Nat}
    {reply : Reply} (replied : s.calls i = .replied rounds left reply) :
    ∃ t, Moves x nodes i s t ∧ t.session = (finish x (nodes i) reply s.session).2 ∧
      t.calls i = Spending.afterSettling (nodes i) rounds left (finish x (nodes i) reply s.session).1 ∧
      t.log = if (violation x (nodes i) reply s.session).isSome then (s.note .violated (nodes i).type).log
        else s.log := by
  let u := if (violation x (nodes i) reply s.session).isSome then s.note .violated (nodes i).type else s
  have calls : u.calls = s.calls := by
    simp only [u]
    split
    · rfl
    · rfl
  refine ⟨{ u with session := (finish x (nodes i) reply s.session).2 }.moveTo i
    (Spending.afterSettling (nodes i) rounds left (finish x (nodes i) reply s.session).1),
    ⟨?_,[.settle i],?_⟩,rfl,by simp,?_⟩
  · intro j other
    simp [calls,other]
  · simp only [run,Spending.step,replied,Option.bind_some]
    rfl
  · change u.log = _
    simp only [u]
    split
    · rfl
    · rfl

theorem moves_round (x : Executors ω) (nodes : ι → NodeConfig) (ctx : Context) {i : ι} {s : Spending ι ω}
    {rounds left : Nat} (ready : s.calls i = .ready rounds left) :
    ∃ t, Moves x nodes i s t ∧
      t.session = (finish x (nodes i) (dispatch x (nodes i) ctx left s.session).1.1
        (dispatch x (nodes i) ctx left s.session).2).2 ∧
      t.calls i = Spending.afterSettling (nodes i) rounds (dispatch x (nodes i) ctx left s.session).1.2
        (finish x (nodes i) (dispatch x (nodes i) ctx left s.session).1.1
          (dispatch x (nodes i) ctx left s.session).2).1 := by
  obtain ⟨t,moves,session,stage⟩ := moves_dispatch x nodes ctx ready
  by_cases raised : ∃ e, (dispatch x (nodes i) ctx left s.session).1.1 = .raised e
  · obtain ⟨e,raised⟩ := raised
    have used := dispatch_raised x (nodes i) ctx left s.session raised
    rw [raised,used] at stage
    rw [raised,used]
    refine ⟨t,moves,session,stage.trans ?_⟩
    cases rounds <;> rfl
  · rw [afterReply_kept _ _ (not_exists.mp raised)] at stage
    obtain ⟨u,settles,session',stage',_⟩ := moves_settle x nodes stage
    rw [session] at session' stage'
    exact ⟨u,moves.trans settles,session',stage'⟩

/-- A call that is let run on its own does what `execute_node`'s rounds do. -/
theorem moves_rounds (x : Executors ω) (nodes : ι → NodeConfig) (ctx : Context) {i : ι} {s : Spending ι ω}
    {left : Nat} (ready : s.calls i = .ready left (maxRetries (nodes i))) :
    ∃ t, Moves x nodes i s t ∧ t.session = (rounds x (nodes i) ctx left s.session).2 ∧ t.calls i = .ended := by
  induction left generalizing s with
  | zero =>
    obtain ⟨t,moves,session,stage⟩ := moves_round x nodes ctx ready
    exact ⟨t,moves,session,stage⟩
  | succ left ih =>
    obtain ⟨t,moves,session,stage⟩ := moves_round x nodes ctx ready
    simp only [rounds]
    cases dispatched : dispatch x (nodes i) ctx (maxRetries (nodes i)) s.session with
    | mk replied mid =>
      obtain ⟨reply,unused⟩ := replied
      simp only [dispatched] at session stage ⊢
      cases finished : finish x (nodes i) reply mid with
      | mk outcome last =>
        simp only [finished] at session stage ⊢
        cases outcome with
        | ok r =>
          refine ⟨t,moves,session,stage.trans ?_⟩
          cases unused <;> rfl
        | error e =>
          cases unused with
          | zero => exact ⟨t,moves,session,stage⟩
          | succ unused =>
            obtain ⟨u,further,session',stage'⟩ := ih stage
            rw [session] at session'
            exact ⟨u,moves.trans further,session',stage'⟩

end

end IceOS
