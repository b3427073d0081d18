import IceOS.ContextBuilder

/-! Running one node: validation, two nested retry loops around the executor, the
treatment of what the executor gives back, and the budget it is charged to. -/
namespace IceOS

/-- The kinds of executor that have a budget of their own. -/
inductive BudgetKind where
  | llm | tool | agent | workflow | code
  deriving DecidableEq, Repr

def BudgetKind.ofType : NodeType → Option BudgetKind
  | .llm => some .llm
  | .tool => some .tool
  | .agent => some .agent
  | .workflow => some .workflow
  | .code => some .code
  | _ => none

def BudgetKind.label : BudgetKind → String
  | .llm => "LLM call"
  | .tool => "Tool execution"
  | .agent => "Agent call"
  | .workflow => "Workflow execution"
  | .code => "Code execution"

/-- Limits and counters of a `BudgetEnforcer`. `failClosed` is production mode, or fail-open
switched off. -/
structure Budget where
  maximum : BudgetKind → Nat
  orgBudgetUsd : Option Rat := none
  failClosed : Bool
  count : BudgetKind → Nat := fun _ => 0
  totalCost : Rat := 0

def budgetDefaults : BudgetKind → Nat
  | .llm => 10
  | .tool => 20
  | .agent => 5
  | .workflow => 10
  | .code => 15

/-- `f"{q:.2f}"`, for amounts that are not negative. -/
def cents (q : Rat) : String :=
  let scaled := q * 100
  let low := scaled.floor
  let rest := scaled - low
  let n := (if rest < 1 / 2 ∨ (rest = 1 / 2 ∧ low % 2 = 0) then low else low + 1).toNat
  toString (n / 100) ++ "." ++ toString (n % 100 / 10) ++ toString (n % 10)

namespace Budget

/-- Fail-closed violations raise, the others are only logged. -/
def handleViolation (b : Budget) (message : String) : Option Exn :=
  if b.failClosed then
    let text := "Budget violation: " ++ message
    some ⟨text,"RuntimeError(" ++ PythonText.repr text ++ ")"⟩
  else none

def overCount (b : Budget) (kind : BudgetKind) : Option Exn :=
  if b.maximum kind < b.count kind then
    b.handleViolation (kind.label ++ " budget exceeded (max=" ++ toString (b.maximum kind) ++
      ", current=" ++ toString (b.count kind) ++ ")")
  else none

def overCost (b : Budget) : Option Exn :=
  match b.orgBudgetUsd with
  | none => none
  | some limit =>
    if limit ≠ 0 ∧ limit < b.totalCost then
      b.handleViolation ("Cost budget exceeded (max=$" ++ cents limit ++ ", current=$" ++
        cents b.totalCost ++ ")")
    else none

/-- Count first, then complain: the counter stays advanced when the check raises. -/
def charge (b : Budget) (kind : BudgetKind) (cost : Rat) : Budget :=
  { b with count := Function.update b.count kind (b.count kind + 1),totalCost := b.totalCost + cost }

def registerLlmCall (b : Budget) (cost : Rat) : Option Exn × Budget :=
  let b := b.charge .llm cost
  ((b.overCount .llm).or b.overCost,b)

def registerAgentCall (b : Budget) (cost : Rat) : Option Exn × Budget :=
  let b := b.charge .agent cost
  ((b.overCount .agent).or b.overCost,b)

def registerToolExecution (b : Budget) : Option Exn × Budget :=
  let b := b.charge .tool 0
  (b.overCount .tool,b)

def registerWorkflowExecution (b : Budget) : Option Exn × Budget :=
  let b := b.charge .workflow 0
  (b.overCount .workflow,b)

def registerCodeExecution (b : Budget) : Option Exn × Budget :=
  let b := b.charge .code 0
  (b.overCount .code,b)

/-- The accounting branch of the executor; other node types are not metered. -/
def register (b : Budget) (type : NodeType) (cost : Rat) : Option Exn × Budget :=
  match type with
  | .llm => b.registerLlmCall cost
  | .agent => b.registerAgentCall cost
  | .tool => b.registerToolExecution
  | .workflow => b.registerWorkflowExecution
  | .code => b.registerCodeExecution
  | _ => (none,b)

/-- Registering advances the counter of the node's own kind and no other. -/
theorem register_count (b : Budget) (type : NodeType) (cost : Rat) (kind : BudgetKind) :
    (b.register type cost).2.count kind =
      b.count kind + if BudgetKind.ofType type = some kind then 1 else 0 := by
  cases type <;> cases kind <;> simp [register,registerLlmCall,registerAgentCall,
    registerToolExecution,registerWorkflowExecution,registerCodeExecution,charge,BudgetKind.ofType]

/-- Registering changes no limits. -/
theorem register_settings (b : Budget) (type : NodeType) (cost : Rat) :
    (b.register type cost).2.maximum = b.maximum ∧ (b.register type cost).2.orgBudgetUsd = b.orgBudgetUsd := by
  cases type <;> exact ⟨rfl,rfl⟩

/-- In fail-closed mode going over the maximum of a kind raises. -/
theorem register_raises (b : Budget) (type : NodeType) (cost : Rat) (kind : BudgetKind)
    (own : BudgetKind.ofType type = some kind) (closed : b.failClosed = true)
    (exceeded : b.maximum kind ≤ b.count kind) : ∃ e, (b.register type cost).1 = some e := by
  cases type <;> cases own <;> simp [register,registerLlmCall,registerAgentCall,registerToolExecution,
    registerWorkflowExecution,registerCodeExecution,charge,overCount,handleViolation,closed,
    Nat.lt_succ_of_le exceeded]

end Budget

/-- What an executor gives back. -/
inductive Reply where
  | raised (e : Exn)
  | result (r : NodeExecutionResult)
  | value (v : Value)

/-- The reply can lead to a successful node: a successful result, or a plain value. -/
def Reply.Succeeds : Reply → Prop
  | .raised _ => False
  | .result r => r.success = true
  | .value _ => True

/-- The code a node run calls. `coerce` covers the repair, coercion and aliasing of a plain
value, `persist` its way into the context store, and `isOutputValid` the schema check (true
where none is asked for). -/
structure Executors (ω : Type) where
  runtimeValidate : NodeConfig → Option Exn
  executor : NodeConfig → Context → ω → Reply × ω
  coerce : NodeConfig → Value → Except Exn Value
  persist : NodeConfig → Value → ω → Option Exn × ω
  isOutputValid : NodeConfig → Value → Bool

structure Session (ω : Type) where
  budget : Budget
  world : ω

namespace NodeExecutor

variable {ω : Type}

def maxRetries (node : NodeConfig) : Nat :=
  match node.maxAttempts with
  | some attempts => attempts - 1
  | none => node.retries

/-- The inner loop, with `left` retries to go. It hands out how many were left unused. -/
def dispatch (x : Executors ω) (node : NodeConfig) (ctx : Context) :
    Nat → Session ω → (Reply × Nat) × Session ω
  | 0,s =>
    let (reply,world) := x.executor node ctx s.world
    ((reply,0),{ s with world })
  | left + 1,s =>
    let (reply,world) := x.executor node ctx s.world
    match reply with
    | .raised _ => dispatch x node ctx left { s with world }
    | reply => ((reply,left + 1),{ s with world })

def chargeFor (node : NodeConfig) (cost : Rat) (result : NodeExecutionResult) (s : Session ω) :
    Except Exn NodeExecutionResult × Session ω :=
  let (violation,budget) := s.budget.register node.type cost
  (match violation with | some e => .error e | none => .ok result,{ s with budget })

/-- A plain value: empty output fails without being charged, the rest is charged last. -/
def finishValue (x : Executors ω) (node : NodeConfig) (v : Value) (s : Session ω) :
    Except Exn NodeExecutionResult × Session ω :=
  match x.coerce node v with
  | .error e => (.error e,s)
  | .ok output =>
    if output.truthy then
      let (failure,world) := x.persist node output s.world
      let s := { s with world }
      match failure with
      | some e => (.error e,s)
      | none =>
        let valid := x.isOutputValid node output
        chargeFor node 0
          { success := valid,output
            error := if valid then none else
              some s!"Output validation failed for node '{node.id}' against declared schema" } s
    else (.ok { success := false,error := some "Executor returned empty output" },s)

def finish (x : Executors ω) (node : NodeConfig) (reply : Reply) (s : Session ω) :
    Except Exn NodeExecutionResult × Session ω :=
  match reply with
  | .raised e => (.error e,s)
  | .result r => chargeFor node ((r.usage.map (·.cost)).getD 0) r s
  | .value v => finishValue x node v s

/-- The outer loop, with `left` rounds to go after this one. Both loops count in the same
variable, so a round whose inner loop used up its retries is the last. -/
def rounds (x : Executors ω) (node : NodeConfig) (ctx : Context) :
    Nat → Session ω → Except Exn NodeExecutionResult × Session ω
  | 0,s =>
    let ((reply,_),s) := dispatch x node ctx (maxRetries node) s
    finish x node reply s
  | left + 1,s =>
    let ((reply,unused),s) := dispatch x node ctx (maxRetries node) s
    match finish x node reply s with
    | (.error e,s) => if unused = 0 then (.error e,s) else rounds x node ctx left s
    | done => done

def executeNode (x : Executors ω) (policy : FailurePolicy) (node : NodeConfig) (ctx : Context)
    (s : Session ω) : Except Exn NodeExecutionResult × Session ω :=
  match x.runtimeValidate node with
  | some e =>
    if policy = .halt then (.error e,s)
    else (.ok { success := false
                error := some (s!"Validation failed for node '{node.id}': " ++ e.text) },s)
  | none =>
    match rounds x node ctx (maxRetries node) s with
    | (.ok r,s) => (.ok r,s)
    | (.error e,s) =>
      if policy = .halt then (.error e,s)
      else
        let message := "Retry limit exceeded (" ++ toString (maxRetries node) ++ ") – last error: " ++ e.text
        (.ok { success := false,error := some message },s)

/-- Only the halting policy lets an exception out. -/
theorem executeNode_returns (x : Executors ω) {policy : FailurePolicy} (lenient : policy ≠ .halt)
    (node : NodeConfig) (ctx : Context) (s : Session ω) :
    ∃ r, (executeNode x policy node ctx s).1 = .ok r := by
  simp only [executeNode,lenient,if_false]
  cases x.runtimeValidate node with
  | some e => exact ⟨_,rfl⟩
  | none =>
    obtain ⟨outcome,t⟩ := rounds x node ctx (maxRetries node) s
    cases outcome with
    | ok r => exact ⟨r,rfl⟩
    | error e => exact ⟨_,rfl⟩

theorem dispatch_reply (x : Executors ω) (node : NodeConfig) (ctx : Context) (left : Nat) (s : Session ω) :
    ∃ w, (dispatch x node ctx left s).1.1 = (x.executor node ctx w).1 := by
  induction left generalizing s with
  | zero => exact ⟨s.world,rfl⟩
  | succ left ih =>
    cases first : x.executor node ctx s.world with
    | mk reply world =>
      simp only [dispatch,first]
      cases reply with
      | raised e => exact ih { s with world }
      | result r => exact ⟨s.world,by rw [first]⟩
      | value v => exact ⟨s.world,by rw [first]⟩

theorem finish_fails (x : Executors ω) (node : NodeConfig) {reply : Reply} (bad : ¬reply.Succeeds)
    (s : Session ω) {r : NodeExecutionResult} (done : (finish x node reply s).1 = .ok r) :
    r.success = false := by
  cases reply with
  | raised e => simp [finish] at done
  | result r' =>
    simp only [finish,chargeFor] at done
    split at done
    · simp at done
    · cases done
      exact Bool.eq_false_iff.mpr bad
  | value v => exact absurd trivial bad

theorem rounds_fails (x : Executors ω) (node : NodeConfig) (ctx : Context)
    (bad : ∀ w, ¬(x.executor node ctx w).1.Succeeds) (left : Nat) (s : Session ω)
    {r : NodeExecutionResult} (done : (rounds x node ctx left s).1 = .ok r) : r.success = false := by
  induction left generalizing s with
  | zero =>
    obtain ⟨w,reply⟩ := dispatch_reply x node ctx (maxRetries node) s
    exact finish_fails x node (reply ▸ bad w) _ done
  | succ left ih =>
    obtain ⟨w,reply⟩ := dispatch_reply x node ctx (maxRetries node) s
    simp only [rounds] at done
    cases outcome : finish x node (dispatch x node ctx (maxRetries node) s).1.1
        (dispatch x node ctx (maxRetries node) s).2 with
    | mk result t =>
      rw [outcome] at done
      cases result with
      | error e =>
        simp only at done
        split at done
        · simp at done
        · exact ih t done
      | ok r' =>
        exact finish_fails x node (reply ▸ bad w) (dispatch x node ctx (maxRetries node) s).2
          ((congrArg Prod.fst outcome).trans done)

/-- A node whose executor only ever raises or returns failed results fails. -/
theorem executeNode_fails (x : Executors ω) (policy : FailurePolicy) (node : NodeConfig)
    (ctx : Context) (bad : ∀ w, ¬(x.executor node ctx w).1.Succeeds) (s : Session ω)
    {r : NodeExecutionResult} (done : (executeNode x policy node ctx s).1 = .ok r) :
    r.success = false := by
  simp only [executeNode] at done
  cases valid : x.runtimeValidate node with
  | some e =>
    simp only [valid] at done
    split at done
    · simp at done
    · cases done; rfl
  | none =>
    simp only [valid] at done
    cases ran : rounds x node ctx (maxRetries node) s with
    | mk outcome t =>
      simp only [ran] at done
      cases outcome with
      | ok r' =>
        cases done
        exact rounds_fails x node ctx bad (maxRetries node) s (congrArg Prod.fst ran)
      | error e =>
        simp only at done
        split at done
        · simp at done
        · cases done; rfl

end NodeExecutor

end IceOS
