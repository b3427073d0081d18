import IceOS.ContextBuilder
import IceOS.ExceptRules
import IceOS.PythonExpr

/-! `safe_eval_bool`: conditions evaluated over their syntax trees. The visitor visits every operand of an
`and` or `or` before it combines them, so an operand that Python would skip can make it fail. -/
namespace IceOS

open PythonExpr ExceptRules

def allowedBinOps : List Operator := [.add,.sub,.mult,.div,.mod]
def allowedCmpOps : List CmpOp := [.eq,.notEq,.lt,.ltE,.gt,.gtE]
def allowedUnaryOps : List UnaryOp := [.not,.uSub,.uAdd]

variable {V : Type}

namespace SafeEval

section

variable (m : DataModel V Exn) (ctx : OrderedDict String V)

/-- `a and b` or `a or b` of two values that are there already. -/
def opFunc (op : BoolOp) (a b : V) : Except Exn V := do
  return if (← m.truth a) = op.decisive then a else b

mutual

def visit : Expr V → Except Exn V
  | .boolOp op values => evalBoolop op values
  | .binOp left op right =>
    if op ∈ allowedBinOps then do
      let a ← visit left
      let b ← visit right
      m.binary op a b
    else .error (valueError "Unsupported binary operator.")
  | .unaryOp op operand =>
    if op ∈ allowedUnaryOps then do m.unary op (← visit operand)
    else .error (valueError "Unsupported unary operator.")
  | .compare left comparators => do evalCompare (← visit left) comparators
  | .name id =>
    match ctx.get? id with
    | some value => .ok value
    | none => .error (valueError s!"Unknown variable '{id}' in expression.")
  | .constant value => .ok value
  | .other dump => .error (valueError s!"Unsupported expression element: {dump}")

def evalBoolop (op : BoolOp) : Operands V → Except Exn V
  | .last e => visit e
  | .more e rest => do combine op (← visit e) rest

/-- The loop over the operands after the first. -/
def combine (op : BoolOp) (result : V) : Operands V → Except Exn V
  | .last e => do opFunc m op result (← visit e)
  | .more e rest => do
    let result ← opFunc m op result (← visit e)
    combine op result rest

def evalCompare (left : V) : Comparators V → Except Exn V
  | .nil => .ok (m.ofBool true)
  | .more op right rest =>
    if op ∈ allowedCmpOps then do
      let b ← visit right
      if ← m.compare op left b then evalCompare b rest else return m.ofBool false
    else .error (valueError "Unsupported comparison operator.")

end

end

mutual

/-- The syntax that `safe_eval_bool` documents. -/
def Documented : Expr V → Prop
  | .boolOp _ values => DocumentedOperands values
  | .binOp left op right => Documented left ∧ op ∈ allowedBinOps ∧ Documented right
  | .unaryOp op operand => op ∈ allowedUnaryOps ∧ Documented operand
  | .compare left comparators => Documented left ∧ DocumentedComparators comparators
  | .constant _ | .name _ => True
  | .other _ => False

def DocumentedOperands : Operands V → Prop
  | .last e => Documented e
  | .more e rest => Documented e ∧ DocumentedOperands rest

def DocumentedComparators : Comparators V → Prop
  | .nil => True
  | .more op right rest => op ∈ allowedCmpOps ∧ Documented right ∧ DocumentedComparators rest

end

section

variable (m : DataModel V Exn) (env : String → Option V)

mutual

/-- What the evaluation reaches is documented: a chain of comparisons may end before the rest is seen. -/
def Allowed : Expr V → Prop
  | .boolOp _ values => AllowedOperands values
  | .binOp left op right => op ∈ allowedBinOps ∧ Allowed left ∧ Allowed right
  | .unaryOp op operand => op ∈ allowedUnaryOps ∧ Allowed operand
  | .compare left comparators => Allowed left ∧ ∀ a, left.eval m env = .ok a → AllowedComparators a comparators
  | .constant _ | .name _ => True
  | .other _ => False

def AllowedOperands : Operands V → Prop
  | .last e => Allowed e
  | .more e rest => Allowed e ∧ AllowedOperands rest

def AllowedComparators (left : V) : Comparators V → Prop
  | .nil => True
  | .more op right rest => op ∈ allowedCmpOps ∧ Allowed right ∧
    ∀ b, right.eval m env = .ok b → m.compare op left b = .ok true → AllowedComparators b rest

end

mutual

theorem documented_allowed {e : Expr V} (documented : Documented e) : Allowed m env e := by
  cases e with
  | constant | name => trivial
  | boolOp op values => exact documented_allowedOperands documented
  | binOp left op right =>
    exact ⟨documented.2.1,documented_allowed documented.1,documented_allowed documented.2.2⟩
  | unaryOp op operand => exact ⟨documented.1,documented_allowed documented.2⟩
  | compare left comparators =>
    exact ⟨documented_allowed documented.1,fun a _ => documented_allowedComparators a documented.2⟩
  | other dump => exact documented

theorem documented_allowedOperands {values : Operands V} (documented : DocumentedOperands values) :
    AllowedOperands m env values := by
  cases values with
  | last e => exact documented_allowed documented
  | more e rest => exact ⟨documented_allowed documented.1,documented_allowedOperands documented.2⟩

theorem documented_allowedComparators (left : V) {comparators : Comparators V}
    (documented : DocumentedComparators comparators) : AllowedComparators m env left comparators := by
  cases comparators with
  | nil => trivial
  | more op right rest =>
    exact ⟨documented.1,documented_allowed documented.2.1,
      fun b _ _ => documented_allowedComparators b documented.2.2⟩

end

end

end SafeEval

/-- `parse` is `ast.parse` in mode `eval`, with nothing for a syntax error. -/
def safeEvalBool (m : DataModel V Exn) (parse : String → Option (Expr V)) (expression : String)
    (ctx : OrderedDict String V) : Except Exn Bool :=
  match parse expression with
  | none => .error (valueError s!"Invalid expression syntax: {expression}")
  | some tree => do m.truth (← SafeEval.visit m ctx tree)

namespace SafeEval

variable {m : DataModel V Exn} {ctx : OrderedDict String V}

theorem opFunc_eq_ok {op : BoolOp} {a b v : V} :
    opFunc m op a b = .ok v ↔ ∃ t, m.truth a = .ok t ∧ v = if t = op.decisive then a else b := by
  simp only [opFunc,bind_eq_ok,pure,Except.pure,Except.ok.injEq]
  exact ⟨fun ⟨t,asked,same⟩ => ⟨t,asked,same.symm⟩,fun ⟨t,asked,same⟩ => ⟨t,asked,same.symm⟩⟩

/-! ### A value of the visitor is Python's -/

mutual

theorem visit_sound {e : Expr V} {v : V} (visited : visit m ctx e = .ok v) :
    e.eval m ctx.get? = .ok v ∧ e.Guarded m ctx.get? ∧ Allowed m ctx.get? e := by
  cases e with
  | constant value => exact ⟨visited,trivial,trivial⟩
  | name id =>
    simp only [visit] at visited
    split at visited
    · next value found =>
      cases visited
      exact ⟨by simp only [Expr.eval,found],trivial,trivial⟩
    · cases visited
  | boolOp op values => exact evalBoolop_sound visited
  | binOp left op right =>
    simp only [visit] at visited
    split at visited
    · next listed =>
      obtain ⟨a,first,visited⟩ := bind_eq_ok.mp visited
      obtain ⟨b,second,combined⟩ := bind_eq_ok.mp visited
      obtain ⟨evaluated,guarded,allowed⟩ := visit_sound first
      obtain ⟨evaluated',guarded',allowed'⟩ := visit_sound second
      refine ⟨?_,⟨guarded,guarded'⟩,listed,allowed,allowed'⟩
      exact bind_eq_ok.mpr ⟨a,evaluated,bind_eq_ok.mpr ⟨b,evaluated',combined⟩⟩
    · cases visited
  | unaryOp op operand =>
    simp only [visit] at visited
    split at visited
    · next listed =>
      obtain ⟨a,inner,applied⟩ := bind_eq_ok.mp visited
      obtain ⟨evaluated,guarded,allowed⟩ := visit_sound inner
      exact ⟨bind_eq_ok.mpr ⟨a,evaluated,applied⟩,guarded,listed,allowed⟩
    · cases visited
  | compare left comparators =>
    obtain ⟨a,first,compared⟩ := bind_eq_ok.mp visited
    obtain ⟨evaluated,guarded,allowed⟩ := visit_sound first
    obtain ⟨evaluated',guarded',allowed'⟩ := evalCompare_sound compared
    have only (b : V) (other : left.eval m ctx.get? = .ok b) : b = a := by
      rw [evaluated] at other
      exact (Except.ok.inj other).symm
    exact ⟨bind_eq_ok.mpr ⟨a,evaluated,evaluated'⟩,⟨guarded,fun b other => only b other ▸ guarded'⟩,
      allowed,fun b other => only b other ▸ allowed'⟩
  | other dump => cases visited

theorem evalBoolop_sound {op : BoolOp} {values : Operands V} {v : V} (visited : evalBoolop m ctx op values = .ok v) :
    values.eval m ctx.get? op = .ok v ∧ values.Guarded m ctx.get? ∧ AllowedOperands m ctx.get? values := by
  cases values with
  | last e =>
    obtain ⟨evaluated,guarded,allowed⟩ := visit_sound visited
    exact ⟨evaluated,⟨⟨v,evaluated⟩,guarded⟩,allowed⟩
  | more e rest =>
    obtain ⟨a,first,combined⟩ := bind_eq_ok.mp visited
    obtain ⟨evaluated,guarded,allowed⟩ := visit_sound first
    obtain ⟨rested,allowed',t,asked,result⟩ := combine_sound combined
    refine ⟨bind_eq_ok.mpr ⟨a,evaluated,bind_eq_ok.mpr ⟨t,asked,?_⟩⟩,⟨⟨⟨a,evaluated⟩,guarded⟩,rested⟩,
      allowed,allowed'⟩
    split at result
    · next decided =>
      rw [if_pos decided,result]
      rfl
    · next open' =>
      rw [if_neg open']
      exact result

/-- All remaining operands have values; the result is the one so far if that decides, else theirs. -/
theorem combine_sound {op : BoolOp} {result : V} {rest : Operands V} {v : V}
    (visited : combine m ctx op result rest = .ok v) :
    rest.Guarded m ctx.get? ∧ AllowedOperands m ctx.get? rest ∧
      ∃ t, m.truth result = .ok t ∧ if t = op.decisive then v = result else rest.eval m ctx.get? op = .ok v := by
  cases rest with
  | last e =>
    obtain ⟨b,last,combined⟩ := bind_eq_ok.mp visited
    obtain ⟨evaluated,guarded,allowed⟩ := visit_sound last
    obtain ⟨t,asked,rfl⟩ := opFunc_eq_ok.mp combined
    refine ⟨⟨⟨b,evaluated⟩,guarded⟩,allowed,t,asked,?_⟩
    split
    · rfl
    · exact evaluated
  | more e rest =>
    obtain ⟨b,first,visited⟩ := bind_eq_ok.mp visited
    obtain ⟨next,chosen,combined⟩ := bind_eq_ok.mp visited
    obtain ⟨evaluated,guarded,allowed⟩ := visit_sound first
    obtain ⟨t,asked,rfl⟩ := opFunc_eq_ok.mp chosen
    obtain ⟨rested,allowed',t',asked',final⟩ := combine_sound combined
    refine ⟨⟨⟨⟨b,evaluated⟩,guarded⟩,rested⟩,⟨allowed,allowed'⟩,t,asked,?_⟩
    by_cases decided : t = op.decisive
    · rw [if_pos decided] at asked' final ⊢
      rw [asked] at asked'
      cases asked'
      rw [if_pos decided] at final
      exact final
    · rw [if_neg decided] at asked' final ⊢
      refine bind_eq_ok.mpr ⟨b,evaluated,bind_eq_ok.mpr ⟨t',asked',?_⟩⟩
      split at final
      · next decided' =>
        rw [if_pos decided',final]
        rfl
      · next open' =>
        rw [if_neg open']
        exact final

theorem evalCompare_sound {left : V} {comparators : Comparators V} {v : V}
    (visited : evalCompare m ctx left comparators = .ok v) :
    comparators.eval m ctx.get? left = .ok v ∧ comparators.Guarded m ctx.get? left ∧
      AllowedComparators m ctx.get? left comparators := by
  cases comparators with
  | nil => exact ⟨visited,trivial,trivial⟩
  | more op right rest =>
    simp only [evalCompare] at visited
    split at visited
    · next listed =>
      obtain ⟨b,second,visited⟩ := bind_eq_ok.mp visited
      obtain ⟨holds,compared,visited⟩ := bind_eq_ok.mp visited
      obtain ⟨evaluated,guarded,allowed⟩ := visit_sound second
      have only (c : V) (other : right.eval m ctx.get? = .ok c) : c = b := by
        rw [evaluated] at other
        exact (Except.ok.inj other).symm
      cases holds with
      | true =>
        obtain ⟨evaluated',guarded',allowed'⟩ := evalCompare_sound visited
        exact ⟨bind_eq_ok.mpr ⟨b,evaluated,bind_eq_ok.mpr ⟨true,compared,evaluated'⟩⟩,
          ⟨guarded,fun c other _ => only c other ▸ guarded'⟩,
          listed,allowed,fun c other _ => only c other ▸ allowed'⟩
      | false =>
        have ends (c : V) (other : right.eval m ctx.get? = .ok c) (holds : m.compare op left c = .ok true) :
            False := by
          rw [only c other,compared] at holds
          cases holds
        exact ⟨bind_eq_ok.mpr ⟨b,evaluated,bind_eq_ok.mpr ⟨false,compared,visited⟩⟩,
          ⟨guarded,fun c other holds => (ends c other holds).elim⟩,
          listed,allowed,fun c other holds => (ends c other holds).elim⟩
    · cases visited

end

/-! ### A guarded value of Python is the visitor's -/

mutual

theorem visit_complete {e : Expr V} (allowed : Allowed m ctx.get? e) {v : V} (evaluated : e.eval m ctx.get? = .ok v)
    (guarded : e.Guarded m ctx.get?) : visit m ctx e = .ok v := by
  cases e with
  | constant value => exact evaluated
  | name id =>
    simp only [Expr.eval] at evaluated
    split at evaluated
    · next value found =>
      cases evaluated
      simp only [visit,found]
    · cases evaluated
  | boolOp op values => exact evalBoolop_complete allowed evaluated guarded
  | binOp left op right =>
    obtain ⟨listed,allowed,allowed'⟩ := allowed
    obtain ⟨a,first,evaluated⟩ := bind_eq_ok.mp evaluated
    obtain ⟨b,second,combined⟩ := bind_eq_ok.mp evaluated
    simp only [visit,if_pos listed]
    exact bind_eq_ok.mpr ⟨a,visit_complete allowed first guarded.1,
      bind_eq_ok.mpr ⟨b,visit_complete allowed' second guarded.2,combined⟩⟩
  | unaryOp op operand =>
    obtain ⟨listed,allowed⟩ := allowed
    obtain ⟨a,inner,applied⟩ := bind_eq_ok.mp evaluated
    simp only [visit,if_pos listed]
    exact bind_eq_ok.mpr ⟨a,visit_complete allowed inner guarded,applied⟩
  | compare left comparators =>
    obtain ⟨a,first,compared⟩ := bind_eq_ok.mp evaluated
    exact bind_eq_ok.mpr ⟨a,visit_complete allowed.1 first guarded.1,
      evalCompare_complete (allowed.2 a first) compared (guarded.2 a first)⟩
  | other dump => cases allowed

theorem evalBoolop_complete {op : BoolOp} {values : Operands V} (allowed : AllowedOperands m ctx.get? values) {v : V}
    (evaluated : values.eval m ctx.get? op = .ok v) (guarded : values.Guarded m ctx.get?) :
    evalBoolop m ctx op values = .ok v := by
  cases values with
  | last e => exact visit_complete allowed evaluated guarded.2
  | more e rest =>
    obtain ⟨a,first,evaluated⟩ := bind_eq_ok.mp evaluated
    obtain ⟨t,asked,chosen⟩ := bind_eq_ok.mp evaluated
    refine bind_eq_ok.mpr ⟨a,visit_complete allowed.1 first guarded.1.2,?_⟩
    refine combine_complete allowed.2 asked guarded.2 ?_
    split at chosen
    · next decided =>
      cases chosen
      rw [if_pos decided]
    · next open' =>
      rw [if_neg open']
      exact chosen

theorem combine_complete {op : BoolOp} {result : V} {rest : Operands V} (allowed : AllowedOperands m ctx.get? rest)
    {t : Bool} (asked : m.truth result = .ok t) (guarded : rest.Guarded m ctx.get?) {v : V}
    (final : if t = op.decisive then v = result else rest.eval m ctx.get? op = .ok v) :
    combine m ctx op result rest = .ok v := by
  cases rest with
  | last e =>
    obtain ⟨⟨b,evaluated⟩,guarded⟩ := guarded
    refine bind_eq_ok.mpr ⟨b,visit_complete allowed evaluated guarded,opFunc_eq_ok.mpr ⟨t,asked,?_⟩⟩
    split at final
    · next decided =>
      rw [if_pos decided]
      exact final
    · next open' =>
      rw [if_neg open']
      exact Except.ok.inj (final.symm.trans evaluated)
  | more e rest =>
    obtain ⟨⟨⟨b,evaluated⟩,guarded⟩,guarded'⟩ := guarded
    have visited := visit_complete allowed.1 evaluated guarded
    have chosen : opFunc m op result b = .ok (if t = op.decisive then result else b) :=
      opFunc_eq_ok.mpr ⟨t,asked,rfl⟩
    refine bind_eq_ok.mpr ⟨b,visited,bind_eq_ok.mpr ⟨_,chosen,?_⟩⟩
    by_cases decided : t = op.decisive
    · rw [if_pos decided] at final ⊢
      refine combine_complete allowed.2 asked guarded' ?_
      rw [if_pos decided]
      exact final
    · rw [if_neg decided] at final ⊢
      obtain ⟨b',evaluated',final⟩ := bind_eq_ok.mp final
      obtain ⟨t',asked',final⟩ := bind_eq_ok.mp final
      rw [evaluated] at evaluated'
      cases evaluated'
      refine combine_complete allowed.2 asked' guarded' ?_
      split at final
      · next decided' =>
        cases final
        rw [if_pos decided']
      · next open' =>
        rw [if_neg open']
        exact final

theorem evalCompare_complete {left : V} {comparators : Comparators V}
    (allowed : AllowedComparators m ctx.get? left comparators) {v : V}
    (evaluated : comparators.eval m ctx.get? left = .ok v) (guarded : comparators.Guarded m ctx.get? left) :
    evalCompare m ctx left comparators = .ok v := by
  cases comparators with
  | nil => exact evaluated
  | more op right rest =>
    obtain ⟨listed,allowed,allowed'⟩ := allowed
    obtain ⟨b,second,evaluated⟩ := bind_eq_ok.mp evaluated
    obtain ⟨holds,compared,final⟩ := bind_eq_ok.mp evaluated
    simp only [evalCompare,if_pos listed]
    refine bind_eq_ok.mpr ⟨b,visit_complete allowed second guarded.1,bind_eq_ok.mpr ⟨holds,compared,?_⟩⟩
    cases holds with
    | true => exact evalCompare_complete (allowed' b second compared) final (guarded.2 b second compared)
    | false => exact final

end

end SafeEval

/-- `safe_eval_bool` gives Python's answer, and fails where Python fails. -/
structure SafeEval.Agrees (m : DataModel V Exn) (parse : String → Option (Expr V)) (expression : String)
    (tree : Expr V) (ctx : OrderedDict String V) : Prop where
  answers : ∀ b, tree.test m ctx.get? = .ok b → safeEvalBool m parse expression ctx = .ok b
  fails : (∃ e, tree.test m ctx.get? = .error e) → ∃ e, safeEvalBool m parse expression ctx = .error e

open SafeEval in
/-- It does exactly where no operand that Python's evaluation reaches or skips fails on its own. -/
theorem safeEvalBool_agrees_iff (m : DataModel V Exn) (parse : String → Option (Expr V)) (expression : String)
    (tree : Expr V) (parsed : parse expression = some tree) (documented : Documented tree)
    (ctx : OrderedDict String V) : Agrees m parse expression tree ctx ↔
      ((∃ b, tree.test m ctx.get? = .ok b) → tree.Guarded m ctx.get?) := by
  have asked (b : Bool) : safeEvalBool m parse expression ctx = .ok b ↔
      ∃ v, visit m ctx tree = .ok v ∧ m.truth v = .ok b := by
    simp only [safeEvalBool,parsed]
    exact bind_eq_ok
  have sound (b : Bool) (answered : safeEvalBool m parse expression ctx = .ok b) :
      tree.test m ctx.get? = .ok b ∧ tree.Guarded m ctx.get? := by
    obtain ⟨v,visited,truth⟩ := (asked b).mp answered
    obtain ⟨evaluated,guarded,_⟩ := visit_sound visited
    exact ⟨bind_eq_ok.mpr ⟨v,evaluated,truth⟩,guarded⟩
  constructor
  · rintro agrees ⟨b,answered⟩
    exact (sound b (agrees.answers b answered)).2
  · intro guarded
    constructor
    · intro b answered
      obtain ⟨v,evaluated,truth⟩ := bind_eq_ok.mp answered
      have allowed := documented_allowed m ctx.get? documented
      exact (asked b).mpr ⟨v,visit_complete allowed evaluated (guarded ⟨b,answered⟩),truth⟩
    · rintro ⟨e,failed⟩
      cases answer : safeEvalBool m parse expression ctx with
      | error e => exact ⟨e,rfl⟩
      | ok b =>
        have answered := (sound b answer).1
        rw [failed] at answered
        cases answered

def zeroDivisionError : Exn := ⟨"division by zero","ZeroDivisionError('division by zero')"⟩

/-- The number that a value is in arithmetic; booleans are numbers. -/
def Value.whole? : Value → Option Int
  | .int n => some n
  | .bool b => some (if b then 1 else 0)
  | _ => .none

/-- Whole numbers, with `/` as far as its quotients are whole; other operands are refused. -/
def wholeNumbers : DataModel Value Exn where
  truth v := .ok v.truthy
  ofBool := .bool
  unary op v :=
    match op,v.whole? with
    | .not,_ => .ok (.bool !v.truthy)
    | .uSub,some a => .ok (.int (-a))
    | .uAdd,some a => .ok (.int a)
    | _,_ => .error (typeError "bad operand type for unary operator")
  binary op v w :=
    match op,v.whole?,w.whole? with
    | .add,some a,some b => .ok (.int (a + b))
    | .sub,some a,some b => .ok (.int (a - b))
    | .mult,some a,some b => .ok (.int (a * b))
    | .div,some a,some b => if b = 0 then .error zeroDivisionError else .ok (.int (a / b))
    | .mod,some a,some b => if b = 0 then .error zeroDivisionError else .ok (.int (a.fmod b))
    | _,_,_ => .error (typeError "unsupported operand types")
  compare op v w :=
    match op,v.whole?,w.whole? with
    | .eq,some a,some b => .ok (a == b)
    | .notEq,some a,some b => .ok (a != b)
    | .lt,some a,some b => .ok (a < b)
    | .ltE,some a,some b => .ok (a ≤ b)
    | .gt,some a,some b => .ok (b < a)
    | .gtE,some a,some b => .ok (b ≤ a)
    | _,_,_ => .error (typeError "comparison not supported")
  nameError id :=
    let text := s!"name '{id}' is not defined"
    ⟨text,"NameError(" ++ PythonText.repr text ++ ")"⟩
  other _ _ := .error (typeError "unsupported element")

/-- `runs == 0 or 10 / runs > 1`. -/
def rateCheck : Expr Value :=
  .boolOp .or (.more (.compare (.name "runs") (.more .eq (.constant (.int 0)) .nil))
    (.last (.compare (.binOp (.constant (.int 10)) .div (.name "runs")) (.more .gt (.constant (.int 1)) .nil))))

theorem rateCheck_agrees_iff : SafeEval.Agrees wholeNumbers (fun _ => some rateCheck) "runs == 0 or 10 / runs > 1"
    rateCheck (.ofList [("runs",.int 5)]) ↔
      ((∃ b, rateCheck.test wholeNumbers (OrderedDict.ofList [("runs",.int 5)]).get? = .ok b) →
        rateCheck.Guarded wholeNumbers (OrderedDict.ofList [("runs",.int 5)]).get?) :=
  safeEvalBool_agrees_iff wholeNumbers (fun _ => some rateCheck) _ rateCheck rfl
    (by simp [rateCheck,SafeEval.Documented,SafeEval.DocumentedOperands,SafeEval.DocumentedComparators,allowedBinOps,
      allowedCmpOps]) _

/-- Python answers with the guard; the visitor divides by zero. -/
theorem rateCheck_divides : rateCheck.test wholeNumbers (OrderedDict.ofList [("runs",.int 0)]).get? = .ok true ∧
    safeEvalBool wholeNumbers (fun _ => some rateCheck) "runs == 0 or 10 / runs > 1"
      (.ofList [("runs",.int 0)]) = .error zeroDivisionError := by
  constructor
  · rfl
  · rfl

end IceOS
