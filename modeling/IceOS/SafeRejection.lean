import IceOS.SafeEval

/-! What `safe_eval_bool` rejects, and with which exceptions. Rejection happens on the way: what a chain of
comparisons does not get to is not looked at, and what an operator raises is passed on. -/
namespace IceOS

open PythonExpr ExceptRules

variable {V : Type}

namespace SafeEval

section

variable (env : String → Option V)

mutual

/-- Every name in the tree is in the context. -/
def Bound : Expr V → Prop
  | .boolOp _ values => BoundOperands values
  | .binOp left _ right => Bound left ∧ Bound right
  | .unaryOp _ operand => Bound operand
  | .compare left comparators => Bound left ∧ BoundComparators comparators
  | .name id => (env id).isSome
  | .constant _ | .other _ => True

def BoundOperands : Operands V → Prop
  | .last e => Bound e
  | .more e rest => Bound e ∧ BoundOperands rest

def BoundComparators : Comparators V → Prop
  | .nil => True
  | .more _ right rest => Bound right ∧ BoundComparators rest

end

/-- The documented syntax over names of the context. -/
def Supported (e : Expr V) : Prop := Documented e ∧ Bound env e

end

section

variable (m : DataModel V Exn) (env : String → Option V)

mutual

/-- Where a chain of comparisons ends early, what it leaves out is supported. -/
def SkipsSupported : Expr V → Prop
  | .boolOp _ values => SkipsSupportedOperands values
  | .binOp left _ right => SkipsSupported left ∧ SkipsSupported right
  | .unaryOp _ operand => SkipsSupported operand
  | .compare left comparators => SkipsSupported left ∧ ∀ a, left.eval m env = .ok a → SkipsSupportedComparators a comparators
  | .constant _ | .name _ | .other _ => True

def SkipsSupportedOperands : Operands V → Prop
  | .last e => SkipsSupported e
  | .more e rest => SkipsSupported e ∧ SkipsSupportedOperands rest

def SkipsSupportedComparators (left : V) : Comparators V → Prop
  | .nil => True
  | .more op right rest => SkipsSupported right ∧ ∀ b, right.eval m env = .ok b →
    (m.compare op left b = .ok true → SkipsSupportedComparators b rest) ∧
      (m.compare op left b = .ok false → DocumentedComparators rest ∧ BoundComparators env rest)

end

/-- The value of an expression, if everything that the visitor gets to has one and is documented. -/
def Yields (e : Expr V) (v : V) : Prop := e.eval m env = .ok v ∧ e.Guarded m env ∧ Allowed m env e

variable (caught : Exn → Prop)

mutual

/-- The operators, comparisons and truth tests that are applied raise only exceptions that are caught. -/
def Tame : Expr V → Prop
  | .boolOp op values => TameOperands op values
  | .binOp left op right => op ∈ allowedBinOps → Tame left ∧ ∀ a, Yields m env left a →
    Tame right ∧ ∀ b, Yields m env right b → Only caught (m.binary op a b)
  | .unaryOp op operand => op ∈ allowedUnaryOps → Tame operand ∧ ∀ a, Yields m env operand a →
    Only caught (m.unary op a)
  | .compare left comparators => Tame left ∧ ∀ a, Yields m env left a → TameComparators a comparators
  | .constant _ | .name _ | .other _ => True

def TameOperands (op : BoolOp) : Operands V → Prop
  | .last e => Tame e
  | .more e rest => Tame e ∧ ∀ a, Yields m env e a → TameRest op a rest

/-- `result` is what the operands before these have come to; its truth is asked for after each of them. -/
def TameRest (op : BoolOp) (result : V) : Operands V → Prop
  | .last e => Tame e ∧ ∀ b, Yields m env e b → Only caught (m.truth result)
  | .more e rest => Tame e ∧ ∀ b, Yields m env e b → Only caught (m.truth result) ∧
    ∀ t, m.truth result = .ok t → TameRest op (if t = op.decisive then result else b) rest

def TameComparators (left : V) : Comparators V → Prop
  | .nil => True
  | .more op right rest => op ∈ allowedCmpOps → Tame right ∧ ∀ b, Yields m env right b →
    Only caught (m.compare op left b) ∧ (m.compare op left b = .ok true → TameComparators b rest)

end

end

variable {m : DataModel V Exn} {ctx : OrderedDict String V}

theorem visit_eq_ok {e : Expr V} {v : V} : visit m ctx e = .ok v ↔ Yields m ctx.get? e v :=
  ⟨visit_sound,fun yields => visit_complete yields.2.2 yields.1 yields.2.1⟩

/-! ### Which exceptions get out -/

variable {caught : Exn → Prop}

theorem opFunc_only {op : BoolOp} {a b : V} : Only caught (opFunc m op a b) ↔ Only caught (m.truth a) := by
  rw [opFunc,only_bind]
  exact ⟨And.left,fun only => ⟨only,fun _ _ => only_ok⟩⟩

mutual

theorem visit_only (values : ∀ text, caught (valueError text)) {e : Expr V} :
    Only caught (visit m ctx e) ↔ Tame m ctx.get? caught e := by
  cases e with
  | constant value => simp [visit,Tame]
  | name id =>
    simp only [visit,Tame,iff_true]
    split
    · exact only_ok
    · exact only_error.mpr (values _)
  | boolOp op operands => exact evalBoolop_only values
  | binOp left op right =>
    by_cases listed : op ∈ allowedBinOps
    · simp only [visit,Tame,listed,if_true,true_implies,only_bind,visit_eq_ok,visit_only values (e := left),
        visit_only values (e := right)]
    · simp only [visit,Tame,listed,if_false,false_implies,iff_true]
      exact only_error.mpr (values _)
  | unaryOp op operand =>
    by_cases listed : op ∈ allowedUnaryOps
    · simp only [visit,Tame,listed,if_true,true_implies,only_bind,visit_eq_ok,visit_only values (e := operand)]
    · simp only [visit,Tame,listed,if_false,false_implies,iff_true]
      exact only_error.mpr (values _)
  | compare left comparators =>
    simp only [visit,Tame,only_bind,visit_eq_ok,visit_only values (e := left),
      evalCompare_only values comparators]
  | other dump =>
    simp only [visit,Tame,iff_true]
    exact only_error.mpr (values _)

theorem evalBoolop_only (values : ∀ text, caught (valueError text)) {op : BoolOp} {operands : Operands V} :
    Only caught (evalBoolop m ctx op operands) ↔ TameOperands m ctx.get? caught op operands := by
  cases operands with
  | last e => exact visit_only values
  | more e rest =>
    simp only [evalBoolop,TameOperands,only_bind,visit_eq_ok,visit_only values (e := e),
      combine_only values rest]

theorem combine_only (values : ∀ text, caught (valueError text)) (rest : Operands V) {op : BoolOp} {result : V} :
    Only caught (combine m ctx op result rest) ↔ TameRest m ctx.get? caught op result rest := by
  cases rest with
  | last e =>
    simp only [combine,TameRest,only_bind,visit_eq_ok,visit_only values (e := e),opFunc_only]
  | more e rest =>
    simp only [combine,TameRest,only_bind,visit_eq_ok,visit_only values (e := e),opFunc_only,opFunc_eq_ok,
      combine_only values rest]
    refine and_congr_right fun _ => forall₂_congr fun b _ => and_congr_right fun _ => ?_
    constructor
    · exact fun next t asked => next _ ⟨t,asked,rfl⟩
    · rintro next _ ⟨t,asked,rfl⟩
      exact next t asked

theorem evalCompare_only (values : ∀ text, caught (valueError text)) (comparators : Comparators V) {left : V} :
    Only caught (evalCompare m ctx left comparators) ↔ TameComparators m ctx.get? caught left comparators := by
  cases comparators with
  | nil => simp [evalCompare,TameComparators]
  | more op right rest =>
    by_cases listed : op ∈ allowedCmpOps
    · simp only [evalCompare,TameComparators,listed,if_true,true_implies,only_bind,visit_eq_ok,
        visit_only values (e := right)]
      refine and_congr_right fun _ => forall₂_congr fun b _ => and_congr_right fun _ => ?_
      rw [← evalCompare_only values rest]
      constructor
      · exact fun next holds => next true holds
      · intro next holds compared
        cases holds with
        | true => exact next compared
        | false => exact only_ok
    · simp only [evalCompare,TameComparators,listed,if_false,false_implies,iff_true]
      exact only_error.mpr (values _)

end

/-! ### What is left out -/

mutual

/-- Where the visitor gives a value, all of the tree is supported if what it left out is. -/
theorem visit_supported {e : Expr V} {v : V} (visited : visit m ctx e = .ok v) :
    SkipsSupported m ctx.get? e ↔ Documented e ∧ Bound ctx.get? e := by
  cases e with
  | constant value => simp [SkipsSupported,Documented,Bound]
  | name id =>
    simp only [visit] at visited
    split at visited
    · next value found => simp [SkipsSupported,Documented,Bound,found]
    · contradiction
  | boolOp op values => exact evalBoolop_supported visited
  | binOp left op right =>
    simp only [visit] at visited
    split at visited
    · next listed =>
      obtain ⟨a,first,visited⟩ := bind_eq_ok.mp visited
      obtain ⟨b,second,_⟩ := bind_eq_ok.mp visited
      simp only [SkipsSupported,Documented,Bound,visit_supported first,visit_supported second,listed]
      tauto
    · contradiction
  | unaryOp op operand =>
    simp only [visit] at visited
    split at visited
    · next listed =>
      obtain ⟨a,inner,_⟩ := bind_eq_ok.mp visited
      simp only [SkipsSupported,Documented,Bound,visit_supported inner,listed,true_and]
    · contradiction
  | compare left comparators =>
    obtain ⟨a,first,compared⟩ := bind_eq_ok.mp visited
    have only : (∀ b, left.eval m ctx.get? = .ok b → SkipsSupportedComparators m ctx.get? b comparators) ↔
        SkipsSupportedComparators m ctx.get? a comparators := by
      simp [(visit_sound first).1]
    simp only [SkipsSupported,Documented,Bound,visit_supported first,only,evalCompare_supported compared]
    tauto
  | other dump => contradiction

theorem evalBoolop_supported {op : BoolOp} {values : Operands V} {v : V}
    (visited : evalBoolop m ctx op values = .ok v) :
    SkipsSupportedOperands m ctx.get? values ↔ DocumentedOperands values ∧ BoundOperands ctx.get? values := by
  cases values with
  | last e => exact visit_supported visited
  | more e rest =>
    obtain ⟨a,first,combined⟩ := bind_eq_ok.mp visited
    simp only [SkipsSupportedOperands,DocumentedOperands,BoundOperands,visit_supported first,
      combine_supported combined]
    tauto

theorem combine_supported {op : BoolOp} {result : V} {rest : Operands V} {v : V}
    (visited : combine m ctx op result rest = .ok v) :
    SkipsSupportedOperands m ctx.get? rest ↔ DocumentedOperands rest ∧ BoundOperands ctx.get? rest := by
  cases rest with
  | last e =>
    obtain ⟨b,last,_⟩ := bind_eq_ok.mp visited
    exact visit_supported last
  | more e rest =>
    obtain ⟨b,first,visited⟩ := bind_eq_ok.mp visited
    obtain ⟨next,_,combined⟩ := bind_eq_ok.mp visited
    simp only [SkipsSupportedOperands,DocumentedOperands,BoundOperands,visit_supported first,
      combine_supported combined]
    tauto

theorem evalCompare_supported {left : V} {comparators : Comparators V} {v : V}
    (visited : evalCompare m ctx left comparators = .ok v) :
    SkipsSupportedComparators m ctx.get? left comparators ↔
      DocumentedComparators comparators ∧ BoundComparators ctx.get? comparators := by
  cases comparators with
  | nil => simp [SkipsSupportedComparators,DocumentedComparators,BoundComparators]
  | more op right rest =>
    simp only [evalCompare] at visited
    split at visited
    · next listed =>
      obtain ⟨b,second,visited⟩ := bind_eq_ok.mp visited
      obtain ⟨holds,compared,visited⟩ := bind_eq_ok.mp visited
      simp only [SkipsSupportedComparators,DocumentedComparators,BoundComparators,visit_supported second,
        (visit_sound second).1,Except.ok.injEq,forall_eq',compared,listed,true_and]
      cases holds with
      | true =>
        simp only [true_implies,reduceCtorEq,false_implies,and_true,evalCompare_supported visited]
        tauto
      | false =>
        simp only [reduceCtorEq,false_implies,true_implies,true_and]
        tauto
    · contradiction

end

end SafeEval

open SafeEval

/-- `safe_eval_bool` refuses what is not supported, and nothing but a `ValueError` gets out of it. `caught` says
which exceptions are `ValueError`s. -/
structure RejectsCleanly (m : DataModel V Exn) (parse : String → Option (Expr V)) (caught : Exn → Prop)
    (expression : String) (ctx : OrderedDict String V) : Prop where
  rejects : ∀ tree, parse expression = some tree → ¬Supported ctx.get? tree →
    ∃ e, safeEvalBool m parse expression ctx = .error e ∧ caught e
  only : Only caught (safeEvalBool m parse expression ctx)

/-- It does exactly where no operation that is applied raises anything else, and no chain of comparisons that
ends early hides something unsupported in an expression that has a value otherwise. -/
theorem safeEvalBool_rejects_iff (m : DataModel V Exn) (parse : String → Option (Expr V)) (caught : Exn → Prop)
    (values : ∀ text, caught (valueError text)) (expression : String) (ctx : OrderedDict String V) :
    RejectsCleanly m parse caught expression ctx ↔
      ∀ tree, parse expression = some tree → Tame m ctx.get? caught tree ∧
        ∀ v, Yields m ctx.get? tree v → Only caught (m.truth v) ∧
          ((∃ b, m.truth v = .ok b) → SkipsSupported m ctx.get? tree) := by
  cases parsed : parse expression with
  | none =>
    have refused : safeEvalBool m parse expression ctx = .error (valueError s!"Invalid expression syntax: {expression}") := by
      simp only [safeEvalBool,parsed]
    refine ⟨fun _ tree other => by contradiction,fun _ => ⟨fun tree other => ?_,?_⟩⟩
    · rw [parsed] at other
      contradiction
    · rw [refused]
      exact only_error.mpr (values _)
  | some tree =>
    have run : safeEvalBool m parse expression ctx = visit m ctx tree >>= m.truth := by
      simp only [safeEvalBool,parsed]
    have only : Only caught (safeEvalBool m parse expression ctx) ↔
        Tame m ctx.get? caught tree ∧ ∀ v, Yields m ctx.get? tree v → Only caught (m.truth v) := by
      simp only [run,only_bind,visit_only values,visit_eq_ok]
    simp only [Option.some.injEq,forall_eq']
    constructor
    · rintro ⟨rejects,clean⟩
      obtain ⟨tame,truths⟩ := only.mp clean
      refine ⟨tame,fun v yields => ⟨truths v yields,?_⟩⟩
      rintro ⟨b,truth⟩
      have visited := visit_eq_ok.mpr yields
      apply (visit_supported visited).mpr
      by_contra unsupported
      obtain ⟨e,failed,_⟩ := rejects tree parsed unsupported
      rw [run,visited] at failed
      have answered : (.ok b : Except Exn Bool) = .error e := truth.symm.trans failed
      contradiction
    · rintro ⟨tame,truths⟩
      have clean := only.mpr ⟨tame,fun v yields => (truths v yields).1⟩
      refine ⟨fun tree' same unsupported => ?_,clean⟩
      rw [parsed] at same
      cases same
      cases answer : safeEvalBool m parse expression ctx with
      | error e => exact ⟨e,rfl,clean e answer⟩
      | ok b =>
        rw [run] at answer
        obtain ⟨v,visited,truth⟩ := bind_eq_ok.mp answer
        have skips := (truths v (visit_eq_ok.mp visited)).2 ⟨b,truth⟩
        exact absurd ((visit_supported visited).mp skips) unsupported

/-- A `ValueError` of this module. -/
abbrev IsValueError (e : Exn) : Prop := ∃ text, e = valueError text

theorem rateCheck_rejects_iff : RejectsCleanly wholeNumbers (fun _ => some rateCheck) IsValueError
    "runs == 0 or 10 / runs > 1" (.ofList [("runs",.int 5)]) ↔
      ∀ tree, some rateCheck = some tree →
        Tame wholeNumbers (OrderedDict.ofList [("runs",.int 5)]).get? IsValueError tree ∧
          ∀ v, Yields wholeNumbers (OrderedDict.ofList [("runs",.int 5)]).get? tree v →
            Only IsValueError (wholeNumbers.truth v) ∧ ((∃ b, wholeNumbers.truth v = .ok b) →
              SkipsSupported wholeNumbers (OrderedDict.ofList [("runs",.int 5)]).get? tree) :=
  safeEvalBool_rejects_iff wholeNumbers (fun _ => some rateCheck) IsValueError (fun text => ⟨text,rfl⟩) _ _

/-- `1 < 0 < x ** 2`: neither the power nor the unknown name is ever seen. -/
def hiddenPower : Expr Value :=
  .compare (.constant (.int 1)) (.more .lt (.constant (.int 0))
    (.more .lt (.binOp (.name "x") .pow (.constant (.int 2))) .nil))

/-- `1 / 0`. -/
def unguardedRate : Expr Value := .binOp (.constant (.int 1)) .div (.constant (.int 0))

/-- An unsupported expression has an answer, and a supported one divides by zero. -/
theorem hiddenPower_passes :
    ¬RejectsCleanly wholeNumbers (fun _ => some hiddenPower) IsValueError "1 < 0 < x ** 2" .empty ∧
      ¬RejectsCleanly wholeNumbers (fun _ => some unguardedRate) IsValueError "1 / 0" .empty := by
  constructor
  · intro clean
    have unsupported : ¬Supported (OrderedDict.empty : OrderedDict String Value).get? hiddenPower := by
      simp [Supported,hiddenPower,Documented,DocumentedComparators,allowedBinOps]
    obtain ⟨e,failed,_⟩ := clean.rejects hiddenPower rfl unsupported
    have answered : safeEvalBool wholeNumbers (fun _ => some hiddenPower) "1 < 0 < x ** 2" .empty = .ok false := rfl
    rw [answered] at failed
    contradiction
  · intro clean
    obtain ⟨text,same⟩ := clean.only zeroDivisionError rfl
    have shown := congrArg (fun e => e.shown.toList.head?) same
    simp [zeroDivisionError,valueError] at shown

end IceOS
