import Mathlib.Tactic.Cases

/-! Python expressions as syntax trees, and their evaluation: the operands of `and` and `or` up to the one
that decides, the comparisons of a chain up to the first that fails. What values are, and what the
operators do with them, is a parameter. -/
namespace PythonExpr

inductive BoolOp where
  | and | or
  deriving DecidableEq, Repr

inductive Operator where
  | add | sub | mult | div | mod | pow | floorDiv | matMult | bitAnd | bitOr | bitXor | lShift | rShift
  deriving DecidableEq, Repr

inductive UnaryOp where
  | not | uSub | uAdd | invert
  deriving DecidableEq, Repr

inductive CmpOp where
  | eq | notEq | lt | ltE | gt | gtE | is | isNot | isIn | notIn
  deriving DecidableEq, Repr

mutual

/-- `other` is any further kind of element, with its dump. -/
inductive Expr (V : Type) where
  | constant (value : V)
  | name (id : String)
  | boolOp (op : BoolOp) (values : Operands V)
  | binOp (left : Expr V) (op : Operator) (right : Expr V)
  | unaryOp (op : UnaryOp) (operand : Expr V)
  | compare (left : Expr V) (comparators : Comparators V)
  | other (dump : String)

inductive Operands (V : Type) where
  | last (e : Expr V)
  | more (e : Expr V) (rest : Operands V)

inductive Comparators (V : Type) where
  | nil
  | more (op : CmpOp) (right : Expr V) (rest : Comparators V)

end

/-- Values of type `V`, exceptions of type `E`. Comparisons give booleans, as those of the built-in types do. -/
structure DataModel (V E : Type) where
  truth : V → Except E Bool
  ofBool : Bool → V
  unary : UnaryOp → V → Except E V
  binary : Operator → V → V → Except E V
  compare : CmpOp → V → V → Except E Bool
  nameError : String → E
  other : String → (String → Option V) → Except E V

/-- The truth value of an operand that ends the evaluation. -/
def BoolOp.decisive : BoolOp → Bool
  | .and => false
  | .or => true

variable {V E : Type}

section

variable (m : DataModel V E) (env : String → Option V)

mutual

def Expr.eval : Expr V → Except E V
  | .constant value => .ok value
  | .name id =>
    match env id with
    | some value => .ok value
    | none => .error (m.nameError id)
  | .boolOp op values => values.eval op
  | .binOp left op right => do
    let a ← left.eval
    let b ← right.eval
    m.binary op a b
  | .unaryOp op operand => do m.unary op (← operand.eval)
  | .compare left comparators => do comparators.eval (← left.eval)
  | .other dump => m.other dump env

def Operands.eval (op : BoolOp) : Operands V → Except E V
  | .last e => e.eval
  | .more e rest => do
    let a ← e.eval
    if (← m.truth a) = op.decisive then return a else rest.eval op

def Comparators.eval (left : V) : Comparators V → Except E V
  | .nil => .ok (m.ofBool true)
  | .more op right rest => do
    let b ← right.eval
    if ← m.compare op left b then rest.eval b else return m.ofBool false

end

/-- The truth of the value, as an `if` asks for it. -/
def Expr.test (e : Expr V) : Except E Bool := do m.truth (← e.eval m env)

mutual

/-- Every operand of an `and` or `or` that the evaluation reaches has a value of its own, decided or not. -/
def Expr.Guarded : Expr V → Prop
  | .boolOp _ values => values.Guarded
  | .binOp left _ right => left.Guarded ∧ right.Guarded
  | .unaryOp _ operand => operand.Guarded
  | .compare left comparators => left.Guarded ∧ ∀ a, left.eval m env = .ok a → comparators.Guarded a
  | .constant _ | .name _ | .other _ => True

def Operands.Guarded : Operands V → Prop
  | .last e => (∃ v, e.eval m env = .ok v) ∧ e.Guarded
  | .more e rest => ((∃ v, e.eval m env = .ok v) ∧ e.Guarded) ∧ rest.Guarded

def Comparators.Guarded (left : V) : Comparators V → Prop
  | .nil => True
  | .more op right rest => right.Guarded ∧
    ∀ b, right.eval m env = .ok b → m.compare op left b = .ok true → rest.Guarded b

end

end

end PythonExpr
