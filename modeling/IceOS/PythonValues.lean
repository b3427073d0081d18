import IceOS.NodeModels
import IceOS.PythonJson

/-! What Python does with a value of JSON beyond writing it: its `str`, equality, iteration and membership. -/
namespace IceOS

/-- Floating-point numbers with their `repr`, and how they compare with each other and with integers. -/
structure PythonFloats (φ : Type) extends PythonJson.FloatTexts φ where
  repr : φ → String
  equal : φ → φ → Bool
  equalInt : φ → Int → Bool

namespace PythonFloats

variable {φ : Type} (f : PythonFloats φ)

mutual

def reprJson : Json φ → String
  | .null => "None"
  | .bool true => "True"
  | .bool false => "False"
  | .int i => String.ofList (PythonJson.intNumeral i).text
  | .float x => f.repr x
  | .str text => PythonText.repr text
  | .list items => "[" ++ ", ".intercalate (reprItems items) ++ "]"
  | .dict entries => "\x7b" ++ ", ".intercalate (reprEntries entries) ++ "\x7d"

def reprItems : List (Json φ) → List String
  | [] => []
  | v :: rest => reprJson v :: reprItems rest

def reprEntries : List (String × Json φ) → List String
  | [] => []
  | (key,v) :: rest => (PythonText.repr key ++ ": " ++ reprJson v) :: reprEntries rest

end

/-- `str(value)` -/
def str : Json φ → String
  | .str text => text
  | v => f.reprJson v

def equalNumbers : Json φ → Json φ → Bool
  | .float x,.float y => f.equal x y
  | .float x,.int i | .int i,.float x => f.equalInt x i
  | .float x,.bool b | .bool b,.float x => f.equalInt x b.toInt
  | .int i,.int j => decide (i = j)
  | .int i,.bool b | .bool b,.int i => decide (i = b.toInt)
  | .bool b,.bool c => b == c
  | _,_ => false

mutual

/-- `==`; a truth value counts as a number, and the order of a dictionary does not matter. -/
def equalJson : Json φ → Json φ → Bool
  | .null,.null => true
  | .str s,.str t => s == t
  | .list items,.list others => equalItems items others
  | .dict entries,.dict others => entries.length == others.length && equalEntries entries others
  | v,w => f.equalNumbers v w

def equalItems : List (Json φ) → List (Json φ) → Bool
  | [],[] => true
  | v :: items,w :: others => equalJson v w && equalItems items others
  | _,_ => false

def equalEntries : List (String × Json φ) → List (String × Json φ) → Bool
  | [],_ => true
  | (key,v) :: entries,others =>
    (match others.lookup key with
      | some w => equalJson v w
      | none => false) && equalEntries entries others

end

def typeName : Json φ → String
  | .null => "NoneType"
  | .bool _ => "bool"
  | .int _ => "int"
  | .float _ => "float"
  | .str _ => "str"
  | .list _ => "list"
  | .dict _ => "dict"

/-- What a loop over a value goes through. -/
def iterate : Json φ → Except Exn (List (Json φ))
  | .list items => .ok items
  | .str text => .ok (text.toList.map fun c => .str (String.singleton c))
  | .dict entries => .ok (entries.map fun entry => .str entry.1)
  | v => .error (typeError ("'" ++ typeName v ++ "' object is not iterable"))

def hash (v : Json φ) : Except Exn Unit :=
  match v with
  | .list _ | .dict _ => .error (typeError ("unhashable type: '" ++ typeName v ++ "'"))
  | _ => .ok ()

/-- `v in container` -/
def member (v : Json φ) : Json φ → Except Exn Bool
  | .list items => .ok (items.any fun item => f.equalJson item v)
  | .dict entries => (hash v).map fun _ => entries.any fun entry => f.equalJson (.str entry.1) v
  | .str text =>
    match v with
    | .str sub => .ok (PythonText.contains sub text)
    | _ => .error (typeError ("'in <string>' requires string as left operand, not " ++ typeName v))
  | container => .error (typeError ("argument of type '" ++ typeName container ++ "' is not iterable"))

/-- `all(v in set(container) for v in wanted)` -/
def allIn (container wanted : Json φ) : Except Exn Bool := do
  let items ← iterate container
  items.forM hash
  let wanted ← iterate wanted
  wanted.foldlM (fun found v => if found then (hash v).map fun _ => items.any fun item => f.equalJson item v
    else .ok false) true

end PythonFloats

end IceOS
