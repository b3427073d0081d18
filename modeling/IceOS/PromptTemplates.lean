import IceOS.ExceptRules
import IceOS.PythonValues

/-! The prompts of the generation are filled in with `str.format`. In the one for the diagram the braces of an example are
not doubled: they ask for an argument that is never given. -/
namespace IceOS.PromptTemplates

variable {φ : Type}

/-- What is read of a template whose fields are names. -/
inductive Piece where
  | literal (c : Char)
  | field (name : String)
  | broken (e : Exn)
  deriving DecidableEq

/-- Inside a field there is the part of its name that has been read. -/
def pieces : Option (List Char) → List Char → List Piece
  | none,[] => []
  | none,'\x7b' :: '\x7b' :: rest => .literal '\x7b' :: pieces none rest
  | none,'\x7d' :: '\x7d' :: rest => .literal '\x7d' :: pieces none rest
  | none,['\x7b'] => [.broken (valueError "Single '\x7b' encountered in format string")]
  | none,'\x7b' :: rest => pieces (some []) rest
  | none,'\x7d' :: _ => [.broken (valueError "Single '\x7d' encountered in format string")]
  | none,c :: rest => .literal c :: pieces none rest
  | some _,[] => [.broken (valueError "expected '\x7d' before end of string")]
  | some name,'\x7d' :: rest => .field (String.ofList name) :: pieces none rest
  | some _,'\x7b' :: _ => [.broken (valueError "unexpected '\x7b' in field name")]
  | some name,c :: rest => pieces (some (name ++ [c])) rest

def Piece.fill (arguments : List (String × String)) : Piece → Except Exn String
  | .literal c => .ok (String.singleton c)
  | .field name =>
    match arguments.lookup name with
    | some text => .ok text
    | none => .error (keyError name)
  | .broken e => .error e

/-- `template.format(**arguments)` -/
def format (template : String) (arguments : List (String × String)) : Except Exn String :=
  ((pieces none template.toList).mapM (Piece.fill arguments)).map String.join

theorem format_missing {template : String} {arguments : List (String × String)} {name : String}
    (asked : .field name ∈ pieces none template.toList) (missing : arguments.lookup name = none) :
    ∃ e, format template arguments = .error e := by
  rw [format]
  cases filled : (pieces none template.toList).mapM (Piece.fill arguments) with
  | error e => exact ⟨e,rfl⟩
  | ok texts =>
    obtain ⟨text,filled⟩ := ExceptRules.ok_of_mapM filled asked
    rw [Piece.fill,missing] at filled
    cases filled

/-! ### The diagram's prompt -/

def noAttribute (v : Json φ) (name : String) : Exn :=
  let text := "'" ++ PythonFloats.typeName v ++ "' object has no attribute '" ++ name ++ "'"
  ⟨text,"AttributeError(" ++ PythonText.repr text ++ ")"⟩

/-- `v[key]` -/
def subscript (key : String) : Json φ → Except Exn (Json φ)
  | .dict entries =>
    match entries.lookup key with
    | some w => .ok w
    | none => .error (keyError key)
  | .str _ => .error (typeError "string indices must be integers, not 'str'")
  | .list _ => .error (typeError "list indices must be integers or slices, not str")
  | v => .error (typeError ("'" ++ PythonFloats.typeName v ++ "' object is not subscriptable"))

/-- `v.get(key, default)` -/
def get (key : String) (default : Json φ) : Json φ → Except Exn (Json φ)
  | .dict entries => .ok ((entries.lookup key).getD default)
  | v => .error (noAttribute v "get")

def mermaidGenerationPrompt : String :=
  "Create a Mermaid flowchart diagram for this workflow.\n\nNodes:\n\x7bnodes\x7d\n\nRequirements:\n" ++
    "- Use descriptive labels (not just IDs)\n- Show all dependencies as arrows\n" ++
    "- Group related nodes in subgraphs where appropriate\n- Add styling to distinguish node types (use classes)\n\n" ++
    "Example format:\ngraph TD\n    A[Start] --> B[Process Data]\n    B --> C\x7bDecision\x7d\n" ++
    "    C -->|Yes| D[Action 1]\n    C -->|No| E[Action 2]\n\nReturn ONLY the Mermaid code, no explanations."

def nodeLine (f : PythonFloats φ) (node : Json φ) : Except Exn String := do
  let id ← subscript "id" node
  let type ← subscript "type" node
  let description ← get "description" (.str "No description") node
  return "- " ++ f.str id ++ " (" ++ f.str type ++ "): " ++ f.str description

def formatMermaidPrompt (f : PythonFloats φ) (nodes : List (Json φ)) : Except Exn String :=
  (nodes.mapM (nodeLine f)).bind fun nodesDesc => format mermaidGenerationPrompt [("nodes","\n".intercalate nodesDesc)]

/-- The decision of the example is asked for. -/
theorem decision_asked : .field "Decision" ∈ pieces none mermaidGenerationPrompt.toList := by
  unfold mermaidGenerationPrompt
  rw [String.toList_append,String.toList_append,String.toList_append,String.toList_append]
  -- a literal's characters are read off it here, and not decoded
  repeat rw [String.toList_ofList]
  decide +kernel

theorem formatMermaidPrompt_raises (f : PythonFloats φ) (nodes : List (Json φ)) :
    ∃ e, formatMermaidPrompt f nodes = .error e := by
  have unformatted (desc : String) : ∃ e, format mermaidGenerationPrompt [("nodes",desc)] = .error e :=
    format_missing decision_asked rfl
  cases described : nodes.mapM (nodeLine f) with
  | error e => exact ⟨e,ExceptRules.bind_eq_error.mpr (.inl described)⟩
  | ok nodesDesc =>
    obtain ⟨e,raised⟩ := unformatted ("\n".intercalate nodesDesc)
    exact ⟨e,ExceptRules.bind_eq_error.mpr (.inr ⟨nodesDesc,described,raised⟩)⟩

end IceOS.PromptTemplates
