import IceOS.OrderedDict
import IceOS.PythonText

/-! Node configurations and execution results, with the fields that scheduling, context
building, retries and failure bookkeeping read. -/
namespace IceOS

/-- A Python value as far as output paths, truth tests and results can see it. -/
inductive Value where
  | none
  | bool (b : Bool)
  | int (n : Int)
  | str (s : String)
  | list (items : List Value)
  | dict (entries : List (String × Value))
  | other (typeName : String) (truthy : Bool)

namespace Value

def truthy : Value → Bool
  | .none => false
  | .bool b => b
  | .int n => n != 0
  | .str s => s != ""
  | .list items => !items.isEmpty
  | .dict entries => !entries.isEmpty
  | .other _ t => t

/-- What `type(value)` prints as. -/
def typeText : Value → String
  | .none => "<class 'NoneType'>"
  | .bool _ => "<class 'bool'>"
  | .int _ => "<class 'int'>"
  | .str _ => "<class 'str'>"
  | .list _ => "<class 'list'>"
  | .dict _ => "<class 'dict'>"
  | .other name _ => "<class '" ++ name ++ "'>"

def isNone : Value → Bool
  | .none => true
  | _ => false

/-- The items of a dict, nothing for any other value. -/
def entries : Value → List (String × Value)
  | .dict entries => entries
  | _ => []

def isDict : Value → Bool
  | .dict _ => true
  | _ => false

end Value

/-- The `type` discriminator; each one has a configuration class of its own. -/
inductive NodeType where
  | llm | tool | agent | condition | workflow | loop | parallel | recursive | code | human | monitor
  | swarm
  deriving DecidableEq, Repr

def NodeType.text : NodeType → String
  | .llm => "llm"
  | .tool => "tool"
  | .agent => "agent"
  | .condition => "condition"
  | .workflow => "workflow"
  | .loop => "loop"
  | .parallel => "parallel"
  | .recursive => "recursive"
  | .code => "code"
  | .human => "human"
  | .monitor => "monitor"
  | .swarm => "swarm"

/-- An entry of `input_mappings`: a path into another node's output, or a raw value. -/
inductive InputMapping where
  | reference (sourceNodeId sourceOutputKey : Option String)
  | literal (value : Value)

structure NodeConfig where
  id : String
  type : NodeType
  dependencies : List String := []
  level : Int := 0
  inputMappings : List (String × InputMapping) := []
  recursiveSources : List String := []
  /-- `retry_policy.max_attempts`, which pydantic keeps at one or more. -/
  maxAttempts : Option Nat := none
  retries : Nat := 0

structure UsageMetadata where
  totalTokens : Nat
  cost : Rat := 0

structure NodeExecutionResult where
  success : Bool := true
  error : Option String := none
  output : Value := .none
  usage : Option UsageMetadata := none

/-- An exception in flight: its `str` and its `repr`. -/
structure Exn where
  text : String
  shown : String
  deriving DecidableEq, Repr

def keyError (key : String) : Exn :=
  ⟨PythonText.repr key,"KeyError(" ++ PythonText.repr key ++ ")"⟩

def valueError (text : String) : Exn := ⟨text,"ValueError(" ++ PythonText.repr text ++ ")"⟩

def typeError (text : String) : Exn := ⟨text,"TypeError(" ++ PythonText.repr text ++ ")"⟩

def indexError : Exn := ⟨"list index out of range","IndexError('list index out of range')"⟩

def recursionError : Exn :=
  ⟨"maximum recursion depth exceeded","RecursionError('maximum recursion depth exceeded')"⟩

inductive FailurePolicy where
  | halt | continuePossible | always
  deriving DecidableEq, Repr

end IceOS
