import IceOS.OrderedDict
import IceOS.PythonRegex
import IceOS.PythonText
import Mathlib.Data.List.Dedup

/-! Plans that are read back as tasks. The expression for a step ends with its line, and the dependencies stand on the
next: no task depends on another, except by a description that speaks of dependencies itself. -/
namespace IceOS.TaskDecomposer

open PythonRegex PythonText

/-- What Unicode says of characters: the letters, digits and underscores of `\w`, and lower case. -/
structure Unicode where
  isWord : Char → Bool
  lower : String → String
  bracket : isWord ']' = false

def isDecimal (c : Char) : Bool := (digit? c).isSome

def notNewline (c : Char) : Bool := c ≠ '\n'

def dependsOn : List Char := "DEPENDS ON:".toList

def dependsGroup : Regex :=
  .ofList [.literal ignoreCase dependsOn,.many isSpace false,.group 4 (.atLeastOne notNewline true)]

/-- `STEP\s+(\d+):\s*\[(\w+)\]\s*(.+?)(?:DEPENDS ON:\s*(.+?))?$` -/
def stepPattern (u : Unicode) : Regex :=
  .ofList [.literal ignoreCase "STEP".toList,.atLeastOne isSpace false,.group 1 (.atLeastOne isDecimal false),.one (· = ':'),
    .many isSpace false,.one (· = '['),.group 2 (.atLeastOne u.isWord false),.one (· = ']'),.many isSpace false,
    .group 3 (.atLeastOne notNewline true),.optional dependsGroup,.lineEnd]

structure StepInfo where
  step : Int
  type : String
  description : String
  dependencySteps : List Int

inductive ConfigValue where
  | text (s : String)
  | number (i : Int)
  deriving DecidableEq, Repr

structure Task where
  id : String
  type : String
  description : String
  config : List (String × ConfigValue)
  dependencies : List String

/-! ### The decomposer -/

def stopWords : List String := ["the","a","an","and","or","but","in","on","at","to","for"]

def generateNodeId (u : Unicode) (description : String) (stepNum : Int) : String :=
  let words := findAll (.atLeastOne u.isWord false) (u.lower description)
  let keyWords := (words.filter (· ∉ stopWords)).take 3
  let base := if keyWords = [] then "step_" ++ toString stepNum else "_".intercalate keyWords
  let plain (c : Char) : Bool := ('a' ≤ c ∧ c ≤ 'z') ∨ ('0' ≤ c ∧ c ≤ '9') ∨ c = '_'
  String.ofList (base.toList.map fun c => if plain c then c else '_') ++ "_" ++ toString stepNum

def toolVerbs : List String := ["read","write","process","analyze","generate","create","send","fetch"]

/-- `"([^"]+)"` -/
def quotedPattern : Regex := .ofList [.one (· = '"'),.group 1 (.atLeastOne (· ≠ '"') false),.one (· = '"')]

/-- `until\s+(.+)` -/
def untilPattern : Regex :=
  .ofList [.literal ignoreCase "until".toList,.atLeastOne isSpace false,.group 1 (.atLeastOne notNewline false)]

/-- `(\d+)\s*(?:times|iterations)` -/
def maxPattern : Regex :=
  let word (text : String) : Regex := .literal (fun c d => c = d) text.toList
  .ofList [.group 1 (.atLeastOne isDecimal false),.many isSpace false,.either (word "times") (word "iterations")]

/-- The first group of the first match. -/
def firstGroup (r : Regex) (text : String) : Option String := (r.findIter 0 text.toList).head?.bind (textOf · 1)

def toolName (u : Unicode) (description : String) : List (String × ConfigValue) :=
  let lower := u.lower description
  if contains "csv" lower then [("tool_name",.text "csv_reader")]
  else if contains "api" lower then [("tool_name",.text "api_caller")]
  else if contains "email" lower then [("tool_name",.text "email_sender")]
  else
    -- between word boundaries stand whole words
    let verbs := (findAll (.atLeastOne u.isWord false) lower).filter (· ∈ toolVerbs)
    (verbs.head?.map fun verb => ("tool_name",ConfigValue.text verb)).toList

def modelHint (u : Unicode) (description : String) : List (String × ConfigValue) :=
  let lower := u.lower description
  if contains "gpt" lower then [("model",.text "gpt-4o-mini"),("provider",.text "openai")]
  else if contains "claude" lower then [("model",.text "claude-3-haiku-20240307"),("provider",.text "anthropic")]
  else if contains "deepseek" lower then [("model",.text "deepseek-r1"),("provider",.text "deepseek")]
  else []

/-- `none` where a number has more digits than `int` reads. -/
def extractConfig (u : Unicode) (nodeType description : String) : Option (List (String × ConfigValue)) :=
  match nodeType with
  | "llm" =>
    some (((firstGroup quotedPattern description).map fun text => ("prompt",ConfigValue.text text)).toList ++
      modelHint u description)
  | "human" => some ((firstGroup quotedPattern description).map fun text => ("prompt",ConfigValue.text text)).toList
  | "tool" => some (toolName u description)
  | "loop" =>
    let condition := ((firstGroup untilPattern description).map fun text =>
      ("exit_condition",ConfigValue.text (strip text))).toList
    match firstGroup maxPattern description with
    | none => some condition
    | some text => (int? text).map fun most => condition ++ [("max_iterations",.number most)]
  | _ => some []

/-- `none` where a number has more digits than `int` reads. -/
def dependencySteps (u : Unicode) (depsStr : Option String) : Option (List Int) :=
  match depsStr with
  | none => some []
  | some deps =>
    if u.lower (strip deps) = "none" then some []
    else (findAll (.atLeastOne isDecimal false) deps).mapM int?

def stepInfo (u : Unicode) (found : Captures) : Option StepInfo := do
  let step ← int? ((textOf found 1).getD "")
  let dependencySteps ← dependencySteps u (textOf found 4)
  some { step,type := u.lower ((textOf found 2).getD ""),description := strip ((textOf found 3).getD ""),dependencySteps }

def taskOf (u : Unicode) (stepMap : OrderedDict Int StepInfo) (info : StepInfo) : Option Task := do
  let config ← extractConfig u info.type info.description
  some {
    id := generateNodeId u info.description info.step
    type := info.type
    description := info.description
    config
    dependencies := info.dependencySteps.filterMap fun dep =>
      (stepMap.get? dep).map fun other => generateNodeId u other.description dep }

/-- The tasks in the order of their steps; `none` is a `ValueError`. -/
def decompose (u : Unicode) (plan : String) : Option (List Task) := do
  let infos ← ((stepPattern u).findIter 0 plan.toList).mapM (stepInfo u)
  let stepMap : OrderedDict Int StepInfo := .ofList (infos.map fun info => (info.step,info))
  ((stepMap.keys.mergeSort (· ≤ ·)).filterMap stepMap.get?).mapM (taskOf u stepMap)

/-! ### Plans in the prescribed format -/

/-- A step of a plan: a line for it, one for its dependencies, and blank lines before them. -/
structure PlannedStep where
  number : Nat
  type : List Char
  description : List Char
  dependencies : List Nat
  before : Nat := 0
  blanks : Nat := 1

def digits (n : Nat) : List Char := Nat.toDigits 10 n

/-- `none`, or the numbers with commas between them. -/
def listing (s : PlannedStep) : List Char :=
  if s.dependencies = [] then "none".toList
  else (',' :: List.replicate s.blanks ' ').intercalate (s.dependencies.map digits)

def dependsLine (s : PlannedStep) : List Char := dependsOn ++ ' ' :: listing s

def stepText (s : PlannedStep) : List Char :=
  "STEP ".toList ++ digits s.number ++ ": [".toList ++ s.type ++ "] ".toList ++ s.description ++ '\n' :: dependsLine s

def planText (steps : List PlannedStep) (after : Nat) : List Char :=
  ['\n'].intercalate (steps.map fun s => List.replicate s.before '\n' ++ stepText s) ++ List.replicate after '\n'

/-- A word in brackets, and a text on one line without blanks around it. -/
structure PlannedStep.WellFormed (u : Unicode) (s : PlannedStep) : Prop where
  typed : s.type ≠ []
  word : ∀ c ∈ s.type, u.isWord c = true
  described : s.description ≠ []
  line : ∀ c ∈ s.description, notNewline c = true
  stripped : stripChars s.description = s.description

structure WellFormed (u : Unicode) (steps : List PlannedStep) : Prop where
  each : ∀ s ∈ steps, s.WellFormed u
  distinct : (steps.map (·.number)).Nodup
  listed : ∀ s ∈ steps, ∀ dep ∈ s.dependencies, dep ∈ steps.map (·.number)

end IceOS.TaskDecomposer
