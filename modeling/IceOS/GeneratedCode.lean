import IceOS.OrderedDict
import IceOS.PythonJson
import IceOS.PythonText

/-! The code that a model generates for the nodes of a blueprint. The lines behind a section's first line are collected
until the next section, and never dropped: the closing fence belongs to every section's code, and so does all code
before it. -/
namespace IceOS

variable {φ : Type}

/-- A node of the decomposed plan. -/
structure NodeData (φ : Type) where
  id : String
  type : String
  description : Option String := none
  config : OrderedDict String (Json φ) := .empty
  dependencies : List String := []

def NodeData.needsCode (node : NodeData φ) : Bool :=
  (node.type = "code" ∨ node.type = "tool") ∧ "code" ∉ node.config.keys

/-! ### Reading the response -/

structure CodeSections where
  implementations : OrderedDict String String := .empty
  currentNode : Option String := none
  currentCode : List String := []

namespace CodeSections

/-- `None` and the empty text are falsy. -/
def open? (p : CodeSections) : Option String := p.currentNode.filter (· ≠ "")

def flush (p : CodeSections) : CodeSections :=
  match p.open? with
  | some node =>
    if p.currentCode = [] then p
    else { p with
      implementations := p.implementations.set node (PythonText.strip ("\n".intercalate p.currentCode)) }
  | none => p

/-- `line.startswith("# Node:")` -/
def Opens (line : String) : Prop := "# Node:".toList <+: line.toList

instance : DecidablePred Opens := fun line => inferInstanceAs (Decidable ("# Node:".toList <+: line.toList))

/-- What stands behind the last colon. -/
def nodeOf (line : String) : String := PythonText.strip ((PythonText.split ":" line).getLast?.getD "")

def read (p : CodeSections) (line : String) : CodeSections :=
  if Opens line then { p.flush with currentNode := some (nodeOf line) }
  else if p.open?.isSome then { p with currentCode := p.currentCode ++ [line] }
  else p

end CodeSections

def parseCode (response : String) : OrderedDict String String :=
  ((PythonText.split "\n" response).foldl CodeSections.read {}).flush.implementations

/-- `response` is the model's answer to the prompt with the nodes that need code. -/
def generateCode (response : List (NodeData φ) → String) (nodesData : List (NodeData φ)) : OrderedDict String String :=
  let codeNodes := nodesData.filter (·.needsCode)
  if codeNodes = [] then .empty else parseCode (response codeNodes)

/-! ### The blueprint -/

structure AssembledNode (φ : Type) where
  type : String
  fields : OrderedDict String (Json φ)
  dependencies : List String

def nodeTypePatterns : List String :=
  ["llm","agent","tool","parallel","swarm","human","loop","recursive","code","condition","workflow","monitor"]

/-- `llmConfig` is the configuration with the temperature 0.7. -/
def nodeFields (llmConfig : Json φ) (codeImplementations : OrderedDict String String) (nodeType : String)
    (node : NodeData φ) : List (String × Json φ) :=
  let config (key : String) (default : Json φ) := (node.config.get? key).getD default
  match nodeType with
  | "llm" =>
    [("prompt",config "prompt" (.str (node.description.getD "Process input"))),
      ("model",config "model" (.str "gpt-4o-mini")),("provider",.str "openai"),("llm_config",llmConfig)]
  | "agent" =>
    [("package",config "package" (.str "ice_tools.base_agent")),("agent_config",config "agent_config" (.dict [])),
      ("tools",config "tools" (.list []))]
  | "tool" => [("tool_name",config "tool_name" (.str "hello")),("tool_args",config "tool_args" (.dict []))]
  | "code" =>
    [("language",.str "python"),
      ("code",((codeImplementations.get? node.id).map Json.str).getD (config "code" (.str "")))]
  | "human" =>
    [("prompt_message",config "prompt" (.str "Please review and approve")),
      ("approval_type",config "approval_type" (.str "approve_reject"))]
  | _ => node.config.items

/-- A node of an unknown type becomes a language model's. -/
def assembleNode (llmConfig : Json φ) (codeImplementations : OrderedDict String String) (node : NodeData φ) :
    AssembledNode φ :=
  let nodeType := if node.type ∈ nodeTypePatterns then node.type else "llm"
  { type := nodeType
    fields := .ofList (("id",.str node.id) :: nodeFields llmConfig codeImplementations nodeType node)
    dependencies := node.dependencies }

/-- The nodes of the blueprint, which is validated as a whole afterwards. -/
def assembleBlueprint (llmConfig : Json φ) (nodesData : List (NodeData φ)) (codeImplementations : OrderedDict String String) :
    List (AssembledNode φ) :=
  nodesData.map (assembleNode llmConfig codeImplementations)

/-! ### Responses in the prescribed format -/

open CodeSections

/-- The lines of a response with a section for each pair, among text that opens none. -/
inductive Sections : List (String × String) → List String → Prop where
  | text {before : List String} (plain : ∀ line ∈ before, ¬Opens line) : Sections [] before
  | code {before code lines : List String} {pairs : List (String × String)} {nodeId : String}
      (plain : ∀ line ∈ before, ¬Opens line) (own : ∀ line ∈ code, ¬Opens line) (rest : Sections pairs lines) :
      Sections ((nodeId,"\n".intercalate code) :: pairs)
        (before ++ "```python" :: ("# Node: " ++ nodeId) :: code ++ "```" :: lines)

/-- The response lists the pairs. -/
def Lists (response : String) (pairs : List (String × String)) : Prop := Sections pairs (PythonText.split "\n" response)

/-- The pairs are what is extracted, and the code is in the nodes. -/
structure Delivered (llmConfig : Json φ) (response : List (NodeData φ) → String) (nodesData : List (NodeData φ))
    (pairs : List (String × String)) : Prop where
  extracted : ∀ nodeId code, (generateCode response nodesData).get? nodeId = some code ↔ (nodeId,code) ∈ pairs
  carried : ∀ nodeId code, (nodeId,code) ∈ pairs →
    ∃ node ∈ assembleBlueprint llmConfig nodesData (generateCode response nodesData),
      node.fields.get? "id" = some (.str nodeId) ∧ node.fields.get? "code" = some (.str code)

/-! ### What is extracted -/

section parsing

variable {p : CodeSections}

/-- Before a section there is nothing to collect. -/
theorem read_plain {lines : List String} (closed : p.open? = none) (plain : ∀ line ∈ lines, ¬Opens line) :
    lines.foldl CodeSections.read p = p := by
  induction lines with
  | nil => rfl
  | cons line rest ih =>
    have ⟨here,later⟩ := List.forall_mem_cons.mp plain
    rw [List.foldl_cons,CodeSections.read,if_neg here,closed]
    exact ih later

theorem read_section {lines : List String} (opened : p.open?.isSome = true) (own : ∀ line ∈ lines, ¬Opens line) :
    lines.foldl CodeSections.read p = { p with currentCode := p.currentCode ++ lines } := by
  induction lines generalizing p with
  | nil => simp
  | cons line rest ih =>
    have ⟨here,later⟩ := List.forall_mem_cons.mp own
    rw [List.foldl_cons,CodeSections.read,if_neg here,if_pos opened,ih (by exact opened) later]
    simp

/-- All that is filed, and what is collected, begins with the lines. -/
structure Begins (start : List String) (p : CodeSections) : Prop where
  collected : start <+: p.currentCode
  filed : ∀ nodeId value, p.implementations.get? nodeId = some value →
    ∃ lines, start <+: lines ∧ value = PythonText.strip ("\n".intercalate lines)

theorem Begins.flush {start : List String} (begins : Begins start p) : Begins start p.flush := by
  unfold CodeSections.flush
  split
  · split
    · exact begins
    · exact ⟨begins.collected,OrderedDict.forall_set ⟨_,begins.collected,rfl⟩ begins.filed⟩
  · exact begins

theorem Begins.read {start : List String} (begins : Begins start p) (line : String) : Begins start (p.read line) := by
  unfold CodeSections.read
  split
  · exact ⟨begins.flush.collected,begins.flush.filed⟩
  · split
    · exact ⟨begins.collected.trans (List.prefix_append _ _),begins.filed⟩
    · exact begins

theorem begins_lines {start : List String} (begins : Begins start p) (lines : List String) :
    Begins start (lines.foldl CodeSections.read p) := by
  induction lines generalizing p with
  | nil => exact begins
  | cons line rest ih => exact ih (begins.read line)

/-- Nodes are named by what is read of a line: they are not empty, stripped, and have no colon. -/
structure Named (p : CodeSections) : Prop where
  current : ∀ nodeId ∈ p.currentNode, ¬[':'] <:+: nodeId.toList ∧ PythonText.strip nodeId = nodeId
  filed : ∀ nodeId value, p.implementations.get? nodeId = some value →
    nodeId ≠ "" ∧ ¬[':'] <:+: nodeId.toList ∧ PythonText.strip nodeId = nodeId

theorem Named.flush (named : Named p) : Named p.flush := by
  unfold CodeSections.flush
  split
  · next node opened =>
    obtain ⟨current,some⟩ := Option.filter_eq_some_iff.mp opened
    split
    · exact named
    · exact ⟨named.current,OrderedDict.forall_set ⟨by simpa using some,named.current node current⟩ named.filed⟩
  · exact named

theorem nodeOf_named (line : String) : ¬[':'] <:+: (nodeOf line).toList ∧ PythonText.strip (nodeOf line) = nodeOf line := by
  refine ⟨fun colon => ?_,PythonText.strip_strip _⟩
  obtain ⟨last,found⟩ := Option.isSome_iff_exists.mp
    (List.getLast?_isSome.mpr (PythonText.cut_ne_nil ":".toList 0 line.toList))
  have clear := PythonText.cut_pieces_clear (by decide) 0 line.toList last (List.mem_of_getLast? found)
  rw [nodeOf,PythonText.split,List.getLast?_map,found,Option.map_some,Option.getD_some,PythonText.strip,
    String.toList_ofList,String.toList_ofList] at colon
  exact clear (colon.trans (PythonText.stripChars_inside last))

theorem Named.read (named : Named p) (line : String) : Named (p.read line) := by
  unfold CodeSections.read
  split
  · refine ⟨fun nodeId here => ?_,named.flush.filed⟩
    rw [← Option.some.inj (Option.mem_def.mp here)]
    exact nodeOf_named line
  · split
    · exact ⟨named.current,named.filed⟩
    · exact named

theorem named_lines (named : Named p) (lines : List String) : Named (lines.foldl CodeSections.read p) := by
  induction lines generalizing p with
  | nil => exact named
  | cons line rest ih => exact ih (named.read line)

end parsing

/-- An id that could be read of a line is read of its own header. -/
theorem nodeOf_header {nodeId : String} (clear : ¬[':'] <:+: nodeId.toList) (stripped : PythonText.strip nodeId = nodeId) :
    nodeOf ("# Node: " ++ nodeId) = nodeId := by
  have apart : ¬[':'] <:+: ' ' :: nodeId.toList := by
    rw [List.infix_cons_iff]
    rintro (starts | inside)
    · exact absurd (List.cons_prefix_cons.mp starts).1 (by decide)
    · exact clear inside
  have before : PythonText.StartsAfter [':'] "# Node".toList (':' :: ' ' :: nodeId.toList) :=
    PythonText.startsAfter_char (by decide) _
  have pieces : PythonText.cut [':'] 0 ("# Node: " ++ nodeId).toList = ["# Node".toList,' ' :: nodeId.toList] := by
    have found : PythonText.cut [':'] 0 (':' :: ' ' :: nodeId.toList) = [] :: PythonText.cut [':'] 0 (' ' :: nodeId.toList) :=
      PythonText.cut_found [':'] _ (by decide)
    have whole := PythonText.cut_prepend [':'] "# Node".toList (':' :: ' ' :: nodeId.toList) before
    rw [found,PythonText.cut_clear apart] at whole
    simpa using whole
  calc nodeOf ("# Node: " ++ nodeId) = PythonText.strip (String.ofList (' ' :: nodeId.toList)) := by
        rw [nodeOf,PythonText.split,show ":".toList = [':'] from rfl,pieces]
        rfl
    _ = PythonText.strip (" " ++ nodeId) := by
        rw [← String.ofList_toList (s := " " ++ nodeId),String.toList_append]
        rfl
    _ = nodeId := (PythonText.strip_space_append nodeId).trans stripped

theorem count_strip (text : String) : (PythonText.strip text).toList.count '\x60' = text.toList.count '\x60' := by
  rw [PythonText.strip,String.toList_ofList,PythonText.count_stripChars (by decide)]

theorem count_intercalate (lines : List String) :
    ("\n".intercalate lines).toList.count '\x60' = (lines.map (·.toList.count '\x60')).sum := by
  rw [String.toList_intercalate]
  have newline : "\n".toList.count '\x60' = 0 := by decide
  induction lines with
  | nil => rfl
  | cons line rest ih =>
    cases rest with
    | nil => simp
    | cons second rest =>
      rw [List.map_cons,List.map_cons,List.intercalate_cons_cons,List.count_append,List.count_append,newline,← List.map_cons,ih]
      simp

/-- The code with the fence behind it has more backquotes. -/
theorem fenced_ne {code lines : List String} (fenced : code ++ ["```"] <+: lines) :
    PythonText.strip ("\n".intercalate lines) ≠ "\n".intercalate code := by
  obtain ⟨more,rfl⟩ := fenced
  intro same
  have counts := congrArg (fun text : String => text.toList.count '\x60') same
  have fence : "```".toList.count '\x60' = 3 := by decide
  simp only [count_strip,count_intercalate,List.map_append,List.sum_append,List.map_cons,List.sum_cons,fence] at counts
  omega

theorem opens_header (nodeId : String) : Opens ("# Node: " ++ nodeId) := by
  rw [Opens,String.toList_append]
  exact (show "# Node:".toList <+: "# Node: ".toList by decide).trans (List.prefix_append _ _)

theorem not_opens_fence (tag : String) : ¬Opens ("```" ++ tag) := by
  rw [Opens,String.toList_append]
  intro opens
  exact absurd (List.cons_prefix_cons.mp opens).1 (by decide)

/-- Up to the first section nothing is read. -/
theorem read_first {before : List String} (nodeId : String) (plain : ∀ line ∈ before, ¬Opens line) (more : List String) :
    (before ++ "```python" :: ("# Node: " ++ nodeId) :: more).foldl CodeSections.read {} =
      more.foldl CodeSections.read { currentNode := some (nodeOf ("# Node: " ++ nodeId)) } := by
  have fence : CodeSections.read {} "```python" = {} := if_neg (not_opens_fence "python")
  have header : CodeSections.read {} ("# Node: " ++ nodeId) = { currentNode := some (nodeOf ("# Node: " ++ nodeId)) } :=
    if_pos (opens_header nodeId)
  rw [List.foldl_append,read_plain rfl plain,List.foldl_cons,fence,List.foldl_cons,header]

/-- The first section's code is not extracted as it was listed. -/
theorem first_lost {before code lines : List String} {nodeId : String} (plain : ∀ line ∈ before, ¬Opens line)
    (own : ∀ line ∈ code, ¬Opens line) :
    ((before ++ "```python" :: ("# Node: " ++ nodeId) :: code ++ "```" :: lines).foldl
      CodeSections.read {}).flush.implementations.get? nodeId ≠ some ("\n".intercalate code) := by
  have parts : before ++ "```python" :: ("# Node: " ++ nodeId) :: code ++ "```" :: lines =
      before ++ "```python" :: ("# Node: " ++ nodeId) :: (code ++ ["```"] ++ lines) := by simp
  rw [parts,read_first nodeId plain]
  intro found
  by_cases nameless : nodeOf ("# Node: " ++ nodeId) = ""
  · -- a node without a name is none, and then the id is not one that could be read
    have start : Named { currentNode := some (nodeOf ("# Node: " ++ nodeId)) } := by
      refine ⟨fun node here => ?_,fun node value none => by cases none⟩
      rw [← Option.some.inj (Option.mem_def.mp here)]
      exact nodeOf_named _
    obtain ⟨some,clear,stripped⟩ := (named_lines start _).flush.filed nodeId _ found
    exact some ((nodeOf_header clear stripped).symm.trans nameless)
  · have opened : (open? { currentNode := some (nodeOf ("# Node: " ++ nodeId)) }).isSome = true := by
      simp [open?,nameless]
    have fenced : ∀ line ∈ code ++ ["```"], ¬Opens line :=
      List.forall_mem_append.mpr ⟨own,List.forall_mem_singleton.mpr (not_opens_fence "")⟩
    rw [List.foldl_append,read_section opened fenced,List.nil_append] at found
    have start : Begins (code ++ ["```"]) ⟨.empty,some (nodeOf ("# Node: " ++ nodeId)),code ++ ["```"]⟩ :=
      ⟨List.prefix_rfl,fun node value none => by cases none⟩
    obtain ⟨all,begins,value⟩ := (begins_lines start lines).flush.filed nodeId _ found
    exact fenced_ne begins value.symm

/-! ### What is delivered -/

/-- Only a response without sections is read as it stands. -/
theorem delivered_iff {llmConfig : Json φ} {response : List (NodeData φ) → String} {nodesData : List (NodeData φ)}
    {pairs : List (String × String)} (listed : Lists (response (nodesData.filter (·.needsCode))) pairs) :
    Delivered llmConfig response nodesData pairs ↔ pairs = [] := by
  constructor
  · intro delivered
    unfold Lists at listed
    generalize lined : PythonText.split "\n" (response (nodesData.filter (·.needsCode))) = lines at listed
    cases listed with
    | text plain => rfl
    | @code before code lines pairs nodeId plain own rest =>
      have found := (delivered.extracted nodeId _).mpr List.mem_cons_self
      simp only [generateCode] at found
      split at found
      · cases found
      · rw [parseCode,lined] at found
        exact absurd found (first_lost plain own)
  · rintro rfl
    have empty : generateCode response nodesData = .empty := by
      simp only [generateCode]
      split
      · rfl
      · unfold Lists at listed
        cases listed with
        | text plain =>
          rw [parseCode,read_plain rfl plain]
          rfl
    refine ⟨fun nodeId code => ?_,fun nodeId code none => by cases none⟩
    rw [empty]
    simp

/-- One node, and the response that lists its code. -/
def calculator : NodeData Unit := { id := "calc",type := "code" }

def calculatorResponse : String := "```python\n# Node: calc\ndef run(x):\n    return x\n```"

theorem calculator_keeps_fence :
    Lists calculatorResponse [("calc","def run(x):\n    return x")] ∧
      (generateCode (fun _ => calculatorResponse) [calculator]).get? "calc" = some "def run(x):\n    return x\n```" ∧
        ¬Delivered .null (fun _ => calculatorResponse) [calculator] [("calc","def run(x):\n    return x")] := by
  have extracted : (generateCode (fun _ => calculatorResponse) [calculator]).get? "calc" =
      some "def run(x):\n    return x\n```" := by decide +kernel
  refine ⟨?_,extracted,fun delivered => ?_⟩
  · have lines : PythonText.split "\n" calculatorResponse =
        [] ++ "```python" :: ("# Node: " ++ "calc") :: ["def run(x):","    return x"] ++ "```" :: [] := by decide +kernel
    have joined : "\n".intercalate ["def run(x):","    return x"] = "def run(x):\n    return x" := by decide +kernel
    rw [Lists,lines,← joined]
    have own : ∀ line ∈ ["def run(x):","    return x"], ¬Opens line := by decide
    exact .code (fun line none => by cases none) own (.text fun line none => by cases none)
  · have found := (delivered.extracted "calc" _).mpr List.mem_cons_self
    exact absurd (found.symm.trans extracted) (by decide)

/-- Without sections nothing is extracted, and nothing is missing. -/
theorem calculator_without_sections : Delivered .null (fun _ => "Nothing to do.") [calculator] [] :=
  (delivered_iff (.text (by decide +kernel))).mpr rfl

end IceOS
