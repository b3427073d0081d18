import IceOS.AgentRuntime
import IceOS.PythonJson

/-! The agent behind an agent node with a definition: a model is asked for each action, and what it answers is brought into
the shape that the loop of the runtime expects. -/
namespace IceOS.LlmAgent

open AgentRuntime PythonJson
open McpToolCalls (Entries dict? dict?_items)

variable {σ φ : Type}

mutual

/-- What `json.loads` makes of a text, as a value; `nonzero` is how a float counts in a test. -/
def ofJson (nonzero : φ → Bool) : Json φ → Value
  | .null => .none
  | .bool b => .bool b
  | .int i => .int i
  | .float x => .other "float" (nonzero x)
  | .str text => .str text
  | .list items => .list (ofItems nonzero items)
  | .dict entries => .dict (ofEntries nonzero entries)

def ofItems (nonzero : φ → Bool) : List (Json φ) → List Value
  | [] => []
  | v :: rest => ofJson nonzero v :: ofItems nonzero rest

def ofEntries (nonzero : φ → Bool) : List (String × Json φ) → List (String × Value)
  | [] => []
  | (key,v) :: rest => (key,ofJson nonzero v) :: ofEntries nonzero rest

end

/-- What `generate` returns without the usage: a text and an error, either of which may be missing. -/
structure Generated where
  text : Option String
  error : Option String

/-- The model, by its helper in the registry or by `LLMService`; how floats read and count; the tools as the registry
resolves them; and how values print, as JSON if they are JSON values, and refuse items. -/
structure LlmRules (σ φ : Type) where
  generate : σ → String → Entries → Called σ Generated
  floats : FloatTexts φ
  nonzero : φ → Bool
  dumps : Value → Option String
  tool : σ → String → Option (Entries → Entries → Called σ Value)
  missing : String → Exn
  str : Value → String
  noItems : Value → Exn

structure AgentDefinition where
  tools : List String := []
  systemPrompt : Option String := none

/-- `system_prompt or "You are a helpful agent."` -/
def AgentDefinition.prompt (d : AgentDefinition) : String :=
  match d.systemPrompt with
  | none | some "" => "You are a helpful agent."
  | some text => text

section

variable (r : LlmRules σ φ) (d : AgentDefinition)

/-- An item of the context under `agent`, where that is a dictionary. -/
def agentItem (context : Entries) (key : String) : Value :=
  (((context.get? "agent").bind dict?).bind (·.get? key)).getD .none

/-- The last result as JSON, cut after 800 characters. -/
def lastResultJson (context : Entries) : String :=
  match agentItem context "last_result" with
  | .none => "\x7b\x7d"
  | v => ((r.dumps v).map fun text => String.ofList (text.toList.take 800)).getD "\x7b\x7d"

def toolsJson : String := (r.dumps (.list (d.tools.map .str))).getD ""

def renderThink (context : Entries) : String :=
  d.prompt ++ "\n\nContext: last_tool=" ++ r.str (agentItem context "last_tool") ++ "\nlast_result=" ++
    lastResultJson r context ++ "\nAllowed tools: " ++ toolsJson r d ++ "\nBriefly state your next step."

def renderDecide (context : Entries) : String :=
  d.prompt ++ "\n\nYou must return a strictly valid JSON object with keys: " ++
    "tool (string or null), inputs (object), done (boolean), message (string).\n" ++
    "Allowed tools (choose only from this list): " ++ toolsJson r d ++ "\nContext: last_tool=" ++
    r.str (agentItem context "last_tool") ++ "\nlast_result=" ++ lastResultJson r context ++
    "\nIf a tool is needed, set done=false and choose a tool with minimal inputs from context.\n" ++
    "If no further action is needed, set tool=null and done=true.\nJSON:"

def guidance : String :=
  "If 'writer_tool' is allowed, prefer it and set inputs to " ++
    "\x7b'notes': last_result.get('summary') or last_result or '' , 'style':'concise'\x7d when appropriate."

/-- `think`: the text, or the error where there is none. -/
def think (world : σ) (context : Entries) : Called σ Value :=
  let called := r.generate world (renderThink r d context) context
  ⟨called.result.map fun g => .str (if g.text.getD "" ≠ "" then g.text.getD "" else g.error.getD ""),
    called.context,called.world⟩

/-- A text that is no JSON object counts as an empty one. -/
def parsed (text : Option String) : Entries :=
  match text with
  | none | some "" => .empty
  | some text => (((loads r.floats text).map (ofJson r.nonzero)).bind dict?).getD .empty

def proposed (text : Option String) : Entries :=
  if (parsed r text).items = [] then
    .ofList [("tool",.none),("inputs",.dict []),("done",.bool true),("message",.str (text.getD ""))]
  else parsed r text

/-- A tool that is not allowed is dropped, and nothing more is to be done. -/
def restrict (action : Entries) : Entries :=
  match action.get? "tool" with
  | none | some .none => action
  | some tool =>
    if d.tools ≠ [] ∧ r.str tool ∉ d.tools then (action.set "tool" .none).set "done" (.bool true) else action

def withInputs (action : Entries) : Entries :=
  match action.get? "inputs" with
  | some (.dict _) => action
  | _ => action.set "inputs" (.dict [])

def normalize (action : Entries) : Entries :=
  let action := withInputs (restrict r d action)
  (action.setDefault "done" (.bool ((action.get? "tool").getD .none).isNone)).setDefault "message" (.str "")

/-- `decide` -/
def decide (world : σ) (context : Entries) : Called σ Value :=
  let called := r.generate world (renderDecide r d context ++ "\n" ++ guidance) context
  ⟨called.result.map fun g => .dict (normalize r d (proposed r g.text)).items,called.context,called.world⟩

/-- The agent as the runtime sees it. -/
def agent : Agent σ where
  allowedTools := .ok d.tools
  decide := some (decide r d)
  think := think r d
  observe := none
  tool := r.tool
  missing := r.missing
  str := r.str
  noItems := r.noItems

end

structure AgentNodeConfig where
  package : String
  maxIterations : Int := 5

/-- The definitions of the registry, and the agents that it imports where there is none. -/
structure AgentRegistry (σ : Type) where
  definition : String → Option AgentDefinition
  instance? : String → Except Exn (Agent σ)

def AgentRegistry.resolve (registry : AgentRegistry σ) (r : LlmRules σ φ) (package : String) : Except Exn (Agent σ) :=
  match registry.definition package with
  | some d => .ok (agent r d)
  | none => registry.instance? package

/-- What the node makes of the output of a run. -/
def executed (package : String) : Except Exn Entries → NodeExecutionResult
  | .ok output =>
    { output := .dict ((output.set "agent_package" (.str package)).set "agent_executed" (.bool true)).items }
  | .error e => { success := false,error := some e.text,output := .dict [] }

/-- `agent_node_executor`: the result, and the state in which the run has ended, if one has begun. -/
def agentNodeExecutor (registry : AgentRegistry σ) (r : LlmRules σ φ) (cfg : AgentNodeConfig) (context : Entries)
    (world : σ) : NodeExecutionResult × Option (LoopState σ) :=
  match registry.resolve r cfg.package with
  | .error e => ({ success := false,error := some e.text,output := .dict [] },none)
  | .ok a =>
    let ended := a.run context world cfg.maxIterations
    (executed cfg.package ended.result,some ended.last)

/-! ### What the runtime is given -/

variable {r : LlmRules σ φ} {d : AgentDefinition}

/-- An action that passes the checks of the runtime. -/
structure Fitting (r : LlmRules σ φ) (d : AgentDefinition) (action : Entries) : Prop where
  inputs : ∃ entries, action.get? "inputs" = some (.dict entries)
  tool : (Agent.field (some action) "tool").truthy = true → d.tools ≠ [] → r.str (Agent.field (some action) "tool") ∈ d.tools

theorem field_set (action : Entries) {key : String} (other : key ≠ "tool") (v : Value) :
    Agent.field (some (action.set key v)) "tool" = Agent.field (some action) "tool" := by
  simp only [Agent.field,Option.bind_some]
  rw [OrderedDict.get?_set_other action v other]

theorem Fitting.setDefault {action : Entries} (fits : Fitting r d action) {key : String} (inputs : key ≠ "inputs")
    (tool : key ≠ "tool") (v : Value) : Fitting r d (action.setDefault key v) := by
  simp only [OrderedDict.setDefault]
  split
  · exact fits
  · refine ⟨?_,?_⟩
    · rw [OrderedDict.get?_set_other action v inputs]
      exact fits.inputs
    · rw [field_set action tool]
      exact fits.tool

theorem restrict_tool (action : Entries) (picked : (Agent.field (some (restrict r d action)) "tool").truthy = true)
    (listed : d.tools ≠ []) : r.str (Agent.field (some (restrict r d action)) "tool") ∈ d.tools := by
  have barred : Agent.field (some ((action.set "tool" .none).set "done" (.bool true))) "tool" = .none := by
    rw [field_set _ (by decide)]
    simp only [Agent.field,Option.bind_some,OrderedDict.get?_set_same,Option.getD_some]
  have idle (found : Agent.field (some action) "tool" = .none) (picked : (Agent.field (some action) "tool").truthy = true) :
      r.str (Agent.field (some action) "tool") ∈ d.tools := by
    rw [found] at picked
    cases picked
  have read : Agent.field (some action) "tool" = (action.get? "tool").getD .none := rfl
  simp only [restrict] at picked ⊢
  split at picked <;> rename_i found
  · exact idle (by rw [read,found]; rfl) picked
  · exact idle (by rw [read,found]; rfl) picked
  · split at picked <;> rename_i outside
    · rw [barred] at picked
      cases picked
    · rw [if_neg outside,read,found]
      by_contra missing
      exact outside ⟨listed,missing⟩

theorem withInputs_fitting {action : Entries}
    (tool : (Agent.field (some action) "tool").truthy = true → d.tools ≠ [] →
      r.str (Agent.field (some action) "tool") ∈ d.tools) :
    Fitting r d (withInputs action) := by
  have made : Fitting r d (action.set "inputs" (.dict [])) := by
    refine ⟨⟨[],OrderedDict.get?_set_same ..⟩,?_⟩
    rw [field_set action (by decide)]
    exact tool
  simp only [withInputs]
  split
  · next entries found => exact ⟨⟨entries,found⟩,tool⟩
  · exact made

/-- Whatever the model says, the action that is made of it passes the checks. -/
theorem normalize_fitting (action : Entries) : Fitting r d (normalize r d action) := by
  have fits : Fitting r d (withInputs (restrict r d action)) := withInputs_fitting (restrict_tool action)
  exact (fits.setDefault (by decide) (by decide) _).setDefault (by decide) (by decide) _

/-! ### What a run can fail with -/

/-- What the call of a tool raises: there is no such tool, the tool raises it itself, or the result cannot be noted in what
the context has under `agent`. -/
inductive Raised (a : Agent σ) (name : String) : Exn → Prop
  | missing {world : σ} (unknown : a.tool world name = none) : Raised a name (a.missing name)
  | tool {world : σ} {execute : Entries → Entries → Called σ Value} {inputs context : Entries} {e : Exn}
      (found : a.tool world name = some execute) (raised : (execute inputs context).result = .error e) : Raised a name e
  | context {v : Value} (other : dict? v = none) : Raised a name (a.noItems v)

theorem recordResult_error {a : Agent σ} {context : Entries} {name : String} {result : Value} {e : Exn}
    (failed : a.recordResult context name result = .error e) : ∃ v, dict? v = none ∧ e = a.noItems v := by
  simp only [Agent.recordResult] at failed
  split at failed
  · next other =>
    cases failed
    exact ⟨_,other,rfl⟩
  · cases failed

/-- A call that the runtime lets through fails as its tool does. -/
theorem callTool_error {a : Agent σ} {s : LoopState σ} {action : Option Entries} {msg : Value} {e : Exn} {last : LoopState σ}
    (permitted : a.allowed ≠ [] → a.str (Agent.field action "tool") ∈ a.allowed) {inputs : Entries}
    (mapping : dict? (Agent.orElse (Agent.field action "inputs") (.dict [])) = some inputs)
    (failed : a.callTool s action msg = .finished ⟨.error e,last⟩) : Raised a (a.str (Agent.field action "tool")) e := by
  simp only [Agent.callTool] at failed
  rw [if_neg fun refused => refused.2 (permitted refused.1)] at failed
  simp only [mapping] at failed
  cases found : a.tool s.world (a.str (Agent.field action "tool")) with
  | none =>
    simp only [found] at failed
    cases failed
    exact .missing found
  | some execute =>
    simp only [found] at failed
    cases returned : (execute inputs s.context).result with
    | error raised =>
      simp only [returned] at failed
      cases failed
      exact .tool found returned
    | ok result =>
      simp only [returned] at failed
      split at failed
      · next recorded =>
        cases failed
        obtain ⟨v,other,rfl⟩ := recordResult_error recorded
        exact .context other
      · split at failed <;> cases failed

theorem act_error {a : Agent σ} {s : LoopState σ} {action : Option Entries} {e : Exn} {last : LoopState σ}
    (failed : a.act s action = .finished ⟨.error e,last⟩) : (Agent.field action "tool").truthy = true ∧
      ∃ t msg, a.callTool t action msg = .finished ⟨.error e,last⟩ := by
  simp only [Agent.act] at failed
  split at failed
  · cases failed
  · split at failed
    · next picked => exact ⟨picked,_,_,failed⟩
    · cases failed

/-- What a run of the agent may fail with: what the model raises, or a tool of the definition. -/
def Blamed (r : LlmRules σ φ) (d : AgentDefinition) (e : Exn) : Prop :=
  (∃ world prompt context, (r.generate world prompt context).result = .error e) ∨
    ∃ name, (d.tools ≠ [] → name ∈ d.tools) ∧ Raised (agent r d) name e

theorem Fitting.acts {action : Entries} (fits : Fitting r d action) {s : LoopState σ} {e : Exn} {last : LoopState σ}
    (failed : (agent r d).act s (some action) = .finished ⟨.error e,last⟩) : Blamed r d e := by
  obtain ⟨picked,t,msg,call⟩ := act_error failed
  obtain ⟨entries,inputs⟩ := fits.inputs
  have field : Agent.field (some action) "inputs" = .dict entries := by
    simp only [Agent.field,Option.bind_some,inputs,Option.getD_some]
  have mapping : ∃ inputs, dict? (Agent.orElse (Agent.field (some action) "inputs") (.dict [])) = some inputs := by
    rw [field,Agent.orElse]
    split <;> exact ⟨_,rfl⟩
  obtain ⟨inputs,mapping⟩ := mapping
  exact .inr ⟨_,fits.tool picked,callTool_error (fits.tool picked) mapping call⟩

/-- One round: the checks of the runtime on the action and on the tool never fail. -/
theorem turn_error {s : LoopState σ} {e : Exn} {last : LoopState σ}
    (failed : (agent r d).turn s = .finished ⟨.error e,last⟩) : Blamed r d e := by
  have decides : (agent r d).decide = some (decide r d) := rfl
  simp only [Agent.turn,decides] at failed
  cases answered : (r.generate s.world (renderDecide r d s.context ++ "\n" ++ guidance) s.context).result with
  | error raised =>
    have returned : (decide r d s.world s.context).result = .error raised := by
      simp only [decide,answered]
      rfl
    simp only [returned] at failed
    cases failed
    exact .inl ⟨_,_,_,answered⟩
  | ok g =>
    have fits : Fitting r d (normalize r d (proposed r g.text)) := normalize_fitting _
    have returned : (decide r d s.world s.context).result = .ok (.dict (normalize r d (proposed r g.text)).items) := by
      simp only [decide,answered]
      rfl
    have filled : (Value.dict (normalize r d (proposed r g.text)).items).truthy = true := by
      obtain ⟨entries,found⟩ := fits.inputs
      have member := (OrderedDict.get?_eq_some ..).mp found
      cases items : (normalize r d (proposed r g.text)).items with
      | nil =>
        rw [items] at member
        cases member
      | cons head rest => rfl
    simp only [returned,filled,if_true,McpToolCalls.asDict,dict?_items] at failed
    exact fits.acts failed

theorem loop_error {rounds : Nat} {s : LoopState σ} {e : Exn}
    (failed : ((agent r d).loop rounds s).result = .error e) : Blamed r d e := by
  induction rounds generalizing s with
  | zero => cases failed
  | succ rounds ih =>
    simp only [Agent.loop] at failed
    cases turned : (agent r d).turn s with
    | finished ended =>
      obtain ⟨result,last⟩ := ended
      simp only [turned] at failed
      subst failed
      exact turn_error turned
    | again t =>
      simp only [turned] at failed
      exact ih failed

/-- The node of a defined agent. Its run calls no tool but those of the definition, if that lists any, and one a round at
most. Whatever the model answers, the run fails only with what the model or such a tool raises, and the node reports that. -/
theorem defined_agent_runs (registry : AgentRegistry σ) (r : LlmRules σ φ) (cfg : AgentNodeConfig) (context : Entries)
    (world : σ) {d : AgentDefinition} (defined : registry.definition cfg.package = some d) :
    ∃ last, (agentNodeExecutor registry r cfg context world).2 = some last ∧
      (d.tools ≠ [] → ∀ tool ∈ last.executed, tool ∈ d.tools) ∧ (last.executed.length : Int) ≤ max 1 cfg.maxIterations ∧
      ((∃ output, (agentNodeExecutor registry r cfg context world).1 = executed cfg.package (.ok output)) ∨
        ∃ e, Blamed r d e ∧ (agentNodeExecutor registry r cfg context world).1 = executed cfg.package (.error e)) := by
  have resolved : registry.resolve r cfg.package = .ok (agent r d) := by rw [AgentRegistry.resolve,defined]
  obtain ⟨ran,all,short,inside⟩ := (agent r d).loop_ran (max 1 cfg.maxIterations).toNat { world,context }
  rw [List.nil_append] at all
  simp only [agentNodeExecutor,resolved,Agent.run]
  refine ⟨_,rfl,?_,?_,?_⟩
  · rw [all]
    exact inside
  · rw [all]
    omega
  · cases ended : ((agent r d).loop (max 1 cfg.maxIterations).toNat { world,context }).result with
    | ok output => exact .inl ⟨output,rfl⟩
    | error e => exact .inr ⟨e,loop_error ended,rfl⟩

/-- A model that always asks for a tool which the definition leaves out. -/
def headstrong : LlmRules Unit Unit where
  generate world _ context := ⟨.ok ⟨some "\x7b\"tool\": \"shell\"\x7d",none⟩,context,world⟩
  floats := zeroTexts
  nonzero _ := false
  dumps _ := none
  tool _ name := if name = "search" then some fun _ context => ⟨.ok (.dict [("hits",.int 2)]),context,()⟩ else none
  missing name := keyError name
  str
    | .str text => text
    | v => v.typeText
  noItems v := valueError v.typeText

def scouts : AgentRegistry Unit where
  definition package := if package = "scout" then some { tools := ["search"] } else none
  instance? package := .error (keyError package)

theorem defined_agent_runs_scout :
    ∃ last, (agentNodeExecutor scouts headstrong ⟨"scout",3⟩ .empty ()).2 = some last ∧
      (["search"] ≠ [] → ∀ tool ∈ last.executed, tool ∈ ["search"]) ∧ (last.executed.length : Int) ≤ max 1 3 ∧
      ((∃ output, (agentNodeExecutor scouts headstrong ⟨"scout",3⟩ .empty ()).1 = executed "scout" (.ok output)) ∨
        ∃ e, Blamed headstrong { tools := ["search"] } e ∧
          (agentNodeExecutor scouts headstrong ⟨"scout",3⟩ .empty ()).1 = executed "scout" (.error e)) :=
  defined_agent_runs scouts headstrong ⟨"scout",3⟩ .empty () rfl

end IceOS.LlmAgent
