import IceOS.BlueprintApi
import IceOS.ContextManager
import IceOS.ExecutionApi
import IceOS.Workflow

/-! What a start request sets off: the service that turns the node specs of a blueprint into a
workflow and runs it, and the background task around the service. -/
namespace IceOS

/-- What all workflow runs of a process share. -/
structure Process (ω : Type) where
  manager : ContextManager
  world : ω

/-- The code and the settings that the service calls on. `modelValidate` is the validation of a
node spec by the configuration class of its type, `newSession` a fresh session id and the time,
`enforcer` a budget enforcer just made, and `dump` the exception of dumping a result, if any. -/
structure Runtime (ω : Type) where
  networkx : Networkx
  modelValidate : NodeType → NodeSpec → Except String NodeConfig
  populateToolNodeSchemas : NodeConfig → Except Exn NodeConfig
  validateNodeToolAccess : List NodeConfig → Except Exn Unit
  validateSchemaAlignment : List NodeConfig → Except Exn Unit
  maxTokens : Option Nat
  maxDepth : Option Nat
  enforcer : Budget
  executors : Executors (Process ω)
  stalls : List NodeConfig → Process ω → Bool
  newSession : Process ω → String × String
  dump : NodeExecutionResult → Option String

/-! ### From specs to configurations -/

def validationError (message : String) : Exn :=
  let text := if message = "" then "Unknown or uncategorised error" else message
  ⟨text,"ValidationError(" ++ PythonText.repr text ++ ")"⟩

def unknownNodeTypeError (nodeType : String) : Exn :=
  let text := s!"Unknown node type '{nodeType}'"
  ⟨text,"UnknownNodeTypeError(" ++ PythonText.repr text ++ ")"⟩

def nodeTypeMap : List (String × NodeType) :=
  [("tool",.tool),("llm",.llm),("agent",.agent),("code",.code),("condition",.condition),("loop",.loop),
    ("parallel",.parallel),("recursive",.recursive),("workflow",.workflow),("human",.human),
    ("monitor",.monitor),("swarm",.swarm)]

/-- A template's reference to a value. -/
def placeholder (path : String) : String := "\x7b\x7b " ++ path ++ " \x7d\x7d"

def recentNode (llmId : String) : NodeSpec where
  id := "recent_" ++ llmId
  type := "tool"
  config := "\x7b\"tool_name\": \"recent_session_tool\", \"tool_args\": \x7b\"session_id\": \"" ++
    placeholder "inputs.session_id" ++ "\", \"scope\": \"library\", \"org_id\": \"" ++
    placeholder "inputs.org_id" ++ "\", \"limit\": 5\x7d\x7d"

def writeNode (llmId : String) : NodeSpec where
  id := "write_" ++ llmId
  type := "tool"
  dependencies := [llmId]
  config := "\x7b\"tool_name\": \"memory_write_tool\", \"tool_args\": \x7b\"key\": \"chat:" ++
    placeholder "inputs.session_id" ++ ":" ++ llmId ++ "\", \"content\": \"" ++
    placeholder (llmId ++ ".response") ++ "\", \"scope\": \"library\", \"org_id\": \"" ++
    placeholder "inputs.org_id" ++ "\", \"user_id\": \"" ++ placeholder "inputs.user_id" ++ "\"\x7d\x7d"

/-- A memory-aware LLM node reads the recent turns and has its own turn written. -/
def withMemory (ns : NodeSpec) : List NodeSpec :=
  if ns.type = "llm" ∧ ns.memoryAware then
    let recentId := (recentNode ns.id).id
    [{ ns with
        dependencies := if recentId ∈ ns.dependencies then ns.dependencies else ns.dependencies ++ [recentId]
        prompt := some ("You are memory-aware. Use recent chat turns when helpful.\n" ++
          "Recent session items: " ++ placeholder (recentId ++ "['items']") ++ "\n" ++ ns.prompt.getD "") },
      recentNode ns.id,writeNode ns.id]
  else [ns]

def applyMemoryAwarePolicy (nodeSpecs : List NodeSpec) : List NodeSpec := nodeSpecs.flatMap withMemory

namespace Runtime

variable {ω : Type} (x : Runtime ω)

def convertNodeSpec (spec : NodeSpec) : Except Exn NodeConfig :=
  if spec.type = "" then .error (validationError "NodeSpec.type is required for conversion")
  else
    match nodeTypeMap.lookup spec.type with
    | none => .error (unknownNodeTypeError spec.type)
    | some type => (x.modelValidate type spec).mapError validationError

/-- Only tool nodes have schemas to look up. -/
def populateMissingSchemas (nodes : List NodeConfig) : Except Exn (List NodeConfig) :=
  nodes.mapM fun node => if node.type = .tool then x.populateToolNodeSchemas node else .ok node

def convertNodeSpecs (specs : List NodeSpec) : Except Exn (List NodeConfig) :=
  (specs.mapM x.convertNodeSpec).bind x.populateMissingSchemas

/-! ### Making and running a workflow -/

/-- The constructor makes its own context the current one before it looks at the graph. -/
def newWorkflow (nodes : List NodeConfig) (maxParallel : Nat) (initialContext : List (String × Value))
    (p : Process ω) : Except Exn Workflow × Process ω :=
  match (x.populateMissingSchemas nodes).bind fun nodes => (x.validateNodeToolAccess nodes).map fun _ => nodes with
  | .error e => (.error e,p)
  | .ok nodes =>
    let (sessionId,time) := x.newSession p
    let context : GraphContext :=
      { sessionId,metadata := initialContext,executionId := some (sessionId ++ "_" ++ time) }
    (Workflow.new x.networkx x.validateSchemaAlignment
      { maxParallel,tokenCeiling := x.maxTokens,depthCeiling := x.maxDepth } nodes,
      { p with manager := p.manager.setContext context })

def engine (wf : Workflow) : Engine (Session (Process ω)) :=
  NodeExecutor.engine x.executors wf.failurePolicy (·.manager.current) x.stalls

/-- Each workflow has a node executor, and that a budget enforcer, of its own. -/
def session (p : Process ω) : Session (Process ω) := ⟨x.enforcer,p⟩

end Runtime

/-- How a call of the service ended, what each workflow run it started attempted, and the process
it leaves behind. -/
structure Served (ω : Type) where
  outcome : Workflow.Outcome
  runs : List (List Attempt)
  after : Process ω

namespace Runtime

variable {ω : Type} (x : Runtime ω)

def runWorkflow (limit : Nat) (wf : Workflow) (p : Process ω) : Served ω :=
  let ended := (wf.runAll (x.engine wf) limit (x.session p)).state
  ⟨wf.execute (x.engine wf) limit (x.session p),[ended.history],ended.world.world⟩

/-- Inputs are there both at the top level and under their own key. -/
def withInputs (metadata inputs : List (String × Value)) : List (String × Value) :=
  if inputs = [] then metadata
  else (OrderedDict.ofList (metadata ++ inputs ++ [("inputs",.dict inputs)])).items

def prepareBlueprint (nodeSpecs : List NodeSpec) (inputs : List (String × Value)) (p : Process ω) :
    Except Exn Workflow × Process ω :=
  match x.convertNodeSpecs (applyMemoryAwarePolicy nodeSpecs) with
  | .error e => (.error e,p)
  | .ok nodes => x.newWorkflow nodes 5 (withInputs [] inputs) p

def executeBlueprint (limit : Nat) (nodeSpecs : List NodeSpec) (inputs : List (String × Value))
    (p : Process ω) : Served ω :=
  match x.prepareBlueprint nodeSpecs inputs p with
  | (.error e,p) => ⟨.raised e,[],p⟩
  | (.ok wf,p) => x.runWorkflow limit wf p

/-- The inputs go into the context of the session `run`, which is made the current one. -/
def injectInputs (inputs : List (String × Value)) (p : Process ω) : Process ω :=
  if inputs = [] then p
  else
    let manager := (p.manager.getContext (some "run")).2
    { p with manager := manager.mapCurrent fun context =>
               { context with metadata := withInputs context.metadata inputs } }

def executeWorkflow (limit : Nat) (wf : Workflow) (inputs : List (String × Value)) (p : Process ω) : Served ω :=
  x.runWorkflow limit wf (injectInputs inputs p)

/-! ### The background task -/

/-- The task's last resort: the blueprint's own nodes, without the memory helpers. -/
def prepareFallback (nodeSpecs : List NodeSpec) (p : Process ω) : Except Exn Workflow × Process ω :=
  match x.convertNodeSpecs nodeSpecs with
  | .error e => (.error e,p)
  | .ok nodes => x.newWorkflow nodes 5 [] p

def runLastResort (limit : Nat) (bp : Blueprint) (inputs : List (String × Value)) (p : Process ω) : Served ω :=
  match x.prepareFallback bp.nodes p with
  | (.error e,p) => ⟨.raised e,[],p⟩
  | (.ok wf,p) => x.executeWorkflow limit wf inputs p

/-- Whatever exception comes out of the service, the last resort is tried. -/
def serveBlueprint (limit : Nat) (bp : Blueprint) (inputs : List (String × Value)) (p : Process ω) : Served ω :=
  let first := x.executeBlueprint limit bp.nodes inputs p
  match first.outcome with
  | .raised _ =>
    let second := x.runLastResort limit bp inputs first.after
    { second with runs := first.runs ++ second.runs }
  | _ => first

/-- What the task records when the service is done; a service that hangs leaves it running. -/
def recordOutcome (m : ExecutionRecord) : Workflow.Outcome → ExecutionRecord
  | .returned result => m.finish (.ok result) (x.dump result)
  | .raised e => m.finish (.error e.text) none
  | .stalled => m

/-- The record at the end of the task, and what the service did for it. -/
def runWorkflowAsync (limit : Nat) (bp : Blueprint) (inputs : List (String × Value)) (p : Process ω)
    (m : ExecutionRecord) : ExecutionRecord × Served ω :=
  let served := x.serveBlueprint limit bp inputs p
  (x.recordOutcome { m with status := .running } served.outcome,served)

end Runtime

end IceOS
