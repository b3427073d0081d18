import IceOS.NestedNodes
import IceOS.RecursiveExecutor
import IceOS.RunTrails

/-! The executors of condition, loop, parallel, workflow and recursive nodes, which run other nodes, and of LLM nodes,
over the node executor and `Workflow.execute`. The tasks of a parallel node are run in order, as the coroutines
of a level are. A run keeps notes of what happens inside it: LLM invocations and the usage that is not passed on,
executions of nodes and their failures that are not. -/
namespace IceOS

/-- The providers for which there are handlers or prices. -/
inductive ModelProvider where
  | openai | anthropic | google | deepseek | custom
  deriving DecidableEq, Repr

/-- The token counts that come with a completion; what is not reported is zero. -/
structure Usage where
  promptTokens : Nat := 0
  completionTokens : Nat := 0
  totalTokens : Nat := 0

/-- One call of `generate`, and what it reported. -/
structure LlmCall where
  provider : ModelProvider
  model : String
  usage : Option Usage

/-- `UsageMetadata` fills in a total that is missing. -/
def Usage.total (u : Usage) : Nat := if u.totalTokens = 0 then u.promptTokens + u.completionTokens else u.totalTokens

def LlmCall.tokens (call : LlmCall) : Nat := (call.usage.map Usage.total).getD 0

/-- What a run notes: an LLM invocation; tokens in a usage that is not passed on; tokens that come back with an
execution of the run's own nodes; the end of an execution; a failure that is not passed on. -/
inductive Note where
  | invoked (call : LlmCall)
  | dropped (tokens : Nat)
  | returned (tokens : Nat)
  | execution (id : String) (succeeded : Bool)
  | ignored (id : String)

structure Noted (ω : Type) where
  world : ω
  notes : List Note := []

/-- The node executor's budget and the world, with the notes so far. -/
abbrev Running (ω : Type) := Session (Noted ω)

namespace Session

variable {ω : Type}

def notes (s : Running ω) : List Note := s.world.notes

def note (s : Running ω) (notes : List Note) : Running ω :=
  { s with world := { s.world with notes := s.world.notes ++ notes } }

def put (s : Running ω) (w : ω) : Running ω := { s with world := { s.world with world := w } }

/-- Without the notes. -/
def bare (s : Running ω) : Session ω := { budget := s.budget,world := s.world.world }

@[simp] theorem note_notes (s : Running ω) (notes : List Note) : (s.note notes).notes = s.notes ++ notes := rfl

end Session

/-- A result without usage. -/
structure PlainResult where
  success : Bool := true
  error : Option String := none
  output : Value := .none

def PlainResult.result (r : PlainResult) : NodeExecutionResult :=
  { success := r.success,error := r.error,output := r.output }

/-- What the executors of other nodes give back: only that of LLM nodes attaches usage. -/
inductive Answer where
  | raised (e : Exn)
  | result (r : PlainResult)
  | value (v : Value)

def Answer.reply : Answer → Reply
  | .raised e => .raised e
  | .result r => .result r.result
  | .value v => .value v

/-- What becomes of the prompt of an LLM node: an exception, or a completion. -/
inductive Generation where
  | failed (e : Exn)
  | completed (prompt text : String) (call : LlmCall) (error : Option String)

/-- What `execute` of a registered implementation of a loop, parallel or recursive node comes to. -/
inductive Delegated where
  | keyError
  | answer (a : Answer)

/-- What a workflow factory makes: a workflow itself, an object that runs one and hands on its result, or any
other object. -/
inductive SubWorkflow (ω : Type) where
  | workflow (wf : Workflow)
  | wrapper (prepare : Context → ω → Workflow × ω)
  | other (execute : Context → ω → (Answer × List LlmCall) × ω)

/-- The fields of a configuration that only its own executor reads. -/
structure Inner where
  model : String := ""
  declaresText : Bool := true
  expression : String := ""
  truePath : List NodeConfig := []
  falsePath : List NodeConfig := []
  itemsSource : String := ""
  itemVar : String := "item"
  body : List NodeConfig := []
  maxIterations : Option Int := none
  branches : List (List NodeConfig) := []
  mergeOutputs : Bool := true
  workflowRef : String := ""
  configOverrides : List (String × Value) := []
  exposedOutputs : List (String × String) := []

/-- What the executors run on: the nodes' validation and the treatment of plain values; everything that is answered
outside, with the LLM invocations made on the way; the fields of the configurations; a new `BudgetEnforcer`. -/
structure ExecutorRuntime (ω : Type) where
  runtimeValidate : NodeConfig → Option Exn
  coerce : NodeConfig → Value → Except Exn Value
  persist : NodeConfig → Value → ω → Option Exn × ω
  isOutputValid : NodeConfig → Value → Bool
  generate : NodeConfig → Context → ω → Generation × ω
  answer : NodeConfig → Context → ω → (Answer × List LlmCall) × ω
  agent : String → String → Context → ω → (PlainResult × List LlmCall) × ω
  evaluate : NodeConfig → Context → ω → Except Exn Value × ω
  factory : NodeConfig → Option (Context → ω → (Delegated × List LlmCall) × ω)
  workflowInstance : String → ω → Except Exn (SubWorkflow ω) × ω
  inner : NodeConfig → Inner
  enforcer : Budget
  currentContext : ω → Option GraphContext
  stalls : List NodeConfig → ω → Bool
  dataModel : PythonExpr.DataModel Value Exn
  parse : String → Option (PythonExpr.Expr Value)
  settings : NodeConfig → RecursiveSettings

/-- The run reports `success=True`. -/
def Workflow.Outcome.succeeds : Workflow.Outcome → Bool
  | .returned r => r.success
  | _ => false

/-- A run that is over: what came of it, its metrics, and what it leaves behind. -/
structure Finished (ω : Type) where
  outcome : Workflow.Outcome
  totalTokens : Nat
  session : Running ω

/-- A new enforcer with the same limits. -/
def Budget.fresh (b : Budget) : Budget := { b with count := fun _ => 0,totalCost := 0 }

/-- The text of a `TimeoutError` is empty. -/
def timeoutError : Exn := ⟨"","TimeoutError()"⟩

/-- The tokens that a result carries in its usage. -/
def NodeExecutionResult.tokens (r : NodeExecutionResult) : Nat := (r.usage.map (·.totalTokens)).getD 0

def carried : Except Exn NodeExecutionResult → Nat
  | .ok r => r.tokens
  | .error _ => 0

def Reply.tokens : Reply → Nat
  | .result r => r.tokens
  | _ => 0

/-- What there is to note when the flag and the usage of a result are not looked at. -/
def passedOver (id : String) (r : NodeExecutionResult) : List Note :=
  (if r.success then [] else [.ignored id]) ++ [.dropped r.tokens]

def Note.isFailure : Note → Bool
  | .execution _ succeeded => !succeeded
  | _ => false

def Note.isIgnored : Note → Bool
  | .ignored _ => true
  | _ => false

/-- Trying again forgets what failed inside the attempt. -/
def forgotten (id : String) (before after : List Note) : List Note :=
  if (after.drop before.length).any Note.isFailure then [.ignored id] else []

namespace ExecutorRuntime

variable {ω : Type} (rt : ExecutorRuntime ω)

/-! ### The node executor around an executor -/

/-- Its treatment of replies. -/
def replies : Executors (Noted ω) where
  runtimeValidate := rt.runtimeValidate
  executor _ _ w := (.value .none,w)
  coerce := rt.coerce
  persist node v w :=
    let (failure,world) := rt.persist node v w.world
    (failure,{ w with world })
  isOutputValid := rt.isOutputValid

section

variable (call : Running ω → Reply × Running ω) (nodeId : String) (node : NodeConfig)

/-- The inner loop. -/
def dispatch : Nat → Running ω → (Reply × Nat) × Running ω
  | 0,s =>
    let (reply,t) := call s
    ((reply,0),t)
  | left + 1,s =>
    match call s with
    | (.raised _,t) => dispatch left (t.note (forgotten nodeId s.notes t.notes))
    | (reply,t) => ((reply,left + 1),t)

/-- A reply that comes to an exception is lost with its usage. -/
def finish (reply : Reply) (s : Running ω) : Except Exn NodeExecutionResult × Running ω :=
  match NodeExecutor.finish rt.replies node reply s with
  | (.ok r,t) => (.ok r,t)
  | (.error e,t) => (.error e,t.note [.dropped reply.tokens])

/-- The outer loop. -/
def rounds : Nat → Running ω → Except Exn NodeExecutionResult × Running ω
  | 0,s =>
    let ((reply,_),t) := dispatch call nodeId (NodeExecutor.maxRetries node) s
    rt.finish node reply t
  | left + 1,s =>
    let ((reply,unused),t) := dispatch call nodeId (NodeExecutor.maxRetries node) s
    match rt.finish node reply t with
    | (.error e,u) =>
      if unused = 0 then (.error e,u) else rounds left (u.note (forgotten nodeId s.notes u.notes))
    | done => done

/-- The node executor's `execute_node`, for a node that is known under an id. -/
def executeNode (policy : FailurePolicy) (s : Running ω) : Except Exn NodeExecutionResult × Running ω :=
  match rt.runtimeValidate node with
  | some e =>
    if policy = .halt then (.error e,s)
    else (.ok { success := false
                error := some (s!"Validation failed for node '{nodeId}': " ++ e.text) },s)
  | none =>
    match rt.rounds call nodeId node (NodeExecutor.maxRetries node) s with
    | (.ok r,t) => (.ok r,t)
    | (.error e,t) =>
      if policy = .halt then (.error e,t)
      else
        let message :=
          "Retry limit exceeded (" ++ toString (NodeExecutor.maxRetries node) ++ ") – last error: " ++ e.text
        (.ok { success := false,error := some message },t)

end

/-! ### Executors that run no other node -/

def outputUsage : Option Usage → Value
  | none => .dict []
  | some u => .dict [("prompt_tokens",.int u.promptTokens),("completion_tokens",.int u.completionTokens),
      ("total_tokens",.int u.totalTokens)]

/-- A completion with an error is returned without its usage. The usage of any other one has no cost. -/
def llmNodeExecutor (node : NodeConfig) (ctx : Context) (s : Running ω) : NodeExecutionResult × Running ω :=
  match rt.generate node ctx s.world.world with
  | (.failed e,w) => ({ success := false,error := some e.text,output := .dict [] },s.put w)
  | (.completed prompt text call error,w) =>
    let s := (s.put w).note [.invoked call]
    let rest := [("prompt",.str prompt),("model",.str (rt.inner node).model),("usage",outputUsage call.usage)]
    if error.any (· ≠ "") then
      ({ success := false,error,output := .dict rest },s.note [.dropped call.tokens])
    else
      let shown := if (rt.inner node).declaresText then rest ++ [("text",.str text)] else rest
      ({ output := .dict (("response",.str text) :: shown)
         usage := call.usage.map fun u => { totalTokens := u.total } },s)

/-- Nobody asks for the usage of the invocations that are made elsewhere. -/
def outside (calls : List LlmCall) : List Note := calls.flatMap fun call => [.invoked call,.dropped call.tokens]

def plainExecutor (node : NodeConfig) (ctx : Context) (s : Running ω) : Reply × Running ω :=
  let ((answer,calls),w) := rt.answer node ctx s.world.world
  (answer.reply,(s.put w).note (outside calls))

/-! ### Executors that run other nodes -/

def resultOf (v : Value) : NodeExecutionResult := { output := v }

def failureOf (e : Exn) : NodeExecutionResult := { success := false,error := some e.text,output := .dict [] }

/-- A registered implementation goes first. One that raises a `KeyError` counts as not registered. -/
def delegate (node : NodeConfig) (ctx : Context) (own : Running ω → Reply × Running ω) (refuse : Exn → Reply)
    (s : Running ω) : Reply × Running ω :=
  match rt.factory node with
  | none => own s
  | some execute =>
    let ((delegated,calls),w) := execute ctx s.world.world
    let s := (s.put w).note (outside calls)
    match delegated with
    | .keyError => own s
    | .answer (.raised e) => (refuse e,s)
    | .answer (.result r) => (.result r.result,s)
    | .answer (.value v) => (.result (resultOf v),s)

/-- `execute_node_config`: a configuration without a level is not run. -/
def executeNodeConfig (call : NodeConfig → Context → Running ω → Reply × Running ω) (wf : Workflow) (parentId : String)
    (node : NodeConfig) (ctx : Context) (s : Running ω) : Except Exn NodeExecutionResult × Running ω :=
  let id := tempId parentId node.id
  match wf.graph.getNodeLevel id with
  | .error e => (.error e,s.note [.execution id false])
  | .ok _ =>
    let (outcome,t) := rt.executeNode (call node ctx) id node wf.failurePolicy s
    (outcome,t.note [.execution id (endingOf outcome = .succeeded)])

section

variable (nested : NodeConfig → Context → Running ω → Except Exn NodeExecutionResult × Running ω)

/-- The branch of a condition: the nodes' outputs, whether they succeeded or not. -/
def runBranch : List NodeConfig → Context → Context → Running ω → Except Exn Context × Running ω
  | [],_,outputs,s => (.ok outputs,s)
  | node :: rest,ctx,outputs,s =>
    match nested node ctx s with
    | (.error e,t) => (.error e,t)
    | (.ok r,t) =>
      runBranch rest (ctx.set node.id r.output) (outputs.set node.id r.output) (t.note (passedOver node.id r))

def conditionFailure (expression : String) (e : Exn) : NodeExecutionResult :=
  { success := false
    error := some (s!"Failed to evaluate condition '{expression}': " ++ e.text)
    output := .dict [] }

def conditionNodeExecutor (node : NodeConfig) (ctx : Context) (s : Running ω) : NodeExecutionResult × Running ω :=
  let cfg := rt.inner node
  match rt.evaluate node ctx s.world.world with
  | (.error e,w) => (conditionFailure cfg.expression e,s.put w)
  | (.ok result,w) =>
    let nodes := if result.truthy then cfg.truePath else cfg.falsePath
    match runBranch nested nodes (ctx.set "condition_result" result) .empty (s.put w) with
    | (.error e,t) => (conditionFailure cfg.expression e,t)
    | (.ok outputs,t) =>
      ({ output := .dict [("result",result),("branch",.str (if result.truthy then "true" else "false")),
          ("expression",.str cfg.expression),("branch_outputs",.dict outputs.items)] },t)

/-- A branch of a parallel node: an error in place of the output of a node that failed. -/
def executeBranch : List NodeConfig → Context → Context → Running ω → Except Exn Context × Running ω
  | [],_,results,s => (.ok results,s)
  | node :: rest,ctx,results,s =>
    match nested node ctx s with
    | (.error e,t) => (.error e,t)
    | (.ok r,t) =>
      let shown := if r.success then r.output else .dict [("error",(r.error.map Value.str).getD .none)]
      executeBranch rest (ctx.set node.id r.output) (results.set node.id shown) (t.note (passedOver node.id r))

/-- The gathered branches: an exception of one is put into the results. -/
def executeBranches (id : String) (ctx : Context) : Nat → List (List NodeConfig) → Running ω →
    List Context × Running ω
  | _,[],s => ([],s)
  | index,branch :: rest,s =>
    match executeBranch nested branch (ctx.set "branch_index" (.int index)) .empty s with
    | (.ok results,t) =>
      let (later,u) := executeBranches id ctx (index + 1) rest t
      (results :: later,u)
    | (.error e,t) =>
      let (later,u) := executeBranches id ctx (index + 1) rest (t.note [.ignored id])
      (.ofList [("branch_error",.str e.text),("branch_index",.int index)] :: later,u)

def mergeOutput (merged : Context) (entry : String × Value) : Context :=
  match merged.get? entry.1 with
  | none => merged.set entry.1 entry.2
  | some (.list items) => merged.set entry.1 (.list (items ++ [entry.2]))
  | some other => merged.set entry.1 (.list [other,entry.2])

def mergeOutputs (processed : List Context) : Context :=
  (processed.filter fun results => "branch_error" ∉ results.keys).foldl
    (fun merged results => results.items.foldl mergeOutput merged) .empty

/-- What the branches report after merging. A list that comes first under its id is the one to which the others
were appended. -/
def reportBranches (merged : Context) : List String → List Context → List Value
  | _,[] => []
  | seen,results :: rest =>
    if "branch_error" ∈ results.keys then .dict results.items :: reportBranches merged seen rest
    else
      let report (entry : String × Value) : String × Value :=
        match entry.2 with
        | .list _ => if entry.1 ∈ seen then entry else (entry.1,(merged.get? entry.1).getD entry.2)
        | _ => entry
      .dict (results.items.map report) :: reportBranches merged (seen ++ results.keys) rest

def parallelBranches (node : NodeConfig) (ctx : Context) (s : Running ω) : NodeExecutionResult × Running ω :=
  let cfg := rt.inner node
  if cfg.branches = [] then (failureOf (valueError s!"Parallel node {node.id} has no branches"),s)
  else
    let (processed,t) := executeBranches nested node.id ctx 0 cfg.branches s
    let merged := mergeOutputs processed
    let results := if cfg.mergeOutputs then reportBranches merged [] processed
      else processed.map fun results => .dict results.items
    let output := [("branch_results",.list results),
      ("completed_branches",.list ((List.range cfg.branches.length).map fun index => .int index)),
      ("strategy",.str "all")]
    ({ output := .dict (if cfg.mergeOutputs then output ++ [("merged",.dict merged.items)] else output) },t)

def parallelNodeExecutor (node : NodeConfig) (ctx : Context) (s : Running ω) : Reply × Running ω :=
  rt.delegate node ctx (fun s => (rt.parallelBranches nested node ctx s).map .result id)
    (fun e => .result (failureOf e)) s

end

section

variable (direct : NodeConfig → Context → Running ω → Reply × Running ω)

/-- The body of a loop, for one item: the executors are called as they are. -/
def runBody : List NodeConfig → Context → Value → Running ω → Except Exn Value × Running ω
  | [],_,last,s => (.ok last,s)
  | node :: rest,ctx,_,s =>
    match direct node ctx s with
    | (.raised e,t) => (.error e,t.note [.execution node.id false])
    | (.result r,t) =>
      runBody rest (ctx.set node.id r.output) r.output (t.note (.execution node.id r.success :: passedOver node.id r))
    | (.value v,t) => runBody rest (ctx.set node.id v) v (t.note [.execution node.id true])

/-- `cfg.item_var or "item"` -/
def itemName (cfg : Inner) : String := if cfg.itemVar = "" then "item" else cfg.itemVar

def iterate (cfg : Inner) (ctx : Context) : List Value → Running ω → Except Exn (List Value) × Running ω
  | [],s => (.ok [],s)
  | item :: rest,s =>
    match runBody direct cfg.body (ctx.set (itemName cfg) item) .none s with
    | (.error e,t) => (.error e,t)
    | (.ok last,t) =>
      match iterate cfg ctx rest t with
      | (.error e,u) => (.error e,u)
      | (.ok results,u) => (.ok (last :: results),u)

/-- `items[:n]` -/
def sliceTo (items : List Value) (n : Int) : List Value :=
  if n < 0 then items.take (items.length - n.natAbs) else items.take n.toNat

def loopItems (cfg : Inner) (ctx : Context) : Except Exn (List Value) :=
  if cfg.itemsSource = "" then .error (valueError "Loop node missing items_source / iterator_path")
  else
    match ContextBuilder.resolveNestedPath (.dict ctx.items) cfg.itemsSource with
    | .error (.lookup e) | .error (.value e) => .error e
    | .ok (.list items) =>
      match cfg.maxIterations with
      | none | some 0 => .ok items
      | some n => .ok (sliceTo items n)
    | .ok _ => .error (valueError s!"Iterator path {cfg.itemsSource} did not resolve to a list")

def loopOverItems (node : NodeConfig) (ctx : Context) (s : Running ω) : Reply × Running ω :=
  match loopItems (rt.inner node) ctx with
  | .error e => (.raised e,s)
  | .ok items =>
    match iterate direct (rt.inner node) ctx items s with
    | (.error e,t) => (.raised e,t)
    | (.ok results,t) => (.result (resultOf (.list results)),t)

def loopNodeExecutor (node : NodeConfig) (ctx : Context) : Running ω → Reply × Running ω :=
  rt.delegate node ctx (rt.loopOverItems direct node ctx) .raised

end

section

variable (run : Workflow → Running ω → Finished ω)

/-- The run of the referenced workflow, on a budget of its own. It is `none` when the run hangs until it is
cancelled. -/
def executeSub (id : String) (sub : SubWorkflow ω) (ctx : Context) (s : Running ω) :
    Option (Except Exn Value) × Running ω :=
  match sub with
  | .workflow _ => (some (.error (typeError "Workflow.execute() takes 1 positional argument but 2 were given")),s)
  | .wrapper prepare =>
    let (wf,w) := prepare ctx s.world.world
    let ended := run wf { s.put w with budget := rt.enforcer.fresh }
    let t := { ended.session with budget := s.budget }
    match ended.outcome with
    | .stalled => (none,t)
    | .raised e => (some (.error e),t)
    | .returned r =>
      if r.success then (some (.ok r.output),t)
      else (some (.ok (.dict [("error",(r.error.map Value.str).getD .none)])),t.note (forgotten id s.notes t.notes))
  | .other execute =>
    let ((answer,calls),w) := execute ctx s.world.world
    let t := (s.put w).note (outside calls)
    match answer with
    | .raised e => (some (.error e),t)
    | .value v => (some (.ok v),t)
    | .result r =>
      (some (.ok (if r.success then r.output else .dict [("error",(r.error.map Value.str).getD .none)])),
        t.note (.execution id r.success :: passedOver id r.result))

/-- One value of `exposed_outputs`. -/
def walk : List String → Value → Value
  | [],v => v
  | part :: rest,.dict entries => walk rest ((entries.lookup part).getD .none)
  | _ :: _,_ => .none

def expose (paths : List (String × String)) (v : Value) : Value :=
  if paths = [] then v else .dict (paths.map fun (name,path) => (name,walk (PythonText.split "." path) v))

def subWorkflowExecution (id : String) (cfg : Inner) (ctx : Context) (s : Running ω) :
    Option NodeExecutionResult × Running ω :=
  match rt.workflowInstance cfg.workflowRef s.world.world with
  | (.error e,w) => (some (failureOf e),s.put w)
  | (.ok sub,w) =>
    let (ended,t) := rt.executeSub run id sub (ctx.update cfg.configOverrides) (s.put w)
    (ended.map fun
      | .error e => failureOf e
      | .ok v => resultOf (expose cfg.exposedOutputs v),t)

/-- A node that is cut off by its timeout. -/
def cutOff : Option NodeExecutionResult → Reply
  | none => .raised timeoutError
  | some r => .result r

def workflowNodeExecutor (node : NodeConfig) (ctx : Context) (s : Running ω) : Reply × Running ω :=
  (rt.subWorkflowExecution run node.id (rt.inner node) ctx s).map cutOff id

/-- The executors of the agent and of the workflow in a recursive node. The flag is set when they are cut off. -/
def recursiveRuntime : RecursiveRuntime (Running ω × Bool) where
  model := rt.dataModel
  parse := rt.parse
  settings := rt.settings
  inner id ref ctx s :=
    match ref with
    | .agent package =>
      let ((r,calls),w) := rt.agent id package ctx s.1.world.world
      (.ok r.result,(s.1.put w).note (outside calls),s.2)
    | .workflow reference =>
      match rt.subWorkflowExecution run id { workflowRef := reference } ctx s.1 with
      | (some r,t) => (.ok r,t,s.2)
      | (none,t) => (.error timeoutError,t,true)

def recursiveNodeExecutor (node : NodeConfig) (ctx : Context) : Running ω → Reply × Running ω :=
  rt.delegate node ctx
    (fun s =>
      let (r,t,cut) := (rt.recursiveRuntime run).run node ctx (s,false)
      (if cut then .raised timeoutError else .result r,t))
    (fun e => .result (RecursiveRuntime.failure e))

end

/-! ### Whole runs -/

/-- The usage of a node of a sub-workflow ends in the metrics of that workflow. -/
def engine (inside : Bool) (call : Workflow → NodeConfig → Context → Running ω → Reply × Running ω) (wf : Workflow) :
    Engine (Running ω) where
  executeNode node ctx s :=
    let (outcome,t) := rt.executeNode (call wf node ctx) node.id node wf.failurePolicy s
    (outcome,t.note [if inside then .dropped (carried outcome) else .returned (carried outcome)])
  currentContext s := rt.currentContext s.world.world
  stalls nodes s := rt.stalls nodes s.world.world

/-- The executions of a run's own nodes, and the failures among them that it leaves unreported. -/
def closing (wf : Workflow) (eng : Engine (Running ω)) (limit : Nat) (s : Running ω) : List Note :=
  ((wf.runAll eng limit s).state.history.map fun a => Note.execution a.id (a.ending = .succeeded)) ++
    (wf.starts eng limit s).flatMap fun start => (wf.overlooked eng limit start.1).map Note.ignored

def runWorkflow (inside : Bool) (limit : Nat) (call : Workflow → NodeConfig → Context → Running ω → Reply × Running ω)
    (wf : Workflow) (s : Running ω) : Finished ω :=
  let eng := rt.engine inside call wf
  let final := (wf.runAll eng limit s).state
  { outcome := wf.execute eng limit s
    totalTokens := final.totalTokens
    session := final.world.note (closing wf eng limit s) }

/-- The executor of a node, where the interpreter's stack has room for `depth` executors inside each other. -/
def invoke : Nat → Workflow → NodeConfig → Context → Running ω → Reply × Running ω
  | 0,_,_,_,s => (.raised recursionError,s)
  | depth + 1,wf,node,ctx,s =>
    let direct := invoke depth wf
    let nested := rt.executeNodeConfig direct wf node.id
    let run := rt.runWorkflow true (depth + 1) (invoke depth)
    match node.type with
    | .llm => (rt.llmNodeExecutor node ctx s).map .result id
    | .condition => (rt.conditionNodeExecutor nested node ctx s).map .result id
    | .loop => rt.loopNodeExecutor direct node ctx s
    | .parallel => rt.parallelNodeExecutor nested node ctx s
    | .workflow => rt.workflowNodeExecutor run node ctx s
    | .recursive => rt.recursiveNodeExecutor run node ctx s
    | _ => rt.plainExecutor node ctx s

def beginning (w : ω) : Running ω := { budget := rt.enforcer.fresh,world := { world := w } }

/-- A run of a workflow by itself. -/
def execute (depth : Nat) (wf : Workflow) (w : ω) : Finished ω :=
  rt.runWorkflow false (depth + 1) (rt.invoke depth) wf (rt.beginning w)

/-- Nothing is registered, and nothing comes back from outside in time. -/
def offline : ExecutorRuntime Unit where
  runtimeValidate _ := none
  coerce _ v := .ok v
  persist _ _ w := (none,w)
  isOutputValid _ _ := true
  generate _ _ w := (.failed timeoutError,w)
  answer _ _ w := ((.result { success := false,error := some "timeout" },[]),w)
  agent _ _ _ w := (({ success := false,error := some "timeout" },[]),w)
  evaluate _ _ w := (.error (valueError "Unsafe expression"),w)
  factory _ := none
  workflowInstance reference w := (.error (keyError reference),w)
  inner _ := {}
  enforcer := { maximum := budgetDefaults,failClosed := true }
  currentContext _ := none
  stalls _ _ := false
  dataModel := wholeNumbers
  parse _ := none
  settings _ := { inner := .workflow "" }

/-! ### Nodes that run no others -/

/-- The executors of the nodes that run no other nodes. -/
def executors : Executors ω where
  runtimeValidate := rt.runtimeValidate
  executor node ctx w :=
    let ((answer,_),w) := rt.answer node ctx w
    (answer.reply,w)
  coerce := rt.coerce
  persist := rt.persist
  isOutputValid := rt.isOutputValid

theorem finish_bare (node : NodeConfig) (reply : Reply) (s : Running ω) :
    (rt.finish node reply s).map id Session.bare = NodeExecutor.finish rt.executors node reply s.bare := by
  have kept : (NodeExecutor.finish rt.replies node reply s).map id Session.bare =
      NodeExecutor.finish rt.executors node reply s.bare := by
    cases reply with
    | raised e => rfl
    | result r => rfl
    | value v =>
      simp only [NodeExecutor.finish,NodeExecutor.finishValue,replies,executors]
      cases rt.coerce node v with
      | error e => rfl
      | ok output =>
        simp only
        split
        · simp only [Session.bare]
          cases (rt.persist node output s.world.world).1 with
          | some e => rfl
          | none => rfl
        · rfl
  rw [← kept]
  simp only [finish]
  cases NodeExecutor.finish rt.replies node reply s with
  | mk outcome t =>
    cases outcome with
    | ok r => rfl
    | error e => rfl

theorem dispatch_bare (nodeId : String) (node : NodeConfig) (ctx : Context) (left : Nat) (s : Running ω) :
    (dispatch (rt.plainExecutor node ctx) nodeId left s).map id Session.bare =
      NodeExecutor.dispatch rt.executors node ctx left s.bare := by
  induction left generalizing s with
  | zero => rfl
  | succ left ih =>
    have answered : rt.executors.executor node ctx s.bare.world =
        ((rt.plainExecutor node ctx s).1,(rt.plainExecutor node ctx s).2.world.world) := rfl
    have kept : (rt.plainExecutor node ctx s).2.budget = s.budget := rfl
    simp only [dispatch,NodeExecutor.dispatch,answered]
    cases called : rt.plainExecutor node ctx s with
    | mk reply t =>
      rw [called] at kept
      have bare : ({ s.bare with world := t.world.world } : Session ω) = t.bare := by
        rw [Session.bare,Session.bare,show t.budget = s.budget from kept]
      cases reply with
      | raised e =>
        simp only [bare]
        exact ih _
      | result r => exact congrArg _ bare.symm
      | value v => exact congrArg _ bare.symm

theorem rounds_bare (nodeId : String) (node : NodeConfig) (ctx : Context) (left : Nat) (s : Running ω) :
    (rt.rounds (rt.plainExecutor node ctx) nodeId node left s).map id Session.bare =
      NodeExecutor.rounds rt.executors node ctx left s.bare := by
  induction left generalizing s with
  | zero =>
    simp only [rounds,NodeExecutor.rounds,← rt.dispatch_bare nodeId,Prod.map]
    exact rt.finish_bare node _ _
  | succ left ih =>
    simp only [rounds,NodeExecutor.rounds,← rt.dispatch_bare nodeId,Prod.map,← rt.finish_bare,id]
    cases rt.finish node (dispatch (rt.plainExecutor node ctx) nodeId (NodeExecutor.maxRetries node) s).1.1
        (dispatch (rt.plainExecutor node ctx) nodeId (NodeExecutor.maxRetries node) s).2 with
    | mk outcome t =>
      cases outcome with
      | ok r => rfl
      | error e =>
        simp only
        split
        · rfl
        · exact ih _

/-- On a node that runs no others this is the node executor, with notes. -/
theorem executeNode_bare (policy : FailurePolicy) (node : NodeConfig) (ctx : Context) (s : Running ω) :
    (rt.executeNode (rt.plainExecutor node ctx) node.id node policy s).map id Session.bare =
      NodeExecutor.executeNode rt.executors policy node ctx s.bare := by
  simp only [executeNode,NodeExecutor.executeNode,← rt.rounds_bare node.id]
  change _ = match rt.runtimeValidate node with | some e => _ | none => _
  cases rt.runtimeValidate node with
  | some e =>
    simp only
    split
    · rfl
    · rfl
  | none =>
    simp only [Prod.map]
    cases rt.rounds (rt.plainExecutor node ctx) node.id node (NodeExecutor.maxRetries node) s with
    | mk outcome t =>
      cases outcome with
      | ok r => rfl
      | error e =>
        simp only [id]
        split
        · rfl
        · rfl

end ExecutorRuntime

end IceOS
