import IceOS.SafeEval
import IceOS.Workflow

/-! The built-in executor of recursive nodes, for a node without a registered factory: the guard on the
iterations, the convergence check, one run of the inner agent or workflow, and the marks it leaves on the
output. The counter of the iterations travels in the contexts. -/
namespace IceOS

open PythonExpr

/-- The agent package or workflow reference of a recursive node; its validator insists on exactly one. -/
inductive InnerRef where
  | agent (package : String)
  | workflow (reference : String)

structure RecursiveSettings where
  convergenceCondition : Option String := none
  maxIterations : Int := 50
  inner : InnerRef
  preserveContext : Bool := true
  contextKey : String := "recursive_context"

/-- What the executor runs on: Python's operators, its parser, the executors of agents and workflows (with
the id of the node they run for), and the settings of the recursive nodes. -/
structure RecursiveRuntime (ω : Type) where
  model : DataModel Value Exn
  parse : String → Option (Expr Value)
  inner : String → InnerRef → Context → ω → Except Exn NodeExecutionResult × ω
  settings : NodeConfig → RecursiveSettings

/-- The class of a value as error texts name it. -/
def Value.typeName : Value → String
  | .none => "NoneType"
  | .bool _ => "bool"
  | .int _ => "int"
  | .str _ => "str"
  | .list _ => "list"
  | .dict _ => "dict"
  | .other name _ => name

/-- `value[key] = item`. -/
def Value.setItem (value : Value) (key : String) (item : Value) : Except Exn Value :=
  match value with
  | .dict entries => .ok (.dict ((OrderedDict.ofList entries).set key item).items)
  | .list _ => .error (typeError "list indices must be integers or slices, not str")
  | _ => .error (typeError (PythonText.repr value.typeName ++ " object does not support item assignment"))

namespace RecursiveRuntime

variable {ω : Type}

def counter (ctx : Context) : Value := (ctx.get? "_recursive_iteration").getD (.int 0)

/-- What went wrong is reported as a failed result. -/
def failure (e : Exn) : NodeExecutionResult :=
  { success := false,error := some e.text,output := .dict [("error",.str e.text)] }

/-- The output of an execution that stops the iteration. -/
def verdict (settings : RecursiveSettings) (converged : Bool) (reason : String) (ctx : Context) : Value :=
  .dict [("converged",.bool converged),("reason",.str reason),("iterations",counter ctx),
    ("final_context",(ctx.get? settings.contextKey).getD (.dict []))]

/-- A condition that cannot be evaluated does not hold. -/
def converged (rt : RecursiveRuntime ω) (settings : RecursiveSettings) (ctx : Context) : Bool :=
  match settings.convergenceCondition with
  | none | some "" => false
  | some condition => (safeEvalBool rt.model rt.parse condition ctx).toOption.getD false

/-- The context of the next iteration. -/
def enhance (settings : RecursiveSettings) (id : String) (next : Value) (ctx : Context) : Except Exn Context :=
  let enhanced := ctx.set "_recursive_iteration" next
  if settings.preserveContext then do
    let enhanced := enhanced.setDefault settings.contextKey (.dict [])
    let kept := (enhanced.get? settings.contextKey).getD .none
    let kept ← kept.setItem "iteration" next
    let kept ← kept.setItem "node_id" (.str id)
    return enhanced.set settings.contextKey kept
  else .ok enhanced

/-- The marks by which the workflow recognizes a node that wants another round. -/
def annotate (settings : RecursiveSettings) (id : String) (next : Value) (enhanced : Context)
    (result : NodeExecutionResult) : NodeExecutionResult :=
  match result.output with
  | .dict entries =>
    let marked := (OrderedDict.ofList entries).update
      [("_recursive_iteration",next),("_can_recurse",.bool true),("_recursive_node_id",.str id)]
    let marked := if settings.preserveContext then
      marked.set settings.contextKey ((enhanced.get? settings.contextKey).getD (.dict [])) else marked
    { result with output := .dict marked.items }
  | _ => result

def iterate (rt : RecursiveRuntime ω) (settings : RecursiveSettings) (id : String) (ctx : Context) (w : ω) :
    NodeExecutionResult × ω :=
  match rt.model.binary .add (counter ctx) (.int 1) with
  | .error e => (failure e,w)
  | .ok next =>
    match enhance settings id next ctx with
    | .error e => (failure e,w)
    | .ok enhanced =>
      match rt.inner id settings.inner enhanced w with
      | (.error e,w) => (failure e,w)
      | (.ok result,w) => (annotate settings id next enhanced result,w)

def run (rt : RecursiveRuntime ω) (node : NodeConfig) (ctx : Context) (w : ω) : NodeExecutionResult × ω :=
  let settings := rt.settings node
  match rt.model.compare .gtE (counter ctx) (.int settings.maxIterations) with
  | .error e => (failure e,w)
  | .ok true => ({ output := verdict settings false "max_iterations_reached" ctx },w)
  | .ok false =>
    if rt.converged settings ctx then ({ output := verdict settings true "condition_met" ctx },w)
    else rt.iterate settings node.id ctx w

/-- Recursive nodes are run by this executor, and have no validation of their own. -/
def install (rt : RecursiveRuntime ω) (x : Executors ω) : Executors ω where
  runtimeValidate node := if node.type = .recursive then none else x.runtimeValidate node
  executor node ctx w :=
    if node.type = .recursive then
      let (result,w) := rt.run node ctx w
      (.result result,w)
    else x.executor node ctx w
  coerce := x.coerce
  persist := x.persist
  isOutputValid := x.isOutputValid

/-- `execute_node` hands on what the executor of a recursive node returns. -/
theorem executeNode_recursive (rt : RecursiveRuntime ω) (x : Executors ω) (policy : FailurePolicy) {node : NodeConfig}
    (recursive : node.type = .recursive) (ctx : Context) (s : Session ω) :
    NodeExecutor.executeNode (rt.install x) policy node ctx s =
      (.ok (rt.run node ctx s.world).1,{ s with world := (rt.run node ctx s.world).2 }) := by
  have answer : (rt.install x).executor node ctx s.world =
      (.result (rt.run node ctx s.world).1,(rt.run node ctx s.world).2) := by
    simp only [install,recursive,if_true]
  have dispatched (left : Nat) : NodeExecutor.dispatch (rt.install x) node ctx left s =
      ((.result (rt.run node ctx s.world).1,left),{ s with world := (rt.run node ctx s.world).2 }) := by
    cases left <;> simp only [NodeExecutor.dispatch,answer]
  have uncharged (cost : Rat) (b : Budget) : b.register node.type cost = (none,b) := by
    rw [recursive]
    rfl
  have ran (left : Nat) : NodeExecutor.rounds (rt.install x) node ctx left s =
      (.ok (rt.run node ctx s.world).1,{ s with world := (rt.run node ctx s.world).2 }) := by
    cases left <;> simp only [NodeExecutor.rounds,dispatched,NodeExecutor.finish,NodeExecutor.chargeFor,uncharged]
  have valid : (rt.install x).runtimeValidate node = none := if_pos recursive
  simp only [NodeExecutor.executeNode,valid,ran]

end RecursiveRuntime

end IceOS
