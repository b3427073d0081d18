import IceOS.ActionRuns
import IceOS.NodeModels
import Mathlib.Logic.Function.Basic

/-! The life of one execution behind the API: the task that runs it, the cancel requests, and the
three places that hold its status. Each await is a step of its own. -/
namespace IceOS

inductive ExecutionStatus where
  | pending | running | completed | failed
  deriving DecidableEq, Repr

def ExecutionStatus.Terminal : ExecutionStatus → Prop
  | .completed | .failed => True
  | .pending | .running => False

instance : DecidablePred ExecutionStatus.Terminal
  | .completed | .failed => isTrue trivial
  | .pending | .running => isFalse id

/-- The in-memory record. -/
structure ExecutionRecord where
  status : ExecutionStatus := .pending
  error : Option String := none
  result : Option NodeExecutionResult := none
  events : List String := []

/-- Where the task stands: the start route stores and announces the execution, then the task saves
each new status in the database and publishes it in Redis. -/
inductive Stage where
  | created | inserted | scheduled
  | saving (v : ExecutionStatus)
  | saved (v : ExecutionStatus) (record : Option ExecutionStatus)
  | publishing (v : ExecutionStatus)
  | executing
  | ended
  deriving DecidableEq, Repr

/-- Where a cancel request stands. A process that does not hold the record goes to the database. -/
inductive CancelStage where
  | arrived
  | fetched (record : Option ExecutionStatus)
  | publishing
  | ended
  deriving DecidableEq, Repr

structure Execution (κ : Type) where
  memory : ExecutionRecord := {}
  row : Option ExecutionStatus := none
  redis : Option ExecutionStatus := none
  stage : Stage := .created
  cancels : κ → CancelStage := fun _ => .arrived

/-- `ok` tells whether the database or Redis answered. Executing ends with a result or the text of
an exception; `dumpError` is the exception of dumping the result, if there is one. -/
inductive ExecutionAction (κ : Type) where
  | insert (ok : Bool)
  | announce (ok : Bool)
  | begin (available : Bool)
  | fetch (ok : Bool)
  | commit (ok : Bool)
  | publish (ok : Bool)
  | emit (event : String)
  | finish (outcome : Except String NodeExecutionResult) (dumpError : Option String)
  | cancel (j : κ)
  | cancelFetch (j : κ) (ok : Bool)
  | cancelCommit (j : κ) (ok : Bool)
  | cancelPublish (j : κ) (ok : Bool)

/-- The ORM writes a status that differs from the fetched one. -/
def flushStatus (v : ExecutionStatus) (record current : Option ExecutionStatus) : Option ExecutionStatus :=
  if record = some v then current else current.map fun _ => v

namespace ExecutionRecord

/-- A result is recorded as completed, unless dumping it raises. -/
def finish (m : ExecutionRecord) (outcome : Except String NodeExecutionResult) (dumpError : Option String) :
    ExecutionRecord :=
  match outcome,dumpError with
  | .ok result,none => { m with status := .completed,result := some result }
  | .ok _,some text | .error text,_ => { m with status := .failed,error := some text }

def cancel (m : ExecutionRecord) : ExecutionRecord := { m with status := .failed,error := some "canceled" }

end ExecutionRecord

namespace Execution

variable {κ : Type} [DecidableEq κ]

def setCancel (s : Execution κ) (j : κ) (c : CancelStage) : Execution κ :=
  { s with cancels := Function.update s.cancels j c }

/-- After publishing that it runs the task executes, after a final status it ends. -/
def afterPublishing : ExecutionStatus → Stage
  | .running => .executing
  | _ => .ended

@[grind =] def step (s : Execution κ) : ExecutionAction κ → Option (Execution κ)
  | .insert ok =>
    match s.stage with
    | .created => some { s with row := if ok then some .pending else s.row,stage := .inserted }
    | _ => none
  | .announce ok =>
    match s.stage with
    | .inserted => some { s with redis := if ok then some .pending else s.redis,stage := .scheduled }
    | _ => none
  | .begin available =>
    match s.stage with
    | .scheduled =>
      -- without an orchestrator the task dies before it touches the record
      if available then some { s with memory := { s.memory with status := .running },stage := .saving .running }
      else some { s with stage := .ended }
    | _ => none
  | .fetch ok =>
    match s.stage with
    | .saving v => some { s with stage := if ok ∧ s.row.isSome then .saved v s.row else .publishing v }
    | _ => none
  | .commit ok =>
    match s.stage with
    | .saved v record =>
      some { s with row := if ok then flushStatus v record s.row else s.row,stage := .publishing v }
    | _ => none
  | .publish ok =>
    match s.stage with
    | .publishing v => some { s with redis := if ok then some v else s.redis,stage := afterPublishing v }
    | _ => none
  | .emit event =>
    match s.stage with
    | .executing => some { s with memory := { s.memory with events := s.memory.events ++ [event] } }
    | _ => none
  | .finish outcome dumpError =>
    match s.stage with
    | .executing =>
      let memory := s.memory.finish outcome dumpError
      some { s with memory,stage := .saving memory.status }
    | _ => none
  | .cancel j =>
    match s.cancels j with
    | .arrived => some ({ s with memory := s.memory.cancel }.setCancel j .publishing)
    | _ => none
  | .cancelFetch j ok =>
    match s.cancels j with
    | .arrived => some (s.setCancel j (if ok ∧ s.row.isSome then .fetched s.row else .ended))
    | _ => none
  | .cancelCommit j ok =>
    match s.cancels j with
    | .fetched record =>
      if ok then some ({ s with row := flushStatus .failed record s.row }.setCancel j .publishing)
      else some (s.setCancel j .ended)
    | _ => none
  | .cancelPublish j ok =>
    match s.cancels j with
    | .publishing => some ({ s with redis := if ok then some .failed else s.redis }.setCancel j .ended)
    | _ => none

end Execution

end IceOS
