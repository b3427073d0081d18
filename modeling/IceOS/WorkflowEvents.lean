import IceOS.JsonRoundTrip
import IceOS.PythonDatetime
import Mathlib.Logic.Function.Basic

/-! The events of workflow runs, and the sink that mirrors them to the streams of Redis. -/
namespace IceOS.WorkflowEvents

open PythonDatetime (DateTime)
open PythonJson (FloatTexts)

/-- Types of workflow events. -/
inductive EventType where
  | workflowStarted
  | workflowCompleted
  | workflowFailed
  | workflowPaused
  | workflowResumed
  | levelStarted
  | levelCompleted
  | nodeQueued
  | nodeStarted
  | nodeProgress
  | nodeCompleted
  | nodeFailed
  | nodeSkipped
  | nodeRetrying
  | tokenUpdate
  | costUpdate
  | contextSnapshot
  | validationError
  | suggestionAvailable
  | previewReady
  deriving DecidableEq, Repr

def EventType.value : EventType → String
  | .workflowStarted => "workflow.started"
  | .workflowCompleted => "workflow.completed"
  | .workflowFailed => "workflow.failed"
  | .workflowPaused => "workflow.paused"
  | .workflowResumed => "workflow.resumed"
  | .levelStarted => "level.started"
  | .levelCompleted => "level.completed"
  | .nodeQueued => "node.queued"
  | .nodeStarted => "node.started"
  | .nodeProgress => "node.progress"
  | .nodeCompleted => "node.completed"
  | .nodeFailed => "node.failed"
  | .nodeSkipped => "node.skipped"
  | .nodeRetrying => "node.retrying"
  | .tokenUpdate => "resource.token_update"
  | .costUpdate => "resource.cost_update"
  | .contextSnapshot => "debug.context_snapshot"
  | .validationError => "debug.validation_error"
  | .suggestionAvailable => "canvas.suggestion"
  | .previewReady => "canvas.preview"

/-! ### Objects and their JSON texts -/

/-- What a field of an event may hold. An object of any other class is its class name. -/
inductive PyObject (φ : Type) where
  | none
  | bool (b : Bool)
  | int (i : Int)
  | float (x : φ)
  | str (text : String)
  | list (items : List (PyObject φ))
  | tuple (items : List (PyObject φ))
  | dict (entries : List (PyObject φ × PyObject φ))
  | eventType (member : EventType)
  | datetime (t : DateTime)
  | object (class_ : String)
  deriving Repr

inductive Exn where
  | typeError (message : String)
  | valueError (message : String)
  deriving DecidableEq, Repr

variable {φ : Type} (f : FloatTexts φ)

def unserializable {α : Type} (class_ : String) : Except Exn α :=
  .error (.typeError s!"Object of type {class_} is not JSON serializable")

def encodeInt (i : Int) : Except Exn Int :=
  if (Nat.toDigits 10 i.natAbs).length ≤ PythonJson.maxStrDigits then .ok i
  else .error (.valueError "Exceeds the limit (4300 digits) for integer string conversion")

def encodeKey : PyObject φ → Except Exn String
  | .str text => .ok text
  | .float x => .ok (f.text x)
  | .bool true => .ok "true"
  | .bool false => .ok "false"
  | .none => .ok "null"
  | .int i => (encodeInt i).map toString
  | _ => .error (.typeError "keys must be str, int, float, bool or None")

mutual

/-- The JSON form that `dumps` gives an object; it has none for enum members and dates. -/
def encode : PyObject φ → Except Exn (Json φ)
  | .none => .ok .null
  | .bool b => .ok (.bool b)
  | .int i => (encodeInt i).map .int
  | .float x => .ok (.float x)
  | .str text => .ok (.str text)
  | .list items => (encodeItems items).map .list
  | .tuple items => (encodeItems items).map .list
  | .dict entries => (encodeEntries entries).map .dict
  | .eventType _ => unserializable "EventType"
  | .datetime _ => unserializable "datetime"
  | .object class_ => unserializable class_

def encodeItems : List (PyObject φ) → Except Exn (List (Json φ))
  | [] => .ok []
  | v :: rest => do return (← encode v) :: (← encodeItems rest)

def encodeEntries : List (PyObject φ × PyObject φ) → Except Exn (List (String × Json φ))
  | [] => .ok []
  | (key,v) :: rest => do return ((← encodeKey f key),(← encode v)) :: (← encodeEntries rest)

end

/-- `json.dumps` -/
def dumps (v : PyObject φ) : Except Exn String := (encode f v).map (PythonJson.dumps f)

/-- A dictionary with the names of fields as keys. -/
def named (fields : List (String × PyObject φ)) : PyObject φ := .dict (fields.map fun field => (.str field.1,field.2))

def optional {α : Type} (of : α → PyObject φ) : Option α → PyObject φ
  | .none => .none
  | some v => of v

mutual

/-- The JSON form from which an object can be told: enum members by their values, dates by their ISO texts. -/
def readable : PyObject φ → Option (Json φ)
  | .none => some .null
  | .bool b => some (.bool b)
  | .int i => some (.int i)
  | .float x => some (.float x)
  | .str text => some (.str text)
  | .list items => (readableItems items).map .list
  | .tuple items => (readableItems items).map .list
  | .dict entries => (readableEntries entries).map .dict
  | .eventType member => some (.str member.value)
  | .datetime t => some (.str t.isoformat)
  | .object _ => none

def readableItems : List (PyObject φ) → Option (List (Json φ))
  | [] => some []
  | v :: rest => do return (← readable v) :: (← readableItems rest)

def readableEntries : List (PyObject φ × PyObject φ) → Option (List (String × Json φ))
  | [] => some []
  | (key,v) :: rest => do return ((← (encodeKey f key).toOption),(← readable v)) :: (← readableEntries rest)

end

/-! ### Events -/

/-- The base class of the events. -/
structure WorkflowEvent (φ : Type) where
  eventType : EventType
  timestamp : DateTime
  workflowId : String := ""
  runId : Option String := none
  metadata : List (String × PyObject φ) := []

/-- Emitted when workflow execution begins. -/
structure WorkflowStarted (φ : Type) extends WorkflowEvent φ where
  eventType := .workflowStarted
  workflowName : String := ""
  totalNodes : Int := 0
  totalLevels : Int := 0
  estimatedDurationSeconds : Option φ := none
  estimatedCost : Option φ := none

/-- Emitted when workflow execution completes successfully. -/
structure WorkflowCompleted (φ : Type) extends WorkflowEvent φ where
  eventType := .workflowCompleted
  durationSeconds : φ
  totalTokens : Int := 0
  totalCost : φ
  nodesExecuted : Int := 0
  nodesSkipped : Int := 0

/-- Emitted when a node begins execution. -/
structure NodeStarted (φ : Type) extends WorkflowEvent φ where
  eventType := .nodeStarted
  nodeId : String := ""
  nodeType : String := ""
  nodeName : Option String := none
  level : Int := 0
  dependencies : List String := []
  inputSizeBytes : Option Int := none
  nodeRunId : Option String := none

/-- Emitted to report node execution progress. -/
structure NodeProgress (φ : Type) extends WorkflowEvent φ where
  eventType := .nodeProgress
  nodeId : String := ""
  progressPercent : φ
  message : Option String := none
  tokensUsed : Option Int := none
  nodeRunId : Option String := none

/-- Emitted when a node completes successfully. -/
structure NodeCompleted (φ : Type) extends WorkflowEvent φ where
  eventType := .nodeCompleted
  nodeId : String := ""
  durationSeconds : φ
  tokensUsed : Option Int := none
  cost : Option φ := none
  outputPreview : Option (List (String × PyObject φ)) := none
  cacheHit : Bool := false
  nodeRunId : Option String := none

/-- Emitted when a node fails. -/
structure NodeFailed (φ : Type) extends WorkflowEvent φ where
  eventType := .nodeFailed
  nodeId : String := ""
  errorType : String := ""
  errorMessage : String := ""
  retryAttempt : Int := 0
  willRetry : Bool := false
  stackTrace : Option String := none
  nodeRunId : Option String := none

/-- Emitted when there are suggestions for the canvas. -/
structure CanvasSuggestion (φ : Type) extends WorkflowEvent φ where
  eventType := .suggestionAvailable
  contextNodeId : Option String := none
  suggestions : List (List (String × PyObject φ)) := []
  confidence : φ
  reason : Option String := none

/-- An event of any class. -/
inductive Event (φ : Type) where
  | base (e : WorkflowEvent φ)
  | workflowStarted (e : WorkflowStarted φ)
  | workflowCompleted (e : WorkflowCompleted φ)
  | nodeStarted (e : NodeStarted φ)
  | nodeProgress (e : NodeProgress φ)
  | nodeCompleted (e : NodeCompleted φ)
  | nodeFailed (e : NodeFailed φ)
  | canvasSuggestion (e : CanvasSuggestion φ)

namespace Event

/-- The attributes of the base class. -/
def common : Event φ → WorkflowEvent φ
  | .base e => e
  | .workflowStarted e => e.toWorkflowEvent
  | .workflowCompleted e => e.toWorkflowEvent
  | .nodeStarted e => e.toWorkflowEvent
  | .nodeProgress e => e.toWorkflowEvent
  | .nodeCompleted e => e.toWorkflowEvent
  | .nodeFailed e => e.toWorkflowEvent
  | .canvasSuggestion e => e.toWorkflowEvent

/-- The attributes that the class of the event adds. -/
def own : Event φ → List (String × PyObject φ)
  | .base _ => []
  | .workflowStarted e => [("workflow_name",.str e.workflowName),("total_nodes",.int e.totalNodes),
      ("total_levels",.int e.totalLevels),("estimated_duration_seconds",optional .float e.estimatedDurationSeconds),
      ("estimated_cost",optional .float e.estimatedCost)]
  | .workflowCompleted e => [("duration_seconds",.float e.durationSeconds),("total_tokens",.int e.totalTokens),
      ("total_cost",.float e.totalCost),("nodes_executed",.int e.nodesExecuted),("nodes_skipped",.int e.nodesSkipped)]
  | .nodeStarted e => [("node_id",.str e.nodeId),("node_type",.str e.nodeType),
      ("node_name",optional .str e.nodeName),("level",.int e.level),("dependencies",.list (e.dependencies.map .str)),
      ("input_size_bytes",optional .int e.inputSizeBytes),("node_run_id",optional .str e.nodeRunId)]
  | .nodeProgress e => [("node_id",.str e.nodeId),("progress_percent",.float e.progressPercent),
      ("message",optional .str e.message),("tokens_used",optional .int e.tokensUsed),
      ("node_run_id",optional .str e.nodeRunId)]
  | .nodeCompleted e => [("node_id",.str e.nodeId),("duration_seconds",.float e.durationSeconds),
      ("tokens_used",optional .int e.tokensUsed),("cost",optional .float e.cost),
      ("output_preview",optional named e.outputPreview),("cache_hit",.bool e.cacheHit),
      ("node_run_id",optional .str e.nodeRunId)]
  | .nodeFailed e => [("node_id",.str e.nodeId),("error_type",.str e.errorType),("error_message",.str e.errorMessage),
      ("retry_attempt",.int e.retryAttempt),("will_retry",.bool e.willRetry),("stack_trace",optional .str e.stackTrace),
      ("node_run_id",optional .str e.nodeRunId)]
  | .canvasSuggestion e => [("context_node_id",optional .str e.contextNodeId),
      ("suggestions",.list (e.suggestions.map named)),("confidence",.float e.confidence),
      ("reason",optional .str e.reason)]

/-- `__dict__`: a dataclass sets its fields in the order of their declaration, the type of the event first. -/
def attributes (e : Event φ) : List (String × PyObject φ) :=
  ("event_type",.eventType e.common.eventType) :: ("timestamp",.datetime e.common.timestamp) ::
    ("workflow_id",.str e.common.workflowId) :: ("run_id",optional .str e.common.runId) ::
    ("metadata",named e.common.metadata) :: e.own

end Event

/-! ### The sink -/

structure StreamEntry where
  event : String
  payload : String
  deriving DecidableEq, Repr

/-- The streams of Redis. -/
abbrev Streams := String → List StreamEntry

/-- A run id that is missing or empty is "unknown". -/
def streamKey (e : Event φ) : String :=
  "run:" ++ match e.common.runId with
    | some runId => if runId = "" then "unknown" else runId
    | none => "unknown"

def payload (e : Event φ) : PyObject φ :=
  named [("event_type",.str e.common.eventType.value),("workflow_id",.str e.common.workflowId),
    ("run_id",optional .str e.common.runId),("timestamp",.str e.common.timestamp.isoformat),
    ("data",named e.attributes)]

def xadd (key : String) (entry : StreamEntry) (streams : Streams) : Streams :=
  Function.update streams key (streams key ++ [entry])

/-- `RedisStreamSink.write`: an exception leaves a line in the log and nothing in Redis. -/
def write (streams : Streams) (e : Event φ) : Streams :=
  match dumps f (payload e) with
  | .ok text => xadd (streamKey e) ⟨e.common.eventType.value,text⟩ streams
  | .error _ => streams

def writeAll (streams : Streams) (events : List (Event φ)) : Streams := events.foldl (write f) streams

/-! ### What the sink owes -/

/-- The payload that is read back has every field of the event. -/
def Carries (entry : StreamEntry) (e : Event φ) : Prop :=
  entry.event = e.common.eventType.value ∧ ∃ shown data, PythonJson.loads f entry.payload = some (.dict shown) ∧
    shown.lookup "data" = some (.dict data) ∧
    ∀ field ∈ e.attributes, ∃ v, data.lookup field.1 = some v ∧ ∀ w, readable f field.2 = some w → v = w

/-- One entry more, in the stream of the run, and nothing else. -/
def Records (before : Streams) (e : Event φ) (after : Streams) : Prop :=
  ∃ entry, Carries f entry e ∧ after = xadd (streamKey e) entry before

/-- Every event written is recorded, and what each stream has gained replays the events of its run. -/
structure LosesNothing (streams : Streams) (events : List (Event φ)) : Prop where
  records : ∀ written e later, events = written ++ e :: later →
    Records f (writeAll f streams written) e (write f (writeAll f streams written) e)
  replays : ∀ key, ∃ entries, writeAll f streams events key = streams key ++ entries ∧
    List.Forall₂ (Carries f) entries (events.filter fun e => streamKey e = key)

/-- The attributes of an event have names of their own. -/
theorem attributes_nodup (e : Event φ) : (e.attributes.map Prod.fst).Nodup := by
  cases e <;> simp [Event.attributes,Event.own]

theorem readable_cons {field : String × PyObject φ} {rest : List (String × PyObject φ)} {data : List (String × Json φ)}
    (shown : readableEntries f ((field :: rest).map fun field => (.str field.1,field.2)) = some data) :
    ∃ v later, readable f field.2 = some v ∧
      readableEntries f (rest.map fun field => (.str field.1,field.2)) = some later ∧
      data = (field.1,v) :: later := by
  simp only [List.map_cons,readableEntries,encodeKey,Except.toOption,Option.bind_eq_bind,Option.bind_some,
    Option.bind_eq_some_iff,Option.pure_def,Option.some.injEq] at shown
  obtain ⟨v,form,later,forms,rfl⟩ := shown
  exact ⟨v,later,form,forms,rfl⟩

theorem readable_lookup {fields : List (String × PyObject φ)} (distinct : (fields.map Prod.fst).Nodup)
    {data : List (String × Json φ)}
    (shown : readableEntries f (fields.map fun field => (.str field.1,field.2)) = some data) :
    ∀ field ∈ fields, ∃ v, data.lookup field.1 = some v ∧ readable f field.2 = some v := by
  induction fields generalizing data with
  | nil => simp
  | cons first rest ih =>
    obtain ⟨v,later,form,forms,rfl⟩ := readable_cons f shown
    obtain ⟨fresh,distinct⟩ := List.nodup_cons.mp distinct
    intro field member
    rcases List.mem_cons.mp member with rfl | member
    · exact ⟨v,by simp,form⟩
    · have other : field.1 ≠ first.1 := fun same => fresh (same ▸ List.mem_map_of_mem member)
      rw [OrderedDict.lookup_cons_other v later other]
      exact ih distinct forms field member

/-- Every event whose fields have readable forms can be carried. -/
theorem carries_of_readable (e : Event φ) {data : List (String × Json φ)}
    (shown : readable f (named e.attributes) = some (.dict data))
    (fits : PythonJson.representable (.dict data) = true) :
    Carries f ⟨e.common.eventType.value,PythonJson.dumps f (.dict [("data",.dict data)])⟩ e := by
  have whole : PythonJson.representable (.dict [("data",.dict data)]) = true := by
    simpa [PythonJson.representable,PythonJson.representableEntries] using fits
  refine ⟨rfl,_,data,PythonJson.loads_dumps f whole,by simp,fun field member => ?_⟩
  have entries : readableEntries f (e.attributes.map fun field => (.str field.1,field.2)) = some data := by
    simpa [named,readable] using shown
  obtain ⟨v,found,form⟩ := readable_lookup f (attributes_nodup e) entries field member
  refine ⟨v,found,fun w other => ?_⟩
  rw [form] at other
  exact Option.some.inj other

/-! ### What it does -/

theorem encode_optional (text : Option String) : ∃ v, encode f (optional .str text) = .ok v := by
  cases text with
  | none => exact ⟨_,rfl⟩
  | some text => exact ⟨_,rfl⟩

theorem dumps_payload (e : Event φ) : dumps f (payload e) = unserializable "EventType" := by
  obtain ⟨runId,shown⟩ := encode_optional f e.common.runId
  simp only [dumps,payload,named,List.map_cons,encode,encodeEntries,encodeKey,shown]
  rfl

@[simp] theorem write_eq (streams : Streams) (e : Event φ) : write f streams e = streams := by
  simp only [write,dumps_payload]
  rfl

@[simp] theorem writeAll_eq (streams : Streams) (events : List (Event φ)) : writeAll f streams events = streams := by
  induction events with
  | nil => rfl
  | cons e rest ih =>
    rw [writeAll,List.foldl_cons,write_eq]
    exact ih

/-- An event that is recorded makes the stream of its run longer. -/
theorem Records.changes {before after : Streams} {e : Event φ} (records : Records f before e after) :
    after ≠ before := by
  obtain ⟨entry,-,rfl⟩ := records
  intro same
  have longer := congrArg List.length (congrFun same (streamKey e))
  simp [xadd] at longer

/-- Whatever events are written, none of them is recorded. -/
theorem losesNothing_iff (streams : Streams) (events : List (Event φ)) :
    LosesNothing f streams events ↔ events = [] := by
  constructor
  · intro kept
    cases events with
    | nil => rfl
    | cons e rest => exact absurd (write_eq f _ e) (Records.changes f (kept.records [] e rest rfl))
  · rintro rfl
    exact ⟨fun written e later split => by simp at split,fun key => ⟨[],by simp [writeAll],.nil⟩⟩

/-- The start of a node is written to no stream. -/
theorem node_started_vanishes : ¬∀ (streams : Streams) (events : List (Event Unit)),
    LosesNothing PythonJson.zeroTexts streams events := by
  intro always
  have kept := always (fun _ => []) [.nodeStarted
    { timestamp := ⟨2025,1,2,3,4,5,0,by decide,by decide,by decide,by decide,by decide,by decide,by decide⟩
      runId := some "run"
      nodeId := "a"
      nodeType := "tool" }]
  obtain ⟨entry,-,written⟩ := kept.records [] _ [] rfl
  have longer := congrArg List.length (congrFun written "run:run")
  simp [writeAll,xadd,streamKey,Event.common] at longer

end IceOS.WorkflowEvents
