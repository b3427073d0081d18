import IceOS.ActionRuns
import IceOS.NodeModels
import Mathlib.Data.Finset.Card

/-! What a workflow's execution state records of its nodes, against the events themselves. -/
namespace IceOS

open ActionRuns

/-- A result with the node type that its metadata names. -/
structure TypedResult extends NodeExecutionResult where
  nodeType : String

inductive NodeEvent where
  | start (nodeId : String)
  | complete (nodeId : String) (result : TypedResult)
  | skip (nodeId reason : String)

def nodeTypes : List NodeType :=
  [.tool,.llm,.condition,.agent,.workflow,.loop,.parallel,.recursive,.code,.human,.monitor,.swarm]

/-- A name that is no node type counts as a tool. -/
def TypedResult.filedType (r : TypedResult) : NodeType := (nodeTypes.find? (·.text = r.nodeType)).getD .tool

abbrev TypeResults := OrderedDict String TypedResult

structure WorkflowExecutionState where
  nodeResults : OrderedDict NodeType TypeResults := .empty
  errors : List String := []
  warnings : List String := []
  executingNodes : Finset String := ∅
  completedNodes : Finset String := ∅
  failedNodes : Finset String := ∅
  skippedNodes : Finset String := ∅

/-- What the summary says of the nodes. -/
structure ExecutionSummary where
  totalNodes : Nat
  completedNodes : Nat
  failedNodes : Nat
  skippedNodes : Nat
  errors : List String
  warnings : List String

namespace WorkflowExecutionState

def recordNodeStart (s : WorkflowExecutionState) (nodeId : String) : WorkflowExecutionState :=
  { s with executingNodes := insert nodeId s.executingNodes }

def recordNodeComplete (s : WorkflowExecutionState) (nodeId : String) (result : TypedResult) :
    WorkflowExecutionState :=
  let type := result.filedType
  { s with
    executingNodes := s.executingNodes.erase nodeId
    completedNodes := insert nodeId s.completedNodes
    nodeResults := s.nodeResults.set type (((s.nodeResults.get? type).getD .empty).set nodeId result)
    failedNodes := if result.success then s.failedNodes else insert nodeId s.failedNodes
    errors :=
      match result.success,result.error with
      | false,some error => if error = "" then s.errors else s.errors ++ ["Node " ++ nodeId ++ ": " ++ error]
      | _,_ => s.errors }

def recordNodeSkipped (s : WorkflowExecutionState) (nodeId reason : String) : WorkflowExecutionState :=
  { s with
    skippedNodes := insert nodeId s.skippedNodes
    warnings := s.warnings ++ ["Node " ++ nodeId ++ " skipped: " ++ reason] }

def getExecutionSummary (s : WorkflowExecutionState) : ExecutionSummary where
  totalNodes := s.completedNodes.card + s.failedNodes.card + s.skippedNodes.card
  completedNodes := s.completedNodes.card
  failedNodes := s.failedNodes.card
  skippedNodes := s.skippedNodes.card
  errors := s.errors
  warnings := s.warnings

/-- `Workflow._lookup_node_result` -/
def lookupNodeResult (s : WorkflowExecutionState) (nodeId : String) : Option TypedResult :=
  s.nodeResults.items.findSome? fun item => item.2.get? nodeId

def record (s : WorkflowExecutionState) : NodeEvent → WorkflowExecutionState
  | .start nodeId => s.recordNodeStart nodeId
  | .complete nodeId result => s.recordNodeComplete nodeId result
  | .skip nodeId reason => s.recordNodeSkipped nodeId reason

/-- The result of a node that is filed under a type. -/
def filedResult (s : WorkflowExecutionState) (type : NodeType) (nodeId : String) : Option TypedResult :=
  (s.nodeResults.get? type).bind (·.get? nodeId)

theorem filedResult_complete (s : WorkflowExecutionState) (nodeId : String) (result : TypedResult) (type : NodeType)
    (other : String) : (s.recordNodeComplete nodeId result).filedResult type other =
      if result.filedType = type ∧ nodeId = other then some result else s.filedResult type other := by
  simp only [filedResult,recordNodeComplete,OrderedDict.get?_set]
  by_cases sameType : result.filedType = type
  · subst sameType
    by_cases same : nodeId = other
    · simp [same]
    · cases there : s.nodeResults.get? result.filedType <;> simp [same]
  · simp [sameType]

/-- Only what is filed is looked up. -/
theorem filed_of_lookup {s : WorkflowExecutionState} {nodeId : String} {result : TypedResult}
    (found : s.lookupNodeResult nodeId = some result) : ∃ type, s.filedResult type nodeId = some result := by
  obtain ⟨⟨type,results⟩,member,there⟩ := List.exists_of_findSome?_eq_some found
  refine ⟨type,?_⟩
  rw [filedResult,(OrderedDict.get?_eq_some s.nodeResults type results).mpr member]
  exact there

theorem lookup_isSome {s : WorkflowExecutionState} {type : NodeType} {nodeId : String} {result : TypedResult}
    (filed : s.filedResult type nodeId = some result) : ∃ found, s.lookupNodeResult nodeId = some found := by
  obtain ⟨results,there,inside⟩ := Option.bind_eq_some_iff.mp filed
  apply Option.isSome_iff_exists.mp
  rw [lookupNodeResult,List.findSome?_isSome_iff]
  exact ⟨(type,results),(OrderedDict.get?_eq_some _ _ _).mp there,by rw [inside]; rfl⟩

end WorkflowExecutionState

/-! ### The events -/

inductive NodeOutcome where
  | completed | failed | skipped
  deriving DecidableEq

def NodeEvent.nodeId : NodeEvent → String
  | .start id | .complete id _ | .skip id _ => id

/-- The outcome that a node's latest event gives it, where a start may count as an event or not. -/
def lastOutcome (starts : Bool) (id : String) : List NodeEvent → Option NodeOutcome
  | [] => none
  | e :: history =>
    if e.nodeId = id then
      match e with
      | .start _ => if starts then none else lastOutcome starts id history
      | .complete _ result => some (if result.success then .completed else .failed)
      | .skip _ _ => some .skipped
    else lastOutcome starts id history

def lastResult (id : String) : List NodeEvent → Option TypedResult
  | [] => none
  | .complete nodeId result :: history => if nodeId = id then some result else lastResult id history
  | _ :: history => lastResult id history

section

variable {starts : Bool} {id : String} {history : List NodeEvent}

theorem mentioned (settled : lastOutcome starts id history ≠ none) :
    id ∈ (history.map NodeEvent.nodeId).toFinset := by
  induction history with
  | nil => exact absurd rfl settled
  | cons e history ih =>
    by_cases same : e.nodeId = id
    · simp [same]
    · simp only [lastOutcome,if_neg same] at settled
      simpa [Ne.symm same] using ih settled

@[simp] theorem lastOutcome_start (nodeId : String) : lastOutcome starts id (.start nodeId :: history) =
    if nodeId = id ∧ starts = true then none else lastOutcome starts id history := by
  by_cases same : nodeId = id <;> simp [lastOutcome,NodeEvent.nodeId,same]

@[simp] theorem lastOutcome_complete (nodeId : String) (result : TypedResult) :
    lastOutcome starts id (.complete nodeId result :: history) =
      if nodeId = id then some (if result.success then .completed else .failed) else lastOutcome starts id history := rfl

@[simp] theorem lastOutcome_skip (nodeId reason : String) : lastOutcome starts id (.skip nodeId reason :: history) =
    if nodeId = id then some .skipped else lastOutcome starts id history := rfl

end

/-- The state with the events so far, latest first. -/
structure TrackedState where
  state : WorkflowExecutionState := {}
  history : List NodeEvent := []

namespace TrackedState

def step (s : TrackedState) (e : NodeEvent) : Option TrackedState := some ⟨s.state.record e,e :: s.history⟩

/-- The nodes whose latest event is an outcome. -/
def settled (starts : Bool) (s : TrackedState) : Finset String :=
  (s.history.map NodeEvent.nodeId).toFinset.filter fun id => lastOutcome starts id s.history ≠ none

structure Accounted (starts : Bool) (s : TrackedState) : Prop where
  filed : ∀ id, lastResult id s.history ≠ none → ∃! type, s.state.filedResult type id ≠ none
  completed : ∀ id, id ∈ s.state.completedNodes ↔ lastOutcome starts id s.history = some .completed
  failed : ∀ id, id ∈ s.state.failedNodes ↔ lastOutcome starts id s.history = some .failed
  skipped : ∀ id, id ∈ s.state.skippedNodes ↔ lastOutcome starts id s.history = some .skipped
  apart : Disjoint s.state.completedNodes s.state.failedNodes ∧ Disjoint s.state.completedNodes s.state.skippedNodes ∧
    Disjoint s.state.failedNodes s.state.skippedNodes
  total : s.state.getExecutionSummary.totalNodes = (s.settled starts).card

def AccountedThroughout (starts : Bool) (events : List NodeEvent) : Prop :=
  ∀ earlier later s, events = earlier ++ later → run step earlier {} = some s → Accounted starts s

/-- A node succeeds, is neither failed nor skipped, and keeps its type; a node that is skipped has not been completed. -/
def Careful (starts : Bool) (s : TrackedState) : NodeEvent → Prop
  | .start id => starts = true →
    id ∉ s.state.completedNodes ∧ id ∉ s.state.failedNodes ∧ id ∉ s.state.skippedNodes
  | .complete id result => result.success = true ∧ id ∉ s.state.failedNodes ∧ id ∉ s.state.skippedNodes ∧
    ∀ type, s.state.filedResult type id ≠ none → type = result.filedType
  | .skip id _ => id ∉ s.state.completedNodes ∧ id ∉ s.state.failedNodes

section

variable {starts : Bool} {s : TrackedState}

/-- Sets that reflect the outcomes are apart and make up the nodes with an outcome. -/
theorem Accounted.of_sets (filed : ∀ id, lastResult id s.history ≠ none → ∃! type, s.state.filedResult type id ≠ none)
    (completed : ∀ id, id ∈ s.state.completedNodes ↔ lastOutcome starts id s.history = some .completed)
    (failed : ∀ id, id ∈ s.state.failedNodes ↔ lastOutcome starts id s.history = some .failed)
    (skipped : ∀ id, id ∈ s.state.skippedNodes ↔ lastOutcome starts id s.history = some .skipped) :
    Accounted starts s := by
  have first : Disjoint s.state.completedNodes s.state.failedNodes := by
    rw [Finset.disjoint_left]
    intro id inside other
    cases ((completed id).mp inside).symm.trans ((failed id).mp other)
  have second : Disjoint s.state.completedNodes s.state.skippedNodes := by
    rw [Finset.disjoint_left]
    intro id inside other
    cases ((completed id).mp inside).symm.trans ((skipped id).mp other)
  have third : Disjoint s.state.failedNodes s.state.skippedNodes := by
    rw [Finset.disjoint_left]
    intro id inside other
    cases ((failed id).mp inside).symm.trans ((skipped id).mp other)
  refine ⟨filed,completed,failed,skipped,⟨first,second,third⟩,?_⟩
  have union : s.settled starts = s.state.completedNodes ∪ s.state.failedNodes ∪ s.state.skippedNodes := by
    ext id
    rw [settled,Finset.mem_filter,Finset.mem_union,Finset.mem_union,completed,failed,skipped]
    constructor
    · rintro ⟨_,settled⟩
      cases outcome : lastOutcome starts id s.history with
      | none => exact absurd outcome settled
      | some o => cases o <;> simp
    · intro settled
      have some : lastOutcome starts id s.history ≠ none := by
        rcases settled with (outcome | outcome) | outcome <;> rw [outcome] <;> exact Option.some_ne_none _
      exact ⟨mentioned some,some⟩
  rw [union,Finset.card_union_of_disjoint (Finset.disjoint_union_left.mpr ⟨second,third⟩),
    Finset.card_union_of_disjoint first]
  rfl

theorem start_accounted (account : Accounted starts s) {id : String} (careful : Careful starts s (.start id)) :
    Accounted starts ⟨s.state.record (.start id),.start id :: s.history⟩ := by
  have unsettled (started : starts = true) : lastOutcome starts id s.history = none := by
    obtain ⟨completed,failed,skipped⟩ := careful started
    rw [account.completed] at completed
    rw [account.failed] at failed
    rw [account.skipped] at skipped
    cases outcome : lastOutcome starts id s.history with
    | none => rfl
    | some o => cases o <;> contradiction
  have same (other : String) : lastOutcome starts other (.start id :: s.history) = lastOutcome starts other s.history := by
    rw [lastOutcome_start]
    split
    · next here =>
      rw [← here.1,unsettled here.2]
    · rfl
  refine .of_sets account.filed ?_ ?_ ?_
  · intro other
    rw [same]
    exact account.completed other
  · intro other
    rw [same]
    exact account.failed other
  · intro other
    rw [same]
    exact account.skipped other

theorem complete_accounted (account : Accounted starts s) {id : String} {result : TypedResult}
    (careful : Careful starts s (.complete id result)) :
    Accounted starts ⟨s.state.record (.complete id result),.complete id result :: s.history⟩ := by
  obtain ⟨success,unfailed,unskipped,typed⟩ := careful
  refine .of_sets ?_ ?_ ?_ ?_
  · intro other known
    simp only [WorkflowExecutionState.record,WorkflowExecutionState.filedResult_complete]
    by_cases same : id = other
    · subst same
      refine ⟨result.filedType,by simp,fun type filed => ?_⟩
      by_cases here : result.filedType = type
      · exact here.symm
      · simp only [here,false_and,if_false] at filed
        exact typed type filed
    · simp only [lastResult,if_neg same] at known
      simp only [same,and_false,if_false]
      exact account.filed other known
  · intro other
    rw [lastOutcome_complete,success]
    simp only [WorkflowExecutionState.record,WorkflowExecutionState.recordNodeComplete,Finset.mem_insert,
      account.completed]
    by_cases same : id = other
    · simp [same]
    · simp [same,Ne.symm same]
  · intro other
    rw [lastOutcome_complete,success]
    simp only [WorkflowExecutionState.record,WorkflowExecutionState.recordNodeComplete,success,if_true]
    split
    · next same => simpa [← same] using unfailed
    · exact account.failed other
  · intro other
    rw [lastOutcome_complete,success]
    simp only [WorkflowExecutionState.record,WorkflowExecutionState.recordNodeComplete]
    split
    · next same => simpa [← same] using unskipped
    · exact account.skipped other

theorem skip_accounted (account : Accounted starts s) {id reason : String} (careful : Careful starts s (.skip id reason)) :
    Accounted starts ⟨s.state.record (.skip id reason),.skip id reason :: s.history⟩ := by
  obtain ⟨uncompleted,unfailed⟩ := careful
  refine .of_sets account.filed ?_ ?_ ?_
  · intro other
    rw [lastOutcome_skip]
    split
    · next same => simpa [← same,WorkflowExecutionState.record,WorkflowExecutionState.recordNodeSkipped] using uncompleted
    · exact account.completed other
  · intro other
    rw [lastOutcome_skip]
    split
    · next same => simpa [← same,WorkflowExecutionState.record,WorkflowExecutionState.recordNodeSkipped] using unfailed
    · exact account.failed other
  · intro other
    rw [lastOutcome_skip]
    simp only [WorkflowExecutionState.record,WorkflowExecutionState.recordNodeSkipped,Finset.mem_insert,account.skipped]
    by_cases same : id = other
    · simp [same]
    · simp [same,Ne.symm same]

/-- A member of one of the sets after an event has the outcome that the event gives it. -/
theorem careful_of_accounted {e : NodeEvent}
    (account : Accounted starts ⟨s.state.record e,e :: s.history⟩) : Careful starts s e := by
  cases e with
  | start id =>
    intro started
    have outcome : lastOutcome starts id (.start id :: s.history) = none := by
      rw [lastOutcome_start,if_pos ⟨rfl,started⟩]
    refine ⟨fun inside => ?_,fun inside => ?_,fun inside => ?_⟩
    · cases outcome.symm.trans ((account.completed id).mp inside)
    · cases outcome.symm.trans ((account.failed id).mp inside)
    · cases outcome.symm.trans ((account.skipped id).mp inside)
  | complete id result =>
    have outcome : lastOutcome starts id (.complete id result :: s.history) =
        some (if result.success then .completed else .failed) := if_pos rfl
    have completed := (account.completed id).mp (Finset.mem_insert_self id s.state.completedNodes)
    have success : result.success = true := by
      by_contra fails
      rw [outcome,if_neg fails] at completed
      cases completed
    refine ⟨success,fun inside => ?_,fun inside => ?_,fun type filed => ?_⟩
    · have there : id ∈ (s.state.recordNodeComplete id result).failedNodes := by
        simpa [WorkflowExecutionState.recordNodeComplete,success] using inside
      cases completed.symm.trans ((account.failed id).mp there)
    · cases completed.symm.trans ((account.skipped id).mp inside)
    · obtain ⟨only,_,unique⟩ := account.filed id (by simp [lastResult])
      have kept : (s.state.recordNodeComplete id result).filedResult type id ≠ none := by
        rw [WorkflowExecutionState.filedResult_complete]
        split
        · exact Option.some_ne_none _
        · exact filed
      have new : (s.state.recordNodeComplete id result).filedResult result.filedType id ≠ none := by
        rw [WorkflowExecutionState.filedResult_complete,if_pos ⟨rfl,rfl⟩]
        exact Option.some_ne_none _
      exact (unique type kept).trans (unique result.filedType new).symm
  | skip id reason =>
    have outcome : lastOutcome starts id (.skip id reason :: s.history) = some .skipped := if_pos rfl
    refine ⟨fun inside => ?_,fun inside => ?_⟩
    · cases outcome.symm.trans ((account.completed id).mp inside)
    · cases outcome.symm.trans ((account.failed id).mp inside)

theorem step_accounted (account : Accounted starts s) {e : NodeEvent} {t : TrackedState} (stepped : s.step e = some t) :
    Accounted starts t ↔ Careful starts s e := by
  cases stepped
  refine ⟨careful_of_accounted,fun careful => ?_⟩
  cases e with
  | start id => exact start_accounted account careful
  | complete id result => exact complete_accounted account careful
  | skip id reason => exact skip_accounted account careful

theorem start_state (starts : Bool) : Accounted starts {} :=
  .of_sets (fun _ known => absurd rfl known) (fun _ => by simp [lastOutcome]) (fun _ => by simp [lastOutcome])
    (fun _ => by simp [lastOutcome])

def Filed (s : TrackedState) : Prop := ∀ id result, lastResult id s.history = some result →
  s.state.filedResult result.filedType id = some result

/-- Under its type a node's latest result is filed. -/
theorem latest_filed {events : List NodeEvent} (ran : run step events {} = some s) (id : String) (result : TypedResult)
    (known : lastResult id s.history = some result) : s.state.filedResult result.filedType id = some result := by
  have kept : ∀ (u : TrackedState) (e : NodeEvent) (v : TrackedState), u.Filed → u.step e = some v → v.Filed := by
    rintro u e _ holds ⟨⟩ id result known
    cases e with
    | start nodeId => exact holds id result known
    | skip nodeId reason => exact holds id result known
    | complete nodeId new =>
      simp only [WorkflowExecutionState.record,WorkflowExecutionState.filedResult_complete]
      simp only [lastResult] at known
      split at known
      · next same =>
        cases known
        rw [if_pos ⟨rfl,same⟩]
      · next other =>
        rw [if_neg fun both => other both.2]
        exact holds id result known
  exact run_always kept ran (fun _ _ known => by cases known) id result known

/-- Where a node is filed under one type only, its latest result is looked up. -/
theorem lookup_latest {events : List NodeEvent} (ran : run step events {} = some s) (account : Accounted starts s)
    {id : String} {result : TypedResult} (known : lastResult id s.history = some result) :
    s.state.lookupNodeResult id = some result := by
  have filed := latest_filed ran id result known
  obtain ⟨found,looked⟩ := WorkflowExecutionState.lookup_isSome filed
  obtain ⟨type,there⟩ := WorkflowExecutionState.filed_of_lookup looked
  obtain ⟨only,_,unique⟩ := account.filed id (by rw [known]; exact Option.some_ne_none _)
  have same : type = result.filedType :=
    (unique type (by simp [there])).trans (unique result.filedType (by simp [filed])).symm
  rw [same,filed] at there
  rw [looked,there]

end

/-- The accounting holds all along exactly where every completion is a success of a node that was neither failed nor
skipped nor of another type, and no node with a result is skipped. -/
theorem accounted_iff (starts : Bool) (events : List NodeEvent) :
    AccountedThroughout starts events ↔ Throughout step (Careful starts) events {} := by
  obtain ⟨t,ran⟩ := run_total (fun s e => ⟨_,(rfl : step s e = some _)⟩) events {}
  exact throughout_iff (fun s e t account stepped => step_accounted account stepped) ran (start_state starts)

/-- A node that failed counts as completed too. -/
theorem failure_counted_twice : ¬∀ starts events, AccountedThroughout starts events := by
  intro always
  have account := always true [.complete "a" { success := false,nodeType := "tool" }] [_] [] _ rfl rfl
  have apart := Finset.disjoint_left.mp account.apart.1
  exact absurd (by decide) (apart (a := "a") (by decide))

end TrackedState

end IceOS
