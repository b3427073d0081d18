import IceOS.WorkflowState
import Mathlib.Algebra.Ring.Int.Defs
import Mathlib.Data.Finset.Sort
import Mathlib.Data.String.Basic

/-! Checkpoints of a workflow's execution state. What is restored has the default name, no results and no failures,
and is back in its first phase: a round trip keeps a state that has nothing else. -/
namespace IceOS

open ActionRuns

inductive ExecutionPhase where
  | initializing | validating | executing | levelExecuting | nodeExecuting | finalizing | completed | failed
  deriving DecidableEq, Repr

def ExecutionPhase.value : ExecutionPhase → String
  | .initializing => "initializing"
  | .validating => "validating"
  | .executing => "executing"
  | .levelExecuting => "level_executing"
  | .nodeExecuting => "node_executing"
  | .finalizing => "finalizing"
  | .completed => "completed"
  | .failed => "failed"

/-- The execution state with what its checkpoints are about besides the nodes; `φ` are the floats. -/
structure CheckpointedState (φ : Type) extends WorkflowExecutionState where
  workflowId : String
  workflowName : String
  phase : ExecutionPhase := .initializing
  branchDecisions : OrderedDict String Bool := .empty
  totalTokens : Int := 0
  totalCost : φ
  apiCalls : Nat := 0
  lastCheckpoint : Option String := none

/-- The keys of a checkpoint's dictionary; all but the workflow's id may be missing. -/
structure Checkpoint (φ : Type) where
  workflowId : String
  workflowName : Option String := none
  timestamp : Option String := none
  phase : Option String := none
  completedNodes : Option (List String) := none
  nodeResults : Option (OrderedDict String TypeResults) := none
  branchDecisions : Option (OrderedDict String Bool) := none
  totalTokens : Option Int := none
  totalCost : Option φ := none

variable {φ : Type}

namespace CheckpointedState

/-- A new state; the constructor call of a run. -/
def fresh [Zero φ] (workflowId workflowName : String) : CheckpointedState φ :=
  { workflowId,workflowName,totalCost := 0 }

def recordBranchDecision (s : CheckpointedState φ) (nodeId : String) (decision : Bool) : CheckpointedState φ :=
  { s with branchDecisions := s.branchDecisions.set nodeId decision }

def updateTokenUsage [Add φ] (s : CheckpointedState φ) (tokens : Int) (cost : φ) : CheckpointedState φ :=
  { s with
    totalTokens := s.totalTokens + tokens
    totalCost := s.totalCost + cost
    apiCalls := s.apiCalls + 1 }

/-- The checkpoint and the state with its time. A set has no order: its elements are listed from the greatest on. -/
def createCheckpoint (now : String) (s : CheckpointedState φ) : CheckpointedState φ × Checkpoint φ :=
  ({ s with lastCheckpoint := some now },
    { workflowId := s.workflowId
      timestamp := some now
      phase := some s.phase.value
      completedNodes := some (s.completedNodes.sort (· ≥ ·))
      nodeResults := some (.ofList (s.nodeResults.items.map fun (type,results) => (type.text,results)))
      branchDecisions := some s.branchDecisions
      totalTokens := some s.totalTokens
      totalCost := some s.totalCost })

/-- The results stay in the checkpoint. -/
def fromCheckpoint [Zero φ] (data : Checkpoint φ) : CheckpointedState φ :=
  { (fresh data.workflowId (data.workflowName.getD "restored") : CheckpointedState φ) with
    completedNodes := (data.completedNodes.getD []).toFinset
    branchDecisions := data.branchDecisions.getD .empty
    totalTokens := data.totalTokens.getD 0
    totalCost := data.totalCost.getD 0 }

/-! ### The round trip -/

/-- Two states agree on what a checkpoint is meant to carry. -/
structure Agrees (s t : CheckpointedState φ) : Prop where
  workflow : s.workflowId = t.workflowId ∧ s.workflowName = t.workflowName
  phase : s.phase = t.phase
  completed : s.completedNodes = t.completedNodes
  failed : s.failedNodes = t.failedNodes
  results : ∀ type nodeId, s.filedResult type nodeId = t.filedResult type nodeId
  decisions : s.branchDecisions = t.branchDecisions
  totals : s.totalTokens = t.totalTokens ∧ s.totalCost = t.totalCost

def RoundTrip [Zero φ] (s : CheckpointedState φ) : Prop :=
  ∀ now, Agrees s (fromCheckpoint (s.createCheckpoint now).2)

/-- Nothing to lose: the name and the phase are those of every restored state, and no node has a result. -/
structure Bare (s : CheckpointedState φ) : Prop where
  name : s.workflowName = "restored"
  phase : s.phase = .initializing
  failed : s.failedNodes = ∅
  results : ∀ type nodeId, s.filedResult type nodeId = none

theorem roundTrip_iff [Zero φ] (s : CheckpointedState φ) : RoundTrip s ↔ Bare s := by
  constructor
  · intro agrees
    have same := agrees ""
    exact ⟨same.workflow.2,same.phase,same.failed,same.results⟩
  · intro bare now
    have completed : (s.completedNodes.sort (· ≥ ·)).toFinset = s.completedNodes := Finset.sort_toFinset ..
    exact ⟨⟨rfl,bare.name⟩,bare.phase,completed.symm,bare.failed,bare.results,rfl,rfl,rfl⟩

/-! ### Runs -/

inductive Action (φ : Type) where
  | node (event : NodeEvent)
  | branch (nodeId : String) (decision : Bool)
  | usage (tokens : Int) (cost : φ)
  | enter (phase : ExecutionPhase)
  | checkpoint (now : String)

def step [Add φ] (s : CheckpointedState φ) : Action φ → Option (CheckpointedState φ)
  | .node event => some { s with toWorkflowExecutionState := s.record event }
  | .branch nodeId decision => some (s.recordBranchDecision nodeId decision)
  | .usage tokens cost => some (s.updateTokenUsage tokens cost)
  | .enter phase => some { s with phase }
  | .checkpoint now => some (s.createCheckpoint now).1

/-- No node completes, and no other phase begins. -/
def Action.Restorable : Action φ → Prop
  | .node (.complete _ _) => False
  | .enter phase => phase = .initializing
  | _ => True

/-- A state of its own or one that was restored. -/
def Begun [Zero φ] (s : CheckpointedState φ) : Prop :=
  (∃ workflowId workflowName, s = fresh workflowId workflowName) ∨ ∃ data, s = fromCheckpoint data

theorem step_bare_iff [Add φ] {s t : CheckpointedState φ} {a : Action φ} (bare : Bare s) (stepped : step s a = some t) :
    Bare t ↔ a.Restorable := by
  cases a with
  | node event =>
    cases event with
    | start nodeId =>
      cases stepped
      exact ⟨fun _ => trivial,fun _ => ⟨bare.name,bare.phase,bare.failed,bare.results⟩⟩
    | complete nodeId result =>
      cases stepped
      refine ⟨fun after => ?_,False.elim⟩
      have filed := s.filedResult_complete nodeId result result.filedType nodeId
      rw [if_pos ⟨rfl,rfl⟩] at filed
      cases filed.symm.trans (after.results result.filedType nodeId)
    | skip nodeId reason =>
      cases stepped
      exact ⟨fun _ => trivial,fun _ => ⟨bare.name,bare.phase,bare.failed,bare.results⟩⟩
  | branch nodeId decision =>
    cases stepped
    exact ⟨fun _ => trivial,fun _ => ⟨bare.name,bare.phase,bare.failed,bare.results⟩⟩
  | usage tokens cost =>
    cases stepped
    exact ⟨fun _ => trivial,fun _ => ⟨bare.name,bare.phase,bare.failed,bare.results⟩⟩
  | enter phase =>
    cases stepped
    exact ⟨fun after => after.phase,fun same => ⟨bare.name,same,bare.failed,bare.results⟩⟩
  | checkpoint now =>
    cases stepped
    exact ⟨fun _ => trivial,fun _ => ⟨bare.name,bare.phase,bare.failed,bare.results⟩⟩

theorem Begun.bare_iff [Zero φ] {s : CheckpointedState φ} (begun : Begun s) : Bare s ↔ s.workflowName = "restored" := by
  refine ⟨Bare.name,fun name => ?_⟩
  rcases begun with ⟨workflowId,workflowName,rfl⟩ | ⟨data,rfl⟩
  · exact ⟨name,rfl,rfl,fun _ _ => rfl⟩
  · exact ⟨name,rfl,rfl,fun _ _ => rfl⟩

/-- The round trip keeps all states of the runs of a workflow with the default name in which no node completes and no
phase begins, and of no others. -/
theorem roundTrip_throughout_iff [Zero φ] [Add φ] {s t : CheckpointedState φ} (begun : Begun s) {actions : List (Action φ)}
    (ran : run step actions s = some t) :
    (∀ first rest u, actions = first ++ rest → run step first s = some u → RoundTrip u) ↔
      s.workflowName = "restored" ∧ ∀ a ∈ actions, a.Restorable := by
  simp only [roundTrip_iff]
  have kept := fun bare => throughout_iff (fun s a t => step_bare_iff) ran bare
  constructor
  · intro always
    have bare := always [] actions s rfl rfl
    exact ⟨bare.name,(throughout_actions_iff ran).mp ((kept bare).mp always)⟩
  · rintro ⟨name,fine⟩
    exact (kept (begun.bare_iff.mpr name)).mpr ((throughout_actions_iff ran).mpr fine)

/-- A checkpoint of a new workflow forgets its name. -/
theorem fresh_loses_name : ¬RoundTrip (fresh "w1" "report" : CheckpointedState Int) := by
  intro agrees
  have name := (agrees "").workflow.2
  exact absurd name (by decide)

/-- A restored state that only decides branches and counts tokens can be restored again. -/
theorem restored_again :
    (run step [Action.node (.start "a"),.branch "a" true,.usage 7 2,.checkpoint "t"]
      (fromCheckpoint { workflowId := "w1",completedNodes := some ["b"] } : CheckpointedState Int)).isSome = true ∧
    ∀ first rest u, [Action.node (.start "a"),.branch "a" true,.usage 7 2,.checkpoint "t"] = first ++ rest →
      run step first (fromCheckpoint { workflowId := "w1",completedNodes := some ["b"] }) = some u →
        RoundTrip (u : CheckpointedState Int) :=
  ⟨rfl,(roundTrip_throughout_iff (.inr ⟨_,rfl⟩) rfl).mpr ⟨rfl,by simp [Action.Restorable]⟩⟩

end CheckpointedState

end IceOS
