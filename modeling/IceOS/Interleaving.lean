import IceOS.ActionRuns
import IceOS.WorkflowRuns

/-! Runs of a workflow in which the coroutines of a level take their steps in any order: one builds
its context once it has its slots, and comes back whenever, with whatever, `execute_node` gives it. -/
namespace IceOS

open ActionRuns

inductive Coroutine where
  | waiting
  | dispatched
  | ended (outcome : Except Exn NodeExecutionResult)

def Coroutine.outcome? : Coroutine → Option (Except Exn NodeExecutionResult)
  | .ended outcome => some outcome
  | _ => none

inductive Phase where
  | between (index : Nat) (levels : List (List String))
  | level (index : Nat) (rest : List (List String)) (tasks : List (NodeConfig × Coroutine))
  | ended

/-- A coroutine's call of `execute_node`: the accumulated results at that time, the exceptions that
had come out of coroutines, and the nodes that recursive flows had run. -/
structure Dispatch where
  id : String
  seen : Results
  raised : List (String × Exn)
  reruns : List String

structure Interleaved (σ : Type) where
  state : RunState σ
  phase : Phase
  dispatches : List Dispatch := []
  raised : List (String × Exn) := []
  reruns : List String := []

inductive Turn (σ : Type) where
  | enter
  | start (i : Nat)
  | finish (i : Nat) (outcome : Except Exn NodeExecutionResult) (world : σ)
  | leave

namespace Interleaved

variable {σ : Type}

def initial (wf : Workflow) (world : σ) : Interleaved σ where
  state := Workflow.initialState world
  phase := .between 1 wf.levels

def enter (wf : Workflow) (limit : Nat) (x : Interleaved σ) : Nat → List (List String) → Interleaved σ
  | _,[] => { x with phase := .ended }
  | index,ids :: rest =>
    match wf.depthStop index with
    | some text => { x with state := x.state.addError text,phase := .ended }
    | none =>
      match Workflow.activeIds wf.graph limit ids x.state.activeCache with
      | none => { x with phase := .ended }
      | some (active,activeCache) =>
        { x with
          state := { x.state with activeCache }
          phase := .level index rest ((active.filterMap wf.nodes.get?).map (·,.waiting)) }

/-- The context is built and the node handed over in one go. -/
def start (eng : Engine σ) (x : Interleaved σ) (node : NodeConfig) : Coroutine × Interleaved σ :=
  match buildNodeContext (eng.currentContext x.state.world) node x.state.results with
  | .error e =>
    (.ended (.error e),{ x with state := x.state.log node.id .unbuilt,raised := x.raised ++ [(node.id,e)] })
  | .ok _ =>
    (.dispatched,{ x with dispatches := x.dispatches ++ [⟨node.id,x.state.results,x.raised,x.reruns⟩] })

def escaping (id : String) : Except Exn NodeExecutionResult → List (String × Exn)
  | .error e => [(id,e)]
  | .ok _ => []

def finish (x : Interleaved σ) (node : NodeConfig) (outcome : Except Exn NodeExecutionResult) (world : σ) :
    Interleaved σ :=
  { x with
    state := { x.state.log node.id (endingOf outcome) with world }
    raised := x.raised ++ escaping node.id outcome }

/-- The gather has returned: recursive flows, bookkeeping and the failure policy. -/
def leave (wf : Workflow) (eng : Engine σ) (limit : Nat) (x : Interleaved σ) (index : Nat)
    (rest : List (List String)) (outcomes : List (String × Except Exn NodeExecutionResult)) : Interleaved σ :=
  let levelResults := OrderedDict.ofList (outcomes.map Workflow.fileOutcome)
  match wf.handleRecursiveFlows eng limit levelResults x.state with
  | .error _ => { x with phase := .ended }
  | .ok flowed =>
    let x := { x with reruns := x.reruns ++ (flowed.history.drop x.state.history.length).map Attempt.id }
    match wf.bookLevel levelResults flowed with
    | .booked s | .aborted s =>
      match wf.goOn s with
      | .next s => { x with state := s,phase := .between (index + 1) rest }
      | flow => { x with state := flow.state,phase := .ended }
    | .tooDeep s | .raised _ s | .stalled s => { x with state := s,phase := .ended }

def outcomes? (tasks : List (NodeConfig × Coroutine)) : Option (List (String × Except Exn NodeExecutionResult)) :=
  tasks.mapM fun (node,c) => c.outcome?.map (node.id,·)

theorem outcomes?_cons (node : NodeConfig) (c : Coroutine) (rest : List (NodeConfig × Coroutine)) :
    outcomes? ((node,c) :: rest) =
      c.outcome?.bind fun outcome => (outcomes? rest).map ((node.id,outcome) :: ·) := by
  simp only [outcomes?,List.mapM_cons]
  cases c.outcome? with
  | none => rfl
  | some outcome => cases rest.mapM fun (node,c) => (Coroutine.outcome? c).map (node.id,·) <;> rfl

def step (wf : Workflow) (eng : Engine σ) (limit : Nat) (x : Interleaved σ) (turn : Turn σ) :
    Option (Interleaved σ) :=
  match x.phase,turn with
  | .between index levels,.enter => some (enter wf limit x index levels)
  | .level index rest tasks,.start i =>
    match tasks[i]? with
    | some (node,.waiting) =>
      let (c,x) := start eng x node
      some { x with phase := .level index rest (tasks.set i (node,c)) }
    | _ => none
  | .level index rest tasks,.finish i outcome world =>
    match tasks[i]? with
    | some (node,.dispatched) =>
      some { finish x node outcome world with phase := .level index rest (tasks.set i (node,.ended outcome)) }
    | _ => none
  | .level index rest tasks,.leave => (outcomes? tasks).map (leave wf eng limit x index rest)
  | _,_ => none

/-! ### Coroutines one after the other -/

theorem run_cons {step : Interleaved σ → Turn σ → Option (Interleaved σ)} {turn : Turn σ} {actions : List (Turn σ)}
    {x y z : Interleaved σ} (first : step x turn = some y) (later : run step actions y = some z) :
    run step (turn :: actions) x = some z := by
  simp only [run,first,Option.bind_some,later]

/-- Letting each coroutine of a gather run to its end before the next starts is one order of turns. -/
theorem gather_run (wf : Workflow) (eng : Engine σ) (limit index : Nat) (rest : List (List String))
    (nodes : List NodeConfig) (before : List (NodeConfig × Coroutine)) (x : Interleaved σ)
    (phase : x.phase = .level index rest (before ++ nodes.map (·,.waiting))) :
    ∃ actions y tasks, run (step wf eng limit) actions x = some y ∧
      y.phase = .level index rest (before ++ tasks) ∧ y.state = (Workflow.gather eng nodes x.state).2 ∧
      outcomes? tasks = some (Workflow.gather eng nodes x.state).1 := by
  induction nodes generalizing before x with
  | nil => exact ⟨[],x,[],rfl,phase,rfl,rfl⟩
  | cons node nodes ih =>
    have next : (before ++ (node :: nodes).map (·,Coroutine.waiting))[before.length]? = some (node,.waiting) := by
      simp
    have moved (c c' : Coroutine) : (before ++ (node,c) :: nodes.map (·,Coroutine.waiting)).set before.length (node,c') =
        before ++ [(node,c')] ++ nodes.map (·,.waiting) := by
      simp
    -- the coroutine has come to its end with what `processNode` makes of it
    obtain ⟨actions,y,outcome,ran,phase',state⟩ : ∃ actions y, ∃ outcome, run (step wf eng limit) actions x = some y ∧
        y.phase = .level index rest (before ++ [(node,.ended outcome)] ++ nodes.map (·,.waiting)) ∧
        (outcome,y.state) = Workflow.processNode eng node [] x.state := by
      cases built : buildNodeContext (eng.currentContext x.state.world) node x.state.results with
      | error e =>
        have first : step wf eng limit x (.start before.length) = some { (start eng x node).2 with
            phase := .level index rest (before ++ [(node,.ended (.error e))] ++ nodes.map (·,.waiting)) } := by
          simp only [step,phase,next,start,built]
          rw [List.map_cons,moved]
        refine ⟨[.start before.length],_,.error e,run_cons first rfl,rfl,?_⟩
        simp only [start,Workflow.processNode,built]
      | ok base =>
        have first : step wf eng limit x (.start before.length) = some { (start eng x node).2 with
            phase := .level index rest (before ++ [(node,.dispatched)] ++ nodes.map (·,.waiting)) } := by
          simp only [step,phase,next,start,built]
          rw [List.map_cons,moved]
        have second (outcome : Except Exn NodeExecutionResult) (world : σ) :
            step wf eng limit { (start eng x node).2 with
              phase := .level index rest (before ++ [(node,.dispatched)] ++ nodes.map (·,.waiting)) }
              (.finish before.length outcome world) = some { finish (start eng x node).2 node outcome world with
                phase := .level index rest (before ++ [(node,.ended outcome)] ++ nodes.map (·,.waiting)) } := by
          have here : (before ++ [(node,Coroutine.dispatched)] ++ nodes.map (·,Coroutine.waiting))[before.length]? =
              some (node,.dispatched) := by
            simp
          simp only [step,here]
          rw [List.append_assoc,List.singleton_append,moved]
          rfl
        cases called : eng.executeNode node (base.update []) x.state.world with
        | mk outcome world =>
          refine ⟨[.start before.length,.finish before.length outcome world],_,outcome,
            run_cons first (run_cons (second outcome world) rfl),rfl,?_⟩
          simp only [start,Workflow.processNode,built,finish,called]
    obtain ⟨more,z,tasks,ran',phase'',state',outcomes⟩ := ih (before ++ [(node,.ended outcome)]) y phase'
    refine ⟨actions ++ more,z,(node,.ended outcome) :: tasks,?_,?_,?_,?_⟩
    · rw [run_append,ran,Option.bind_some,ran']
    · rw [phase'',List.append_assoc,List.singleton_append]
    · rw [state']
      simp only [Workflow.gather,← state]
    · simp only [outcomes?,List.mapM_cons] at outcomes ⊢
      rw [outcomes]
      simp only [Workflow.gather,← state]
      rfl

/-- A level of the sequential run, if another one follows it or the run returns after it. -/
theorem level_run (wf : Workflow) (eng : Engine σ) (limit index : Nat) (ids : List String) (rest : List (List String))
    (x : Interleaved σ) (phase : x.phase = .between index (ids :: rest)) :
    (∀ s, wf.levelStep eng limit ⟨index,ids,x.state⟩ = .next s → ∃ actions y,
      run (step wf eng limit) actions x = some y ∧ y.phase = .between (index + 1) rest ∧ y.state = s) ∧
    ∀ s, wf.levelStep eng limit ⟨index,ids,x.state⟩ = .stop s → ∃ actions y,
      run (step wf eng limit) actions x = some y ∧ y.phase = .ended ∧ y.state = s := by
  have entered : step wf eng limit x .enter = some (enter wf limit x index (ids :: rest)) := by simp only [step,phase]
  simp only [Workflow.levelStep,Workflow.runLevel]
  cases depth : wf.depthStop index with
  | some text =>
    refine ⟨by simp,fun s stopped => ⟨[.enter],_,run_cons entered rfl,?_⟩⟩
    simp only [enter,depth,true_and]
    exact Workflow.Flow.stop.inj stopped
  | none =>
    cases active : Workflow.activeIds wf.graph limit ids x.state.activeCache with
    | none => simp
    | some gated =>
      obtain ⟨active',activeCache⟩ := gated
      cases stalls : eng.stalls (active'.filterMap wf.nodes.get?) x.state.world with
      | true => simp [stalls]
      | false =>
        simp only [stalls,Bool.false_eq_true,if_false,Workflow.executeLevel]
        let s := { x.state with activeCache }
        let nodes := active'.filterMap wf.nodes.get?
        obtain ⟨actions,y,tasks,ran,phase',state,outcomes⟩ := gather_run wf eng limit index rest nodes []
          (enter wf limit x index (ids :: rest)) (by simp only [enter,depth,active]; rfl)
        have left : step wf eng limit y .leave =
            some (leave wf eng limit y index rest (Workflow.gather eng nodes s).1) := by
          simp only [enter,depth,active] at outcomes
          simp only [step,phase',List.nil_append,outcomes]
          rfl
        have whole : run (step wf eng limit) (.enter :: (actions ++ [.leave])) x =
            some (leave wf eng limit y index rest (Workflow.gather eng nodes s).1) := by
          refine run_cons entered ?_
          rw [run_append,ran,Option.bind_some]
          exact run_cons left rfl
        have state' : y.state = (Workflow.gather eng nodes s).2 := by
          rw [state]
          simp only [enter,depth,active]
          rfl
        simp only [leave,state'] at whole
        cases did : wf.handleRecursiveFlows eng limit
            (.ofList ((Workflow.gather eng nodes s).1.map Workflow.fileOutcome)) (Workflow.gather eng nodes s).2 with
        | error e => simp [Except.map]
        | ok flowed =>
          rw [did] at whole
          simp only [Except.map] at whole ⊢
          cases booked : wf.bookLevel (.ofList ((Workflow.gather eng nodes s).1.map Workflow.fileOutcome)) flowed with
          | booked t | aborted t =>
            rw [booked] at whole
            simp only at whole ⊢
            rcases Workflow.goOn_cases wf t with next | stop
            · rw [next] at whole ⊢
              refine ⟨fun u same => ⟨_,_,whole,rfl,Workflow.Flow.next.inj same⟩,by simp⟩
            · rw [stop] at whole ⊢
              refine ⟨by simp,fun u same => ⟨_,_,whole,rfl,Workflow.Flow.stop.inj same⟩⟩
          | tooDeep t =>
            simp only [Workflow.bookLevel] at booked
            split at booked <;> cases booked
          | raised e t | stalled t => simp

/-- A run of the workflow that returns is one of the interleavings. -/
theorem runLevels_run (wf : Workflow) (eng : Engine σ) (limit index : Nat) (levels : List (List String))
    (x : Interleaved σ) (phase : x.phase = .between index levels) {s : RunState σ}
    (returned : wf.runLevels eng limit index levels x.state = .next s ∨
      wf.runLevels eng limit index levels x.state = .stop s) :
    ∃ actions y, run (step wf eng limit) actions x = some y ∧ y.phase = .ended ∧ y.state = s := by
  induction levels generalizing index x with
  | nil =>
    have entered : step wf eng limit x .enter = some { x with phase := .ended } := by simp only [step,phase,enter]
    refine ⟨[.enter],_,run_cons entered rfl,rfl,?_⟩
    simpa [Workflow.runLevels] using returned
  | cons ids rest ih =>
    simp only [Workflow.runLevels] at returned
    obtain ⟨goes,stops⟩ := level_run wf eng limit index ids rest x phase
    cases flow : wf.levelStep eng limit ⟨index,ids,x.state⟩ with
    | next t =>
      obtain ⟨actions,y,ran,phase',rfl⟩ := goes t flow
      rw [flow] at returned
      obtain ⟨more,z,ran',ended,state⟩ := ih (index + 1) y phase' returned
      exact ⟨actions ++ more,z,by rw [run_append,ran,Option.bind_some,ran'],ended,state⟩
    | stop t =>
      obtain ⟨actions,y,ran,ended,state⟩ := stops t flow
      rw [flow] at returned
      exact ⟨actions,y,ran,ended,state.trans (by simpa using returned)⟩
    | raised e t | stalled t => simp [flow] at returned

end Interleaved

end IceOS
