import IceOS.RecursiveFlows
import IceOS.RunTrails

/-! What a level leaves behind for a recursive node. The flows of the level record every further iteration
among the accumulated results, but the caller then files the results of the level's own coroutines over
them, so what is reported is the first iteration. -/
namespace IceOS

namespace RecursiveRuntime

variable {ω : Type}

/-- The execution gets as far as the inner agent or workflow. -/
def reachesInner (rt : RecursiveRuntime ω) (node : NodeConfig) (ctx : Context) : Bool :=
  match rt.model.compare .gtE (counter ctx) (.int (rt.settings node).maxIterations) with
  | .ok false => !rt.converged (rt.settings node) ctx &&
    match rt.model.binary .add (counter ctx) (.int 1) with
    | .ok next => (enhance (rt.settings node) node.id next ctx).toOption.isSome
    | .error _ => false
  | _ => false

/-- An execution that does not get there neither depends on the inner executors nor changes the world. -/
theorem run_idle (rt : RecursiveRuntime ω) {node : NodeConfig} {ctx : Context} (idle : rt.reachesInner node ctx = false)
    (w : ω) (inner : String → InnerRef → Context → ω → Except Exn NodeExecutionResult × ω) :
    { rt with inner }.run node ctx w = rt.run node ctx w ∧ (rt.run node ctx w).2 = w := by
  simp only [reachesInner] at idle
  simp only [run]
  cases compared : rt.model.compare .gtE (counter ctx) (.int (rt.settings node).maxIterations) with
  | error e => exact ⟨rfl,rfl⟩
  | ok reached =>
    cases reached with
    | true => exact ⟨rfl,rfl⟩
    | false =>
      rw [compared] at idle
      have same : { rt with inner }.converged (rt.settings node) ctx = rt.converged (rt.settings node) ctx := rfl
      cases holds : rt.converged (rt.settings node) ctx with
      | true => simp only [same,holds,if_true,and_self]
      | false =>
        simp only [same,holds,iterate]
        cases added : rt.model.binary .add (counter ctx) (.int 1) with
        | error e => exact ⟨rfl,rfl⟩
        | ok next =>
          cases enhanced : enhance (rt.settings node) node.id next ctx with
          | error e => exact ⟨by simp only [enhanced],by simp only [enhanced]; rfl⟩
          | ok context => simp [holds,added,enhanced,Except.toOption] at idle

end RecursiveRuntime

/-- The engine with a log of the calls of `execute_node`. -/
def Engine.logged {σ : Type} (eng : Engine σ) : Engine (σ × List (NodeConfig × Context)) where
  executeNode node ctx w :=
    let (outcome,s) := eng.executeNode node ctx w.1
    (outcome,(s,w.2 ++ [(node,ctx)]))
  currentContext w := eng.currentContext w.1
  stalls nodes w := eng.stalls nodes w.1

namespace Workflow

variable {σ : Type}

theorem firstContexts_cons (eng : Engine σ) (node : NodeConfig) (rest : List NodeConfig) (s : RunState σ) :
    firstContexts eng (node :: rest) s =
      firstContexts eng [node] s ++ firstContexts eng rest (processNode eng node [] s).2 := by
  simp only [firstContexts]
  cases buildNodeContext (eng.currentContext s.world) node s.results <;> rfl

/-- The coroutines of a level run their nodes in their first contexts, each once. -/
theorem gather_logged (eng : Engine σ) (nodes : List NodeConfig) (s : RunState (σ × List (NodeConfig × Context))) :
    (gather eng.logged nodes s).2.world.2 = s.world.2 ++ firstContexts eng.logged nodes s := by
  induction nodes generalizing s with
  | nil => simp [gather,firstContexts]
  | cons node rest ih =>
    have first : (processNode eng.logged node [] s).2.world.2 = s.world.2 ++ firstContexts eng.logged [node] s := by
      simp only [processNode,firstContexts]
      cases buildNodeContext (eng.logged.currentContext s.world) node s.results with
      | error e => simp [RunState.log]
      | ok ctx => rfl
    have later := ih (processNode eng.logged node [] s).2
    simp only [gather]
    rw [later,first,firstContexts_cons eng.logged node rest,List.append_assoc]

/-- No call and no attempt takes anything out of the log. -/
theorem logged_respected (eng : Engine σ) : Respected eng.logged fun before after => before.2.1.2 <+: after.2.1.2 where
  refl _ := List.prefix_rfl
  trans first second := first.trans second
  calls _ world _ _ _ _ := List.prefix_append world.2 _
  misses _ _ _ _ _ _ _ := List.prefix_rfl

end Workflow

/-- The executions of a level by its recursive flows: the log from the end of the gather on. -/
def Workflow.laterContexts {σ : Type} (eng : Engine σ) (nodes : List NodeConfig)
    (s t : RunState (σ × List (NodeConfig × Context))) : List (NodeConfig × Context) :=
  t.world.2.drop (s.world.2.length + (firstContexts eng.logged nodes s).length)

theorem Workflow.executeLevel_ok {σ : Type} {wf : Workflow} {eng : Engine σ} {limit : Nat} {nodes : List NodeConfig}
    {s t : RunState σ} {levelResults : Results} (ran : wf.executeLevel eng limit nodes s = .ok (levelResults,t)) :
    levelResults = OrderedDict.ofList ((gather eng nodes s).1.map fileOutcome) ∧
      wf.handleRecursiveFlows eng limit levelResults (gather eng nodes s).2 = .ok t := by
  obtain ⟨t',flowed,same⟩ := ExceptRules.map_eq_ok.mp ran
  cases same
  exact ⟨rfl,flowed⟩

/-- The log of a level: the executions by its coroutines, then those by its flows. -/
theorem Workflow.executeLevel_log {σ : Type} {wf : Workflow} {eng : Engine σ} {limit : Nat} {nodes : List NodeConfig}
    {s t : RunState (σ × List (NodeConfig × Context))} {levelResults : Results}
    (ran : wf.executeLevel eng.logged limit nodes s = .ok (levelResults,t)) :
    t.world.2 = s.world.2 ++ firstContexts eng.logged nodes s ++ laterContexts eng nodes s t := by
  have grown := handleRecursiveFlows_respects (logged_respected eng) (executeLevel_ok ran).2
  simp only [RunState.trail] at grown
  rw [gather_logged] at grown
  obtain ⟨rest,parts⟩ := grown
  rw [laterContexts,← parts,← List.length_append,List.drop_left]

end IceOS
