import IceOS.ControlFlow
import IceOS.ExceptRules

/-! The tasks of a parallel node in any order. All of them are created before the first one runs, and the number that
`max_concurrency` declares is read nowhere; a turn takes one task from one suspension to the next. -/
namespace IceOS.ParallelBranches

open ActionRuns

/-- The fields of a parallel node. -/
structure ParallelNodeConfig where
  id : String
  branches : List (List NodeConfig)
  maxConcurrency : Option Int := none
  mergeOutputs : Bool := true

/-- Where the coroutine of a branch stands; `suspended` waits for what `node` comes to. -/
inductive Progress where
  | created
  | suspended (node : NodeConfig) (rest : List NodeConfig) (ctx results : Context)
  | ended (outcome : Except Exn Context)

def Progress.outcome? : Progress → Option (Except Exn Context)
  | .ended outcome => some outcome
  | _ => none

/-- A task and how often its coroutine has been started. -/
structure BranchTask where
  nodes : List NodeConfig
  starts : Nat := 0
  progress : Progress := .created

namespace BranchTask

def outcome? (t : BranchTask) : Option (Except Exn Context) := t.progress.outcome?

/-- It has started and not finished. -/
def active (t : BranchTask) : Bool := t.starts ≠ 0 ∧ t.outcome? = none

theorem active_iff {t : BranchTask} : t.active = true ↔ t.starts ≠ 0 ∧ t.outcome? = none := decide_eq_true_iff

end BranchTask

structure State where
  tasks : List BranchTask
  cancelled : Bool := false
  result : Option (Except Exn NodeExecutionResult) := none

def State.active (s : State) : Nat := s.tasks.countP (·.active)

/-- A task goes on, with what the nested executions come to that do not suspend; the node is cancelled; it takes up
what its tasks came to. -/
inductive Turn where
  | go (i : Nat) (answers : List (Except Exn NodeExecutionResult))
  | cancel
  | leave

section executor

variable (graph : DependencyGraph) (cfg : ParallelNodeConfig) (ctx : Context)

def recorded (r : NodeExecutionResult) : Value :=
  if r.success then r.output else .dict [("error",(r.error.map Value.str).getD .none)]

/-- The loop of a branch to its next suspension. Before a nested execution can suspend, the level of its temporary id
is looked up. -/
def advance : List NodeConfig → Context → Context → List (Except Exn NodeExecutionResult) → Progress
  | [],_,results,_ => .ended (.ok results)
  | node :: rest,ctx,results,answers =>
    match graph.getNodeLevel (tempId cfg.id node.id) with
    | .error e => .ended (.error e)
    | .ok _ =>
      match answers with
      | [] => .suspended node rest ctx results
      | .error e :: _ => .ended (.error e)
      | .ok r :: answers => advance rest (ctx.set node.id r.output) (results.set node.id (recorded r)) answers

/-- `execute_branch`, called. -/
def executeBranch (index : Nat) (nodes : List NodeConfig) (answers : List (Except Exn NodeExecutionResult)) : Progress :=
  advance graph cfg nodes (ctx.set "branch_index" (.int index)) .empty answers

def cancelledError : Exn := ⟨"","CancelledError()"⟩

/-- A task that is cancelled before its first turn never starts; one that is suspended gets the exception there, and
comes back with whatever its nested execution makes of it. -/
def BranchTask.go (cancelled : Bool) (index : Nat) (t : BranchTask) (answers : List (Except Exn NodeExecutionResult)) :
    Option BranchTask :=
  match t.progress,answers with
  | .created,answers =>
    some (if cancelled then { t with progress := .ended (.error cancelledError) }
      else { t with starts := t.starts + 1,progress := executeBranch graph cfg ctx index t.nodes answers })
  | .suspended node rest ctx results,.ok r :: answers =>
    some { t with progress := advance graph cfg rest (ctx.set node.id r.output) (results.set node.id (recorded r)) answers }
  | .suspended _ _ _ _,.error e :: _ => some { t with progress := .ended (.error e) }
  | _,_ => none

/-- The gathered results; the exception of a branch is put among them. -/
def processed (outcomes : List (Except Exn Context)) : List Context :=
  outcomes.mapIdx fun index outcome =>
    match outcome with
    | .ok results => results
    | .error e => .ofList [("branch_error",.str e.text),("branch_index",.int index)]

def collected (outcomes : List (Except Exn Context)) : NodeExecutionResult :=
  let merged := ExecutorRuntime.mergeOutputs (processed outcomes)
  let results := if cfg.mergeOutputs then ExecutorRuntime.reportBranches merged [] (processed outcomes)
    else (processed outcomes).map fun results => .dict results.items
  let output := [("branch_results",.list results),
    ("completed_branches",.list ((List.range cfg.branches.length).map fun index => .int index)),
    ("strategy",.str "all")]
  { output := .dict (if cfg.mergeOutputs then output ++ [("merged",.dict merged.items)] else output) }

/-- The tasks are created, all at once. -/
def start : State :=
  if cfg.branches = [] then
    { tasks := [],result := some (.ok (ExecutorRuntime.failureOf (valueError s!"Parallel node {cfg.id} has no branches"))) }
  else { tasks := cfg.branches.map fun nodes => { nodes } }

/-- The node comes back when all its tasks have ended. -/
def step (s : State) (turn : Turn) : Option State :=
  match s.result,turn with
  | some _,_ => none
  | none,.go i answers =>
    (s.tasks[i]?).bind fun t => (t.go graph cfg ctx s.cancelled i answers).map fun t => { s with tasks := s.tasks.set i t }
  | none,.cancel => some { s with cancelled := true }
  | none,.leave =>
    (s.tasks.mapM BranchTask.outcome?).map fun outcomes =>
      { s with result := some (if s.cancelled then .error cancelledError else .ok (collected cfg outcomes)) }

/-! ### What is promised -/

/-- In every order of the turns at most `m` branches are under way, and when the node comes back normally each has been
started once. -/
structure KeepsLimit (m : Int) : Prop where
  bounded : ∀ turns s, run (step graph cfg ctx) turns (start cfg) = some s → (s.active : Int) ≤ m
  once : ∀ turns s r, run (step graph cfg ctx) turns (start cfg) = some s → s.result = some (.ok r) → r.success = true →
    s.tasks.map (fun t => (t.nodes,t.starts)) = cfg.branches.map (·,1)

/-- The branch begins with a node whose temporary id has a level: it can be suspended there. -/
def opens (nodes : List NodeConfig) : Bool :=
  nodes.head?.any fun node => (graph.nodeLevels.get? (tempId cfg.id node.id)).isSome

def openers : Nat := cfg.branches.countP (opens graph cfg)

end executor

/-! ### What every turn keeps -/

section invariant

variable {graph : DependencyGraph} {cfg : ParallelNodeConfig} {ctx : Context}

/-- What holds of a task between the turns. -/
def BranchTask.Sound (graph : DependencyGraph) (cfg : ParallelNodeConfig) (cancelled : Bool) (t : BranchTask) : Prop :=
  match t.progress with
  | .created => t.starts = 0
  | .suspended _ _ _ _ => t.starts = 1 ∧ opens graph cfg t.nodes = true
  | .ended _ => t.starts = 1 ∨ cancelled = true

structure Sound (graph : DependencyGraph) (cfg : ParallelNodeConfig) (s : State) : Prop where
  tasks : s.tasks.map (·.nodes) = cfg.branches
  each : ∀ t ∈ s.tasks, t.Sound graph cfg s.cancelled
  returned : ∀ r, s.result = some (.ok r) → r.success = true → s.cancelled = false ∧ ∀ t ∈ s.tasks, t.outcome? ≠ none

/-- A branch that is suspended begins with a node that has a level. -/
theorem advance_opens {nodes rest : List NodeConfig} {node : NodeConfig} {before results ctx results' : Context}
    {answers : List (Except Exn NodeExecutionResult)}
    (suspended : advance graph cfg nodes before results answers = .suspended node rest ctx results') :
    opens graph cfg nodes = true := by
  cases nodes with
  | nil => simp [advance] at suspended
  | cons first later =>
    simp only [advance,DependencyGraph.getNodeLevel] at suspended
    cases level : graph.nodeLevels.get? (tempId cfg.id first.id) with
    | none => simp [level] at suspended
    | some n => simp [opens,level]

/-- A branch that is under way in the middle is suspended or ended in the end. -/
theorem advance_started (nodes : List NodeConfig) (ctx results : Context)
    (answers : List (Except Exn NodeExecutionResult)) : advance graph cfg nodes ctx results answers ≠ .created := by
  induction nodes generalizing ctx results answers with
  | nil => simp [advance]
  | cons node rest ih =>
    simp only [advance]
    split
    · simp
    · split
      · simp
      · simp
      · exact ih _ _ _

/-- One start, and a suspension only where the branch can have one. -/
theorem BranchTask.Sound.started {cancelled : Bool} {t : BranchTask} (once : t.starts = 1) (began : t.progress ≠ .created)
    (opened : ∀ node rest ctx results, t.progress = .suspended node rest ctx results → opens graph cfg t.nodes = true) :
    t.Sound graph cfg cancelled := by
  unfold BranchTask.Sound
  split
  case h_1 created => exact absurd created began
  case h_2 node rest ctx results suspended => exact ⟨once,opened _ _ _ _ suspended⟩
  case h_3 => exact .inl once

theorem go_sound {t t' : BranchTask} {cancelled : Bool} {index : Nat} {answers : List (Except Exn NodeExecutionResult)}
    (sound : t.Sound graph cfg cancelled) (went : t.go graph cfg ctx cancelled index answers = some t') :
    t'.Sound graph cfg cancelled ∧ t'.nodes = t.nodes := by
  obtain ⟨nodes,starts,progress⟩ := t
  cases progress with
  | created =>
    obtain rfl : starts = 0 := sound
    obtain rfl := Option.some.inj went
    cases cancelled with
    | true => exact ⟨.inr rfl,rfl⟩
    | false => exact ⟨.started rfl (advance_started _ _ _ _) fun _ _ _ _ suspended => advance_opens suspended,rfl⟩
  | suspended node rest ctx' results =>
    obtain ⟨once,opened⟩ := sound
    match answers with
    | [] => cases went
    | .error e :: _ =>
      obtain rfl := Option.some.inj went
      exact ⟨.inl once,rfl⟩
    | .ok r :: more =>
      obtain rfl := Option.some.inj went
      exact ⟨.started once (advance_started _ _ _ _) fun _ _ _ _ _ => opened,rfl⟩
  | ended outcome => cases went

theorem start_sound : Sound graph cfg (start cfg) := by
  unfold start
  split
  case isTrue none =>
    refine ⟨none.symm,fun t member => (List.not_mem_nil member).elim,fun r back normal => ?_⟩
    obtain rfl := Except.ok.inj (Option.some.inj back)
    cases normal
  case isFalse =>
    refine ⟨by simp [Function.comp_def],fun t member => ?_,fun r back => by cases back⟩
    obtain ⟨nodes,-,rfl⟩ := List.mem_map.mp member
    rfl

theorem step_sound {s s' : State} {turn : Turn} (sound : Sound graph cfg s) (went : step graph cfg ctx s turn = some s') :
    Sound graph cfg s' := by
  cases result : s.result with
  | some r => simp [step,result] at went
  | none =>
    cases turn with
    | go i answers =>
      simp only [step,result,Option.bind_eq_some_iff,Option.map_eq_some_iff] at went
      obtain ⟨t,here,t',turned,rfl⟩ := went
      obtain ⟨inside,rfl⟩ := List.getElem?_eq_some_iff.mp here
      obtain ⟨after,same⟩ := go_sound (sound.each _ (List.getElem_mem inside)) turned
      refine ⟨?_,fun u member => ?_,fun r back => by simp at back⟩
      · rw [List.map_set,same,← sound.tasks]
        apply List.ext_getElem <;> simp [List.getElem_set]
        rintro j _ rfl
        rfl
      · rcases List.mem_or_eq_of_mem_set member with old | rfl
        · exact sound.each u old
        · exact after
    | cancel =>
      simp only [step,result,Option.some.injEq] at went
      obtain rfl := went
      refine ⟨sound.tasks,fun t member => ?_,fun r back => by simp at back⟩
      have before := sound.each t member
      unfold BranchTask.Sound at before ⊢
      split <;> simp_all
    | leave =>
      simp only [step,result,Option.map_eq_some_iff] at went
      obtain ⟨outcomes,gathered,rfl⟩ := went
      refine ⟨sound.tasks,sound.each,fun r back _ => ?_⟩
      cases cancelled : s.cancelled with
      | true => simp [cancelled] at back
      | false =>
        refine ⟨rfl,fun t member => ?_⟩
        obtain ⟨outcome,-,ended⟩ := ExceptRules.related_mem (ExceptRules.mapM_eq_some.mp gathered) t member
        simp [ended]

theorem run_sound {turns : List Turn} {s : State} (ran : run (step graph cfg ctx) turns (start cfg) = some s) :
    Sound graph cfg s :=
  run_always (fun _ _ _ sound went => step_sound sound went) ran start_sound

theorem Sound.bounded {s : State} (sound : Sound graph cfg s) : s.active ≤ openers graph cfg := by
  have suspended : ∀ t ∈ s.tasks, t.active = true → opens graph cfg t.nodes = true := by
    intro t member active
    have here := sound.each t member
    obtain ⟨started,unfinished⟩ := BranchTask.active_iff.mp active
    unfold BranchTask.Sound at here
    split at here
    case h_1 => exact absurd here started
    case h_2 => exact here.2
    case h_3 ended => simp [BranchTask.outcome?,ended,Progress.outcome?] at unfinished
  calc s.active ≤ s.tasks.countP (opens graph cfg ∘ (·.nodes)) := List.countP_mono_left suspended
    _ = openers graph cfg := by rw [← List.countP_map,sound.tasks,openers]

theorem Sound.once {s : State} (sound : Sound graph cfg s) {r : NodeExecutionResult} (back : s.result = some (.ok r))
    (normal : r.success = true) : s.tasks.map (fun t => (t.nodes,t.starts)) = cfg.branches.map (·,1) := by
  obtain ⟨kept,ended⟩ := sound.returned r back normal
  rw [← sound.tasks,List.map_map]
  refine List.map_congr_left fun t member => ?_
  have here := sound.each t member
  have finished := ended t member
  unfold BranchTask.Sound at here
  split at here
  case h_1 created => simp [BranchTask.outcome?,created,Progress.outcome?] at finished
  case h_2 suspended => simp [BranchTask.outcome?,suspended,Progress.outcome?] at finished
  case h_3 => simpa [kept] using here

end invariant

/-! ### The limit that nothing enforces -/

section launch

variable (graph : DependencyGraph) (cfg : ParallelNodeConfig) (ctx : Context)

/-- The task of a branch that was started, where no nested execution ends before it is suspended. -/
def launched (index : Nat) (nodes : List NodeConfig) : BranchTask :=
  { nodes,starts := 1,progress := executeBranch graph cfg ctx index nodes [] }

theorem launched_active (index : Nat) (nodes : List NodeConfig) :
    (launched graph cfg ctx index nodes).active = opens graph cfg nodes := by
  cases nodes with
  | nil => rfl
  | cons node rest =>
    rw [Bool.eq_iff_iff,BranchTask.active_iff]
    simp only [launched,executeBranch,advance,BranchTask.outcome?,DependencyGraph.getNodeLevel,opens,List.head?_cons,
      Option.any_some]
    cases graph.nodeLevels.get? (tempId cfg.id node.id) <;> simp [Progress.outcome?]

/-- The first `k` branches have been started. -/
def begun (k : Nat) : List BranchTask :=
  cfg.branches.mapIdx fun i nodes => if i < k then launched graph cfg ctx i nodes else { nodes }

theorem run_launch (nonempty : cfg.branches ≠ []) {k : Nat} (within : k ≤ cfg.branches.length) :
    run (step graph cfg ctx) ((List.range k).map (.go · [])) (start cfg) = some { tasks := begun graph cfg ctx k } := by
  induction k with
  | zero =>
    have none : begun graph cfg ctx 0 = cfg.branches.map fun nodes => { nodes } := by
      apply List.ext_getElem <;> simp [begun]
    simp [run,start,nonempty,none]
  | succ k ih =>
    have inside : k < cfg.branches.length := within
    have here : (begun graph cfg ctx k)[k]? = some { nodes := cfg.branches[k] } := by
      simp [begun,inside]
    have turned :
        (begun graph cfg ctx k).set k (launched graph cfg ctx k cfg.branches[k]) = begun graph cfg ctx (k + 1) := by
      refine List.ext_getElem (by simp [begun]) fun j _ _ => ?_
      simp only [begun,List.getElem_set,List.getElem_mapIdx]
      by_cases same : k = j
      · subst j
        simp
      · simp [same,show j < k + 1 ↔ j < k by omega]
    rw [List.range_succ,List.map_append,run_append,ih (by omega),Option.bind_some]
    simp only [List.map_cons,List.map_nil,run,step,here,Option.bind_some,BranchTask.go,Bool.false_eq_true,if_false,
      Option.map_some]
    rw [← turned]
    rfl

theorem begun_active : (begun graph cfg ctx cfg.branches.length).countP (·.active) = openers graph cfg := by
  have flags : (begun graph cfg ctx cfg.branches.length).map (·.active) = cfg.branches.map (opens graph cfg) := by
    refine List.ext_getElem (by simp [begun]) fun j _ inside => ?_
    rw [List.length_map] at inside
    simp [begun,inside,launched_active]
  have counted := congrArg (List.countP id) flags
  simpa [List.countP_map,Function.comp_def,openers] using counted

end launch

/-- The limit is kept exactly if no more branches than it allows can be suspended at their first node; what does not
depend on it is that each branch is started once. -/
theorem keepsLimit_iff (graph : DependencyGraph) (cfg : ParallelNodeConfig) (ctx : Context) :
    (∀ m, cfg.maxConcurrency = some m → 1 ≤ m → KeepsLimit graph cfg ctx m) ↔
      ∀ m, cfg.maxConcurrency = some m → 1 ≤ m → (openers graph cfg : Int) ≤ m := by
  refine forall₃_congr fun m _ positive => ⟨fun keeps => ?_,fun few => ?_⟩
  · by_cases nonempty : cfg.branches = []
    · simp only [openers,nonempty,List.countP_nil]
      omega
    · have most := keeps.bounded _ _ (run_launch graph cfg ctx nonempty le_rfl)
      rwa [State.active,begun_active] at most
  · refine ⟨fun turns s ran => ?_,fun turns s r ran => (run_sound ran).once⟩
    have bounded := (run_sound ran).bounded
    omega

def fanned : List NodeConfig :=
  [{ id := "fan",type := .parallel },{ id := "fan.a",type := .tool },{ id := "fan.b",type := .tool }]

def fannedWorkflow : Workflow := .ofNodes {} fanned (by decide +kernel)

/-- One at a time, with two branches of one node each. -/
def fan : ParallelNodeConfig where
  id := "fan"
  branches := [[{ id := "a",type := .tool }],[{ id := "b",type := .tool }]]
  maxConcurrency := some 1

/-- Both branches are started before the first of them ends. -/
theorem fan_exceeds : ¬KeepsLimit fannedWorkflow.graph fan .empty 1 := by
  intro keeps
  have both := keeps.bounded [.go 0 [],.go 1 []] _ rfl
  exact absurd both (by decide)

end IceOS.ParallelBranches
