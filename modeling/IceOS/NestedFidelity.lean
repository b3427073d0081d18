import IceOS.NestedNodes

/-! When nested nodes run as themselves. Where every temporary id is the id of a top-level node and
calls side by side use different ones, a step of the tasks is a step of scoped bindings. -/
namespace IceOS

open ScopedBindings

namespace NestedCall

variable (call : NestedCall)

theorem restore_get? (nodes : NodeMap) :
    (call.restore nodes).get? = Function.update nodes.get? call.tempId call.originalNode := by
  obtain ⟨id,node,original⟩ := call
  cases original with
  | some original => exact nodes.get?_set_eq_update id original
  | none => exact nodes.get?_erase_eq_update id

theorem restore_keys {nodes : NodeMap} (hides : call.originalNode.isSome) (present : call.tempId ∈ nodes.keys) :
    (call.restore nodes).keys = nodes.keys := by
  obtain ⟨original,same⟩ := Option.isSome_iff_exists.mp hides
  simp only [restore,same,OrderedDict.keys_set,present,if_true]

end NestedCall

namespace NestedTask

variable {graph : DependencyGraph} {nodes next : NodeMap} {c d : NestedTask} {path : List Nat} {choice : NestedChoice}
  {events : List NestedEvent}

theorem ending_eq_some {returned : Bool} (ends : c.ending = some returned) : c = ended returned := by
  cases c <;> simp_all [ending]

/-- An executor that goes on has published nothing yet. -/
theorem proceed_scopes {node : NestedConfig} (went : proceed node choice = some c)
    (now : String → Option NestedConfig) : Scopes.Step .idle now none c.scopes now := by
  unfold proceed at went
  split at went
  · cases went
    exact .stay .idle now
  · cases went
    exact .stay .idle now
  · cases went
    exact .stay .idle now
  · cases went
    exact .fork _ now
  · cases went

/-- With a level the configuration is published, and what it hides is remembered. -/
theorem executeNodeConfig_eq {parentId : String} {node : NestedConfig}
    (level : tempId parentId node.id ∈ graph.nodeLevels.keys) :
    executeNodeConfig graph nodes parentId node =
      (starting ⟨tempId parentId node.id,node,nodes.get? (tempId parentId node.id)⟩,
        nodes.set (tempId parentId node.id) node,[]) := by
  obtain ⟨value,found⟩ := Option.isSome_iff_exists.mp ((graph.nodeLevels.mem_keys _).mp level)
  simp [executeNodeConfig,DependencyGraph.getNodeLevel,found]

/-- Without a level the call fails, and the map shows what it showed. -/
theorem executeNodeConfig_unknown {parentId : String} {node : NestedConfig}
    (unknown : tempId parentId node.id ∉ graph.nodeLevels.keys) :
    ∃ same, executeNodeConfig graph nodes parentId node =
        (ended false,same,[.keyError (tempId parentId node.id) node]) ∧ same.get? = nodes.get? := by
  have level : graph.nodeLevels.get? (tempId parentId node.id) = none := (graph.nodeLevels.get?_eq_none _).mpr unknown
  let call : NestedCall := ⟨tempId parentId node.id,node,nodes.get? (tempId parentId node.id)⟩
  refine ⟨call.restore (nodes.set (tempId parentId node.id) node),?_,?_⟩
  · simp only [executeNodeConfig,DependencyGraph.getNodeLevel,level,call]
  · rw [call.restore_get?,OrderedDict.get?_set_eq_update,Function.update_idem]
    exact Function.update_eq_self _ _

/-- The next call of the task uses a top-level id that no call beside it uses. -/
def Apart (graph : DependencyGraph) (c : NestedTask) (path : List Nat) : Prop :=
  ∀ id ∈ c.entering path, id ∈ graph.nodeLevels.keys ∧ id ∉ c.alongside path

/-- What a step from `c` to `d` does to the map, and what it logs. -/
structure Moved (c : NestedTask) (nodes : NodeMap) (path : List Nat) (d : NestedTask) (next : NodeMap)
    (events : List NestedEvent) : Prop where
  bindings : Scopes.Step c.scopes nodes.get? (c.entering path) d.scopes next.get?
  keys : c.scopes.Covering → (∀ id ∈ c.published, id ∈ nodes.keys) → (∀ id ∈ c.entering path, id ∈ nodes.keys) →
    next.keys = nodes.keys
  logged : ∀ e ∈ events, ∃ call : NestedCall, Scopes.Innermost call.tempId call.nodeConfig c.scopes ∧
    e = call.lookUp (nodes.get? call.tempId)

/-- A step that publishes nothing and looks nothing up. -/
theorem Moved.quiet (silent : c.entering path = none)
    (bindings : Scopes.Step c.scopes nodes.get? none d.scopes nodes.get?) : Moved c nodes path d nodes [] where
  bindings := silent ▸ bindings
  keys _ _ _ := rfl
  logged := by simp

/-- A call ends: whatever it found, the map gets back what the call had hidden. -/
theorem Moved.leave {call : NestedCall} {returned : Bool} (silent : c.entering path = none)
    (innermost : c.scopes = .bound call.tempId call.nodeConfig call.originalNode .idle)
    (logged : ∀ e ∈ events, e = call.lookUp (nodes.get? call.tempId)) :
    Moved c nodes path (ended returned) (call.restore nodes) events where
  bindings := by
    rw [silent,innermost,call.restore_get?]
    exact .leave call.tempId call.nodeConfig call.originalNode nodes.get?
  keys covering present _ := by
    rw [innermost] at covering
    refine call.restore_keys covering.1 (present call.tempId ?_)
    simp [published,innermost]
  logged e inside := ⟨call,innermost ▸ .here call.originalNode,logged e inside⟩

theorem Moved.enter {rest : List NestedTodo} {caught : Bool} {parentId : String} {node : NestedConfig}
    (idle : c.scopes = .idle) (enters : c.entering path = some (tempId parentId node.id)) :
    Moved c nodes path
      (body (starting ⟨tempId parentId node.id,node,nodes.get? (tempId parentId node.id)⟩) rest caught)
      (nodes.set (tempId parentId node.id) node) [] where
  bindings := by
    rw [idle,enters,OrderedDict.get?_set_eq_update]
    exact .enter _ node nodes.get?
  keys _ _ present := by
    rw [OrderedDict.keys_set,if_pos (present _ enters)]
  logged := by simp

theorem Moved.body {now : NestedTask} {rest : List NestedTodo} {caught : Bool} (unfinished : now.ending = none)
    (moved : Moved now nodes path d next events) :
    Moved (.body now rest caught) nodes path (.body d rest caught) next events := by
  have enters : (NestedTask.body now rest caught).entering path = now.entering path := by
    simp only [entering,unfinished]
  exact ⟨enters ▸ moved.bindings,enters ▸ moved.keys,moved.logged⟩

theorem Moved.calling {call : NestedCall} {found : NestedConfig} {now : NestedTask}
    (moved : Moved now nodes path d next events) :
    Moved (.calling call found now) nodes path (.calling call found d) next events where
  bindings := .inside moved.bindings
  keys covering present := moved.keys covering.2 fun id inside => present id (List.mem_cons_of_mem _ inside)
  logged e inside := by
    obtain ⟨inner,innermost,same⟩ := moved.logged e inside
    exact ⟨inner,.inside innermost,same⟩

theorem Moved.gathered {width : Nat} {branches : Fin width → NestedTask} (i : Fin width)
    (apart : Apart graph (.gathered width branches) (i.val :: path))
    (moved : Moved (branches i) nodes path d next events) :
    Moved (.gathered width branches) nodes (i.val :: path) (.gathered width (Function.update branches i d)) next
      events := by
  have enters : (NestedTask.gathered width branches).entering (i.val :: path) = (branches i).entering path := by
    simp only [entering,i.isLt,dite_true]
  have scopes : (fun j => (Function.update branches i d j).scopes) =
      Function.update (fun j => (branches j).scopes) i d.scopes := by
    funext j
    by_cases same : j = i
    · cases same
      simp
    · simp [same]
  refine ⟨?_,fun covering present enter => ?_,fun e inside => ?_⟩
  · rw [enters]
    simp only [NestedTask.scopes,scopes]
    refine .branch i (fun id entered j other => ?_) moved.bindings
    have free := (apart id (enters ▸ entered)).2
    simp only [alongside,List.mem_append,List.mem_flatMap,List.mem_finRange,true_and,not_or,not_exists] at free
    simpa [Fin.val_ne_of_ne other,published] using free.2 j
  · refine moved.keys (covering i) (fun id inside => present id ?_) (enters ▸ enter)
    exact Scopes.mem_held_forked.mpr ⟨i,inside⟩
  · obtain ⟨call,innermost,same⟩ := moved.logged e inside
    exact ⟨call,.branch i innermost,same⟩

/-- A body whose task has ended begins the next one, or ends itself. -/
theorem Moved.body_ended {now : NestedTask} {rest : List NestedTodo} {caught : Bool}
    {returned : Bool} (ends : now.ending = some returned)
    (apart : (NestedTask.body now rest caught).Apart graph path)
    (stepped : (NestedTask.body now rest caught).step graph nodes path choice = some (d,next,events)) :
    Moved (.body now rest caught) nodes path d next events := by
  simp only [step] at stepped
  have finished := ending_eq_some ends
  have idle : (NestedTask.body now rest caught).scopes = .idle := by rw [finished]; rfl
  simp only [ends] at stepped
  split at stepped
  · contradiction
  · cases stepped
    exact .quiet (by simp only [entering,ends]) (idle ▸ .stay .idle _)
  · next todo later back =>
    cases back
    cases todo with
    | direct node =>
      cases stepped
      exact .quiet (by simp only [entering,ends]) (idle ▸ .stay .idle _)
    | nested parentId node =>
      have enters : (NestedTask.body now (.nested parentId node :: later) caught).entering path =
          some (tempId parentId node.id) := by
        simp only [entering,ends]
      simp only [begin,executeNodeConfig_eq (apart _ enters).1] at stepped
      cases stepped
      exact .enter idle enters
  · next raised =>
    cases raised
    split at stepped
    · cases stepped
    · cases stepped
      exact .quiet (by simp only [entering,ends]) (idle ▸ .stay .idle _)
  · cases stepped

/-- A call that is made shows its node, or comes to its end. -/
theorem Moved.starting {call : NestedCall}
    (stepped : (NestedTask.starting call).step graph nodes path choice = some (d,next,events)) :
    Moved (.starting call) nodes path d next events := by
  simp only [step] at stepped
  split at stepped
  · next found _ shown =>
    cases stepped
    refine ⟨.stay _ _,fun _ _ _ => rfl,fun e inside => ⟨call,.here call.originalNode,?_⟩⟩
    rw [List.mem_singleton.mp inside,shown]
  · next shown =>
    cases stepped
    refine .leave rfl rfl fun e inside => ?_
    rw [List.mem_singleton.mp inside,shown]
  · cases stepped
    exact .leave rfl rfl (by simp)
  · cases stepped

/-- Every step that keeps apart is one of these moves. -/
theorem step_moved (stepped : c.step graph nodes path choice = some (d,next,events)) (apart : c.Apart graph path) :
    Moved c nodes path d next events := by
  induction c generalizing path d with
  | ended returned => cases stepped
  | running node =>
    obtain ⟨e,went,same⟩ := Option.map_eq_some_iff.mp stepped
    cases same
    exact .quiet rfl (proceed_scopes went nodes.get?)
  | body now rest caught ih =>
    simp only [step] at stepped
    cases ends : now.ending with
    | none =>
      obtain ⟨⟨e,next',events'⟩,went,same⟩ := Option.map_eq_some_iff.mp (by simpa only [ends] using stepped)
      cases same
      refine .body ends (ih went ?_)
      simpa only [Apart,entering,alongside,ends] using apart
    | some returned => exact .body_ended ends apart (by simpa only [step] using stepped)
  | starting call => exact .starting stepped
  | calling call found now ih =>
    simp only [step] at stepped
    cases ends : now.ending with
    | none =>
      obtain ⟨⟨e,next',events'⟩,went,same⟩ := Option.map_eq_some_iff.mp (by simpa only [ends] using stepped)
      cases same
      exact .calling (ih went apart)
    | some returned =>
      have finished := ending_eq_some ends
      subst finished
      simp only [ends] at stepped
      split at stepped
      · contradiction
      · cases stepped
        exact .quiet rfl (.stay _ _)
      · cases stepped
        exact .leave rfl rfl (by simp)
      · cases stepped
  | gathered width branches ih =>
    cases path with
    | nil =>
      simp only [step] at stepped
      split at stepped
      · split at stepped
        · next all =>
          cases stepped
          refine .quiet rfl (.join _ fun i => ?_)
          obtain ⟨returned,ends⟩ := Option.isSome_iff_exists.mp (all i)
          rw [ending_eq_some ends]
          rfl
        · cases stepped
      · cases stepped
    | cons i path =>
      simp only [step] at stepped
      split at stepped
      · next inside =>
        obtain ⟨⟨e,next',events'⟩,went,same⟩ := Option.map_eq_some_iff.mp stepped
        cases same
        refine .gathered ⟨i,inside⟩ apart (ih ⟨i,inside⟩ went fun id enters => ?_)
        have here := apart id (by simpa only [entering,inside,dite_true] using enters)
        refine ⟨here.1,fun beside => here.2 ?_⟩
        simp only [alongside,inside,dite_true]
        exact List.mem_append_left _ beside
      · cases stepped

end NestedTask

namespace NestedState

variable {graph : DependencyGraph} {before : NodeMap} {s t : NestedState} {action : List Nat × NestedChoice}

/-- The map is the one before, under the calls in progress; everything dispatched was itself. -/
structure Faithful (before : NodeMap) (s : NestedState) : Prop where
  bindings : Scopes.Over before.get? s.nodes.get? s.task.scopes
  keys : s.nodes.keys = before.keys
  bounded : ∀ id ∈ s.task.published, id ∈ before.keys
  logged : ∀ e ∈ s.log, e.Faithful

theorem Faithful.step (faithful : Faithful before s) (clear : Clear before.keys s action)
    (levels : ∀ id ∈ before.keys, id ∈ graph.nodeLevels.keys) (stepped : s.step graph action = some t) :
    Faithful before t := by
  obtain ⟨bindings,keys,bounded,logged⟩ := faithful
  obtain ⟨⟨d,next,events⟩,went,same⟩ := Option.map_eq_some_iff.mp stepped
  cases same
  have moved := NestedTask.step_moved went fun id enters =>
    ⟨levels id (clear id enters).1,(clear id enters).2⟩
  have kept := moved.bindings.kept bindings.1 fun k _ free => bindings.2 k free
  refine ⟨moved.bindings.keeps_over bindings,?_,fun id inside => ?_,fun e inside => ?_⟩
  · refine (moved.keys (bindings.1.covering fun id held => ?_) ?_ ?_).trans keys
    · exact (before.mem_keys id).mp (bounded id held)
    · exact keys ▸ bounded
    · exact fun id enters => keys ▸ (clear id enters).1
  · exact (kept.bounded id inside).elim (bounded id) fun enters => (clear id enters).1
  · rcases List.mem_append.mp inside with old | new
    · exact logged e old
    · obtain ⟨call,innermost,same⟩ := moved.logged e new
      rw [same,bindings.1.innermost innermost]
      rfl

theorem start_faithful (nodes outers : List NestedConfig) :
    Faithful (NestedConfig.byId nodes) (start nodes outers) where
  bindings := by
    have idle : (start nodes outers).task.scopes = .forked outers.length fun _ => .idle := rfl
    rw [idle]
    exact Scopes.Step.keeps_over (.fork outers.length _) (Scopes.over_idle _)
  keys := rfl
  bounded id inside := by
    obtain ⟨i,held⟩ := Scopes.mem_held_forked.mp inside
    cases held
  logged e inside := by cases inside

end NestedState

/-- The top-level configurations, without what is inside them, are the workflow's nodes. -/
theorem byId_keys {nx : Networkx} {checks : List NodeConfig → Except Exn Unit} {settings : Settings}
    {nodes : List NestedConfig} {wf : Workflow}
    (made : Workflow.new nx checks settings (nodes.map (·.config)) = .ok wf) :
    wf.nodes.keys = (NestedConfig.byId nodes).keys := by
  have mapped : nodesById (nodes.map (·.config)) = (NestedConfig.byId nodes).mapValues (·.config) := by
    rw [NestedConfig.byId,← OrderedDict.ofList_mapValues,nodesById,List.map_map,List.map_map]
    rfl
  rw [Workflow.new_nodes made,mapped]
  simp [OrderedDict.keys,OrderedDict.mapValues,Function.comp_def]

/-- In every run in which the calls of `execute_node_config` keep clear of one another and use the ids
of top-level nodes, whatever is dispatched is the configuration the call was made for, and an id
shows its own node again as soon as no call uses it. -/
theorem nestedNodes_faithful {nx : Networkx} {checks : List NodeConfig → Except Exn Unit} {settings : Settings}
    {nodes : List NestedConfig} {wf : Workflow}
    (made : Workflow.new nx checks settings (nodes.map (·.config)) = .ok wf) {outers : List NestedConfig}
    {actions : List (List Nat × NestedChoice)} {s : NestedState}
    (ran : ActionRuns.run (NestedState.step wf.graph) actions (.start nodes outers) = some s)
    (clear : ActionRuns.Throughout (NestedState.step wf.graph) (NestedState.Clear wf.nodes.keys) actions
      (.start nodes outers)) :
    (∀ e ∈ s.log, e.Faithful) ∧
      (∀ id, id ∉ s.task.published → s.nodes.get? id = (NestedConfig.byId nodes).get? id) ∧
      (s.task.ending.isSome → s.nodes = NestedConfig.byId nodes) := by
  have keys := byId_keys made
  have faithful : s.Faithful (NestedConfig.byId nodes) := by
    refine ActionRuns.run_invariant (fun s a t holds clear stepped => ?_) ran
      (NestedState.start_faithful nodes outers) clear
    refine holds.step (keys ▸ clear) (fun id present => ?_) stepped
    exact Workflow.new_leveled made (keys ▸ present)
  refine ⟨faithful.logged,faithful.bindings.2,fun ends => ?_⟩
  obtain ⟨returned,ends⟩ := Option.isSome_iff_exists.mp ends
  have finished : s.task = .ended returned := NestedTask.ending_eq_some ends
  refine OrderedDict.ext_get? faithful.keys (faithful.bindings.restored ?_)
  rw [finished]
  rfl

/-- Two branches take turns: both calls begin, both look up, the first to begin is the first to end. -/
def takingTurns : List (List Nat × NestedChoice) :=
  [([0],.go),([0,0],.go),([0,1],.go),([0,0],.go),([0,1],.go),([0,0],.settle true),([0,0],.settle true),([0,0],.go),
    ([0,1],.settle true),([0,1],.settle true),([0,1],.go),([0],.settle true),([],.settle true)]

def toolNode (id : String) : NestedConfig := .plain { id,type := .tool } (by simp)

def llmNode (id : String) : NestedConfig := .plain { id,type := .llm } (by simp)

def twoBranches (left right : NestedConfig) : NestedConfig :=
  .parallel { id := "par",type := .parallel } rfl [[left],[right]]

/-- A workflow that has the temporary ids of its nested nodes as top-level ids. -/
def provided : List NestedConfig :=
  [twoBranches (toolNode "x") (llmNode "y"),.plain { id := "par.x",type := .code } (by decide),
    .plain { id := "par.y",type := .code } (by decide)]

def providedWorkflow : Workflow := .ofNodes {} (provided.map (·.config)) (by decide +kernel)

theorem provided_faithful :
    ∃ s, ActionRuns.run (NestedState.step providedWorkflow.graph) takingTurns
        (.start provided [twoBranches (toolNode "x") (llmNode "y")]) = some s ∧
      (∀ e ∈ s.log, e.Faithful) ∧ s.log ≠ [] ∧ s.nodes = NestedConfig.byId provided := by
  have ends : (ActionRuns.run (NestedState.step providedWorkflow.graph) takingTurns
      (.start provided [twoBranches (toolNode "x") (llmNode "y")])).any
        (fun s => s.task.ending.isSome && !s.log.isEmpty) = true := by
    decide +kernel
  obtain ⟨s,ran,finished⟩ := (Option.any_eq_true _ _).mp ends
  obtain ⟨finished,logged⟩ := Bool.and_eq_true_iff.mp finished
  have holds := nestedNodes_faithful (Workflow.ofNodes_made {} (provided.map (·.config)) (by decide +kernel)) ran
    (by decide +kernel)
  exact ⟨s,ran,holds.1,by simpa using logged,holds.2.2 finished⟩

/-- The executor that was called is the one of the configuration's own type. -/
def NestedEvent.ownType : NestedEvent → Bool
  | .dispatched _ nodeConfig found => found.config.type = nodeConfig.config.type
  | _ => false

theorem NestedEvent.Faithful.ownType {e : NestedEvent} (faithful : e.Faithful) : e.ownType = true := by
  cases e with
  | dispatched id nodeConfig found =>
    cases faithful
    simp [NestedEvent.ownType]
  | keyError id node => cases faithful
  | notFound id node => cases faithful

def alone : List NestedConfig := [twoBranches (toolNode "x") (llmNode "y")]

def aloneWorkflow : Workflow := .ofNodes {} (alone.map (·.config)) (by decide +kernel)

/-- Two branches with one nested id, and a top-level node that happens to have their temporary id. -/
def sharing : List NestedConfig :=
  [twoBranches (toolNode "x") (llmNode "x"),.plain { id := "par.x",type := .code } (by decide)]

def sharingWorkflow : Workflow := .ofNodes {} (sharing.map (·.config)) (by decide +kernel)

/-- A branch fails because its temporary id has no level; and where the id does have one, a branch is
run as the other branch's node and the top-level node is lost. -/
theorem nestedNodes_unfaithful :
    (∃ s, ActionRuns.run (NestedState.step aloneWorkflow.graph) [([0],.go),([0,0],.go)] (.start alone alone) = some s ∧
      ∃ e ∈ s.log, e = .keyError "par.x" (toolNode "x") ∧ ¬e.Faithful) ∧
    ∃ s, ActionRuns.run (NestedState.step sharingWorkflow.graph) takingTurns
        (.start sharing [twoBranches (toolNode "x") (llmNode "x")]) = some s ∧
      (∃ e ∈ s.log, ¬e.Faithful) ∧ s.task.ending.isSome ∧ s.nodes ≠ NestedConfig.byId sharing := by
  constructor
  · refine ⟨_,rfl,_,List.mem_cons_self,rfl,id⟩
  · have ends : (ActionRuns.run (NestedState.step sharingWorkflow.graph) takingTurns
        (.start sharing [twoBranches (toolNode "x") (llmNode "x")])).any
          (fun s => s.task.ending.isSome && !s.log.all NestedEvent.ownType &&
            (s.nodes.get? "par.x").map (·.config.type) != some .code) = true := by
      decide +kernel
    obtain ⟨s,ran,shows⟩ := (Option.any_eq_true _ _).mp ends
    simp only [Bool.and_eq_true,Bool.not_eq_true',bne_iff_ne] at shows
    obtain ⟨⟨finished,wrong⟩,lost⟩ := shows
    refine ⟨s,ran,?_,finished,fun same => lost ?_⟩
    · obtain ⟨e,inside,other⟩ := List.all_eq_false.mp wrong
      exact ⟨e,inside,fun faithful => other faithful.ownType⟩
    · rw [same]
      decide +kernel

end IceOS
