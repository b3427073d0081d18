import IceOS.BudgetRuns
import IceOS.NestedNodes

/-! The events of node executions. `Workflow.execute_node` and the node executor both announce a node, and the
executions of a level interleave wherever one of them awaits: its event handler, its executor. -/
namespace IceOS.NodeEvents

open ActionRuns NodeExecutor

inductive NodeEvent where
  | started (nodeType : String) (level : Int) (dependencies : List String)
  | progress
  | completed
  | failed (message : String) (retryAttempt : Nat) (willRetry : Bool)

def NodeEvent.isStarted : NodeEvent → Bool
  | .started .. => true
  | _ => false

def NodeEvent.isCompleted : NodeEvent → Bool
  | .completed => true
  | _ => false

/-- A failure that is final. -/
def NodeEvent.isFailed : NodeEvent → Bool
  | .failed _ _ willRetry => !willRetry
  | _ => false

/-- Where an execution of a node stands. `rounds` of the outer rounds are left after this one, and `left`
retries in this one. -/
inductive Stage where
  | waiting
  | called
  | ready (rounds left : Nat)
  | invoked (rounds left : Nat)
  | replied (rounds left : Nat) (reply : Reply)
  | coerced (rounds left : Nat) (v : Value)
  | returned (result : NodeExecutionResult)
  | concluded (result : NodeExecutionResult)
  | ended (outcome : Except Exn NodeExecutionResult)

/-- The executions, each of one node, and the events emitted for them. -/
structure State (ι ω : Type) where
  session : Session ω
  calls : ι → Stage := fun _ => .waiting
  log : List (ι × NodeEvent) := []

/-- What happens between two awaits of one execution; an executor may reply with anything and leave any world
behind. -/
inductive Action (ι ω : Type) where
  | call (i : ι)
  | begin (i : ι)
  | invoke (i : ι)
  | reply (i : ι) (reply : Reply) (world : ω)
  | settle (i : ι)
  | conclude (i : ι)
  | insights (i : ι)

namespace State

variable {ι ω : Type} [DecidableEq ι]

def moveTo (s : State ι ω) (i : ι) (stage : Stage) : State ι ω :=
  { s with calls := Function.update s.calls i stage }

def emit (s : State ι ω) (i : ι) (events : List NodeEvent) : State ι ω :=
  { s with log := s.log ++ events.map (i,·) }

/-- The events emitted for one execution. -/
def eventsOf (s : State ι ω) (i : ι) : List NodeEvent := (s.log.filter (·.1 = i)).map Prod.snd

@[simp] theorem moveTo_calls (s : State ι ω) (i j : ι) (stage : Stage) :
    (s.moveTo i stage).calls j = if j = i then stage else s.calls j := by
  simp [moveTo,Function.update_apply]

@[simp] theorem moveTo_eventsOf (s : State ι ω) (i j : ι) (stage : Stage) :
    (s.moveTo i stage).eventsOf j = s.eventsOf j := rfl

@[simp] theorem moveTo_session (s : State ι ω) (i : ι) (stage : Stage) : (s.moveTo i stage).session = s.session := rfl

omit [DecidableEq ι] in
@[simp] theorem emit_calls (s : State ι ω) (i : ι) (events : List NodeEvent) : (s.emit i events).calls = s.calls := rfl

omit [DecidableEq ι] in
@[simp] theorem emit_session (s : State ι ω) (i : ι) (events : List NodeEvent) :
    (s.emit i events).session = s.session := rfl

@[simp] theorem emit_eventsOf (s : State ι ω) (i j : ι) (events : List NodeEvent) :
    (s.emit i events).eventsOf j = s.eventsOf j ++ if j = i then events else [] := by
  by_cases same : j = i
  · subst same
    simp [emit,eventsOf,List.filter_append,List.filter_map,Function.comp_def]
  · have others : (events.map (i,·)).filter (·.1 = j) = [] := by
      simp [List.filter_map,Function.comp_def,Ne.symm same]
    simp only [emit,eventsOf,List.filter_append,others,same,if_false,List.append_nil]

end State

variable {ι ω : Type} [DecidableEq ι] (x : Executors ω) (wf : Workflow) (nodeId : ι → String)

def node? (i : ι) : Option NodeConfig := wf.nodes.get? (nodeId i)

/-- The start that the workflow announces has what the graph knows of the node. -/
def workflowStarted (node : NodeConfig) (level : Int) : NodeEvent := .started node.type.text level node.dependencies

/-- The start that the node executor announces has the defaults. -/
def executorStarted : NodeEvent := .started "" 0 []

/-- The retries are used up. -/
def exhausted (node : NodeConfig) (e : Exn) : Stage :=
  if wf.failurePolicy = .halt then .ended (.error e)
  else .returned
    { success := false
      error := some ("Retry limit exceeded (" ++ toString (maxRetries node) ++ ") – last error: " ++ e.text) }

def afterReply (node : NodeConfig) (rounds : Nat) : Nat → Reply → Stage
  | 0,.raised e => exhausted wf node e
  | left + 1,.raised _ => .ready rounds left
  | left,reply => .replied rounds left reply

/-- After a round that failed there is another one, unless its own retries were used up or it was the last. -/
def afterRound (node : NodeConfig) : Nat → Nat → Except Exn NodeExecutionResult → Stage
  | _,_,.ok r => .returned r
  | _,0,.error e => exhausted wf node e
  | 0,_ + 1,.error e => exhausted wf node e
  | rounds + 1,_ + 1,.error _ => .ready rounds (maxRetries node)

/-- A failed round with a retry to go is announced, also when no other round comes after it. -/
def retrying (node : NodeConfig) : Nat → Except Exn NodeExecutionResult → List NodeEvent
  | left + 1,.error e => [.failed e.text (maxRetries node - (left + 1) + 1) true]
  | _,_ => []

def settleWith (i : ι) (node : NodeConfig) (rounds left : Nat) (reply : Reply) (s : State ι ω) : State ι ω :=
  let (outcome,session) := finish x node reply s.session
  ({ s with session }.emit i (retrying node left outcome)).moveTo i (afterRound wf node rounds left outcome)

/-- A value that can be coerced is announced as completed before anything else is done with it. -/
def settle (i : ι) (node : NodeConfig) (s : State ι ω) : State ι ω :=
  match s.calls i with
  | .replied rounds left (.value v) =>
    match x.coerce node v with
    | .ok _ => (s.emit i [.completed]).moveTo i (.coerced rounds left v)
    | .error _ => settleWith x wf i node rounds left (.value v) s
  | .replied rounds left reply => settleWith x wf i node rounds left reply s
  | .coerced rounds left v => settleWith x wf i node rounds left (.value v) s
  | _ => s

/-- `node_type` and the level are looked up before the workflow announces the start. -/
def call (i : ι) (s : State ι ω) : State ι ω :=
  match node? wf nodeId i with
  | none => s.moveTo i .called
  | some node =>
    match wf.graph.getNodeLevel (nodeId i) with
    | .error e => s.moveTo i (.ended (.error e))
    | .ok level => (s.emit i [workflowStarted node level]).moveTo i .called

def notFound (id : String) : Exn := valueError s!"Node '{id}' not found in chain configuration"

/-- The node executor announces the start, then looks for the node and validates it. -/
def begin (i : ι) (s : State ι ω) : State ι ω :=
  let s := s.emit i [executorStarted]
  match node? wf nodeId i with
  | none => s.moveTo i (.ended (.error (notFound (nodeId i))))
  | some node =>
    match x.runtimeValidate node with
    | none => s.moveTo i (.ready (maxRetries node) (maxRetries node))
    | some e =>
      if wf.failurePolicy = .halt then s.moveTo i (.ended (.error e))
      else s.moveTo i (.returned
        { success := false
          error := some (s!"Validation failed for node '{node.id}': " ++ e.text) })

def terminal (r : NodeExecutionResult) : NodeEvent :=
  if r.success then .completed
  else .failed (match r.error with | none | some "" => "Unknown error" | some text => text) 0 false

def step (s : State ι ω) : Action ι ω → Option (State ι ω)
  | .call i =>
    match s.calls i with
    | .waiting => some (call wf nodeId i s)
    | _ => none
  | .begin i =>
    match s.calls i with
    | .called => some (begin x wf nodeId i s)
    | _ => none
  | .invoke i =>
    match s.calls i with
    | .ready rounds left => some (s.moveTo i (.invoked rounds left))
    | _ => none
  | .reply i reply world =>
    match s.calls i,node? wf nodeId i with
    | .invoked rounds left,some node =>
      some ({ s with session := { s.session with world } }.moveTo i (afterReply wf node rounds left reply))
    | _,_ => none
  | .settle i =>
    match s.calls i,node? wf nodeId i with
    | .replied ..,some node | .coerced ..,some node => some (settle x wf i node s)
    | _,_ => none
  | .conclude i =>
    match s.calls i with
    | .returned r => some ((s.emit i [terminal r]).moveTo i (.concluded r))
    | _ => none
  | .insights i =>
    match s.calls i with
    | .concluded r => some ((s.emit i [.progress]).moveTo i (.ended (.ok r)))
    | _ => none

/-- Reports of progress and of failures that are retried aside, the events are one start and the terminal event
that goes with the result. -/
def Proper (events : List NodeEvent) (outcome : Except Exn NodeExecutionResult) : Prop :=
  ∃ first last, events.filter (fun e => e.isStarted || e.isCompleted || e.isFailed) = [first,last] ∧
    first.isStarted = true ∧ if endingOf outcome = .succeeded then last.isCompleted = true else last.isFailed = true

/-! ### One execution -/

def starts (events : List NodeEvent) : Nat := events.countP NodeEvent.isStarted

theorem starts_append (first second : List NodeEvent) : starts (first ++ second) = starts first + starts second :=
  List.countP_append

/-- Properly announced executions are announced once. -/
theorem Proper.starts {events : List NodeEvent} {outcome : Except Exn NodeExecutionResult}
    (proper : Proper events outcome) : starts events = 1 ∧ 2 ≤ events.length := by
  obtain ⟨first,last,shown,started,terminal⟩ := proper
  have other : last.isStarted = false := by
    cases last with
    | started => simp [NodeEvent.isCompleted,NodeEvent.isFailed] at terminal
    | progress | completed | failed => rfl
  constructor
  · have kept : events.countP NodeEvent.isStarted =
        (events.filter fun e => e.isStarted || e.isCompleted || e.isFailed).countP NodeEvent.isStarted := by
      rw [List.countP_filter]
      refine List.countP_congr fun e _ => ?_
      cases e.isStarted <;> simp
    rw [NodeEvents.starts,kept,shown]
    simp [started,other]
  · have shorter := List.length_filter_le (fun e : NodeEvent => e.isStarted || e.isCompleted || e.isFailed) events
    rw [shown] at shorter
    exact shorter

/-- What has been announced by the time an execution is at a stage. -/
def Announced (known : Bool) : Stage → List NodeEvent → Prop
  | .waiting,events => events = []
  | .called,events => if known then starts events = 1 else events = []
  | .ended _,events => starts events = 1 → events.length < 2
  | _,events => starts events = 2

theorem announced_twice {known : Bool} {stage : Stage} {events : List NodeEvent} (twice : starts events = 2)
    (under : stage ≠ .waiting ∧ stage ≠ .called) : Announced known stage events := by
  cases stage with
  | waiting => exact absurd rfl under.1
  | called => exact absurd rfl under.2
  | ended outcome =>
    intro once
    rw [twice] at once
    contradiction
  | ready | invoked | replied | coerced | returned | concluded => exact twice

theorem exhausted_stage (node : NodeConfig) (e : Exn) :
    exhausted wf node e ≠ .waiting ∧ exhausted wf node e ≠ .called := by
  unfold exhausted
  split
  · exact ⟨nofun,nofun⟩
  · exact ⟨nofun,nofun⟩

theorem afterReply_stage (node : NodeConfig) (rounds left : Nat) (reply : Reply) :
    afterReply wf node rounds left reply ≠ .waiting ∧ afterReply wf node rounds left reply ≠ .called := by
  cases reply with
  | raised e =>
    cases left with
    | zero => exact exhausted_stage wf node e
    | succ left => exact ⟨nofun,nofun⟩
  | result r | value v => cases left <;> exact ⟨nofun,nofun⟩

theorem afterRound_stage (node : NodeConfig) (rounds left : Nat) (outcome : Except Exn NodeExecutionResult) :
    afterRound wf node rounds left outcome ≠ .waiting ∧ afterRound wf node rounds left outcome ≠ .called := by
  cases outcome with
  | ok r => exact ⟨nofun,nofun⟩
  | error e =>
    cases left with
    | zero => exact exhausted_stage wf node e
    | succ left =>
      cases rounds with
      | zero => exact exhausted_stage wf node e
      | succ rounds => exact ⟨nofun,nofun⟩

theorem retrying_starts (node : NodeConfig) (left : Nat) (outcome : Except Exn NodeExecutionResult) :
    starts (retrying node left outcome) = 0 := by
  cases left with
  | zero => rfl
  | succ left => cases outcome <;> rfl

theorem terminal_starts (r : NodeExecutionResult) : starts [terminal r] = 0 := by
  unfold terminal
  cases r.success <;> rfl

/-- Every execution is announced as far as its stage says. -/
def Announcing (s : State ι ω) : Prop :=
  ∀ i, Announced (node? wf nodeId i).isSome (s.calls i) (s.eventsOf i)

/-- A step of an execution changes nothing about the others. -/
theorem Announcing.move {s t : State ι ω} (inv : Announcing wf nodeId s) (i : ι) (events : List NodeEvent)
    (stage : Stage) (calls : ∀ j, t.calls j = if j = i then stage else s.calls j)
    (log : ∀ j, t.eventsOf j = s.eventsOf j ++ if j = i then events else [])
    (here : Announced (node? wf nodeId i).isSome stage (s.eventsOf i ++ events)) : Announcing wf nodeId t := by
  intro j
  rw [calls,log]
  by_cases same : j = i
  · subst same
    simpa using here
  · simpa [same] using inv j

variable {x wf nodeId}

/-- An execution that is under way has been announced twice. -/
theorem Announcing.twice {s : State ι ω} (inv : Announcing wf nodeId s) {i : ι}
    (under : s.calls i ≠ .waiting ∧ s.calls i ≠ .called ∧ ∀ outcome, s.calls i ≠ .ended outcome) :
    starts (s.eventsOf i) = 2 := by
  have here := inv i
  obtain ⟨waits,called,ended⟩ := under
  cases stage : s.calls i with
  | waiting => exact absurd stage waits
  | called => exact absurd stage called
  | ended outcome => exact absurd stage (ended outcome)
  | ready | invoked | replied | coerced | returned | concluded => simpa only [stage,Announced] using here

/-- After it has been announced twice it is not announced again. -/
theorem Announcing.goesOn {s t : State ι ω} (inv : Announcing wf nodeId s) {i : ι} (twice : starts (s.eventsOf i) = 2)
    (events : List NodeEvent) (silent : starts events = 0) (stage : Stage)
    (under : stage ≠ .waiting ∧ stage ≠ .called) (calls : ∀ j, t.calls j = if j = i then stage else s.calls j)
    (log : ∀ j, t.eventsOf j = s.eventsOf j ++ if j = i then events else []) : Announcing wf nodeId t := by
  refine inv.move wf nodeId i events stage calls log (announced_twice ?_ under)
  rw [starts_append,twice,silent]

theorem Announcing.settleWith {s : State ι ω} (inv : Announcing wf nodeId s) {i : ι} (twice : starts (s.eventsOf i) = 2)
    (node : NodeConfig) (rounds left : Nat) (reply : Reply) :
    Announcing wf nodeId (settleWith x wf i node rounds left reply s) := by
  let outcome := (finish x node reply s.session).1
  refine inv.goesOn twice (retrying node left outcome) (retrying_starts node left outcome)
    (afterRound wf node rounds left outcome) (afterRound_stage wf node rounds left outcome)
    (fun j => by simp [NodeEvents.settleWith,outcome]) (fun j => ?_)
  simp only [NodeEvents.settleWith,State.moveTo_eventsOf,State.emit_eventsOf]
  rfl

theorem Announcing.settle {s : State ι ω} (inv : Announcing wf nodeId s) {i : ι} (twice : starts (s.eventsOf i) = 2)
    (node : NodeConfig) : Announcing wf nodeId (settle x wf i node s) := by
  unfold NodeEvents.settle
  split
  · next rounds left v _ =>
    split
    · exact inv.goesOn twice [.completed] rfl (.coerced rounds left v) ⟨nofun,nofun⟩ (by simp) (by simp)
    · exact inv.settleWith twice node _ _ _
  · exact inv.settleWith twice node _ _ _
  · exact inv.settleWith twice node _ _ _
  · exact inv

theorem Announcing.call {s : State ι ω} (inv : Announcing wf nodeId s) {i : ι} (waits : s.calls i = .waiting) :
    Announcing wf nodeId (call wf nodeId i s) := by
  have silent : s.eventsOf i = [] := by simpa only [waits,Announced] using inv i
  unfold NodeEvents.call
  cases known : node? wf nodeId i with
  | none =>
    refine inv.move wf nodeId i [] .called (by simp) (by simp) ?_
    simp [Announced,known,silent]
  | some node =>
    cases wf.graph.getNodeLevel (nodeId i) with
    | error e =>
      refine inv.move wf nodeId i [] (.ended (.error e)) (by simp) (by simp) ?_
      simp [Announced,silent]
    | ok level =>
      refine inv.move wf nodeId i [workflowStarted node level] .called (by simp) (by simp) ?_
      simp [Announced,known,silent,starts,workflowStarted,NodeEvent.isStarted]

theorem Announcing.begin {s : State ι ω} (inv : Announcing wf nodeId s) {i : ι} (called : s.calls i = .called) :
    Announcing wf nodeId (begin x wf nodeId i s) := by
  have before := inv i
  simp only [called,Announced] at before
  unfold NodeEvents.begin
  cases known : node? wf nodeId i with
  | none =>
    simp only [known,Option.isSome_none,Bool.false_eq_true,if_false] at before
    refine inv.move wf nodeId i [executorStarted] (.ended (.error (notFound (nodeId i)))) (by simp) (by simp) ?_
    simp [Announced,before]
  | some node =>
    simp only [known,Option.isSome_some,if_true] at before
    have twice : starts (s.eventsOf i ++ [executorStarted]) = 2 := by
      rw [starts_append,before]
      rfl
    have moved (stage : Stage) (under : stage ≠ .waiting ∧ stage ≠ .called) :
        Announcing wf nodeId ((s.emit i [executorStarted]).moveTo i stage) :=
      inv.move wf nodeId i [executorStarted] stage (by simp) (by simp) (announced_twice twice under)
    simp only
    cases x.runtimeValidate node with
    | none => exact moved (.ready (maxRetries node) (maxRetries node)) ⟨nofun,nofun⟩
    | some e =>
      simp only
      split
      · exact moved (.ended (.error e)) ⟨nofun,nofun⟩
      · exact moved (.returned _) ⟨nofun,nofun⟩

theorem Announcing.step {s t : State ι ω} {a : Action ι ω} (inv : Announcing wf nodeId s)
    (stepped : step x wf nodeId s a = some t) : Announcing wf nodeId t := by
  cases a with
  | call i =>
    simp only [NodeEvents.step] at stepped
    split at stepped
    · next stage =>
      cases stepped
      exact inv.call stage
    · contradiction
  | begin i =>
    simp only [NodeEvents.step] at stepped
    split at stepped
    · next stage =>
      cases stepped
      exact inv.begin stage
    · contradiction
  | invoke i =>
    simp only [NodeEvents.step] at stepped
    split at stepped
    · next rounds left stage =>
      cases stepped
      have twice := inv.twice (by rw [stage]; exact ⟨nofun,nofun,nofun⟩)
      exact inv.goesOn twice [] rfl (.invoked rounds left) ⟨nofun,nofun⟩ (by simp) (by simp)
    · contradiction
  | reply i reply world =>
    simp only [NodeEvents.step] at stepped
    split at stepped
    · next rounds left node stage known =>
      cases stepped
      have twice := inv.twice (by rw [stage]; exact ⟨nofun,nofun,nofun⟩)
      exact inv.goesOn twice [] rfl (afterReply wf node rounds left reply)
        (afterReply_stage wf node rounds left reply) (by simp) (fun j => by simp [State.eventsOf,State.moveTo])
    · contradiction
  | settle i =>
    simp only [NodeEvents.step] at stepped
    split at stepped
    · next stage _ =>
      cases stepped
      exact inv.settle (inv.twice (by rw [stage]; exact ⟨nofun,nofun,nofun⟩)) _
    · next stage _ =>
      cases stepped
      exact inv.settle (inv.twice (by rw [stage]; exact ⟨nofun,nofun,nofun⟩)) _
    · contradiction
  | conclude i =>
    simp only [NodeEvents.step] at stepped
    split at stepped
    · next r stage =>
      cases stepped
      have twice := inv.twice (by rw [stage]; exact ⟨nofun,nofun,nofun⟩)
      exact inv.goesOn twice [terminal r] (terminal_starts r) (.concluded r) ⟨nofun,nofun⟩ (by simp) (by simp)
    · contradiction
  | insights i =>
    simp only [NodeEvents.step] at stepped
    split at stepped
    · next r stage =>
      cases stepped
      have twice := inv.twice (by rw [stage]; exact ⟨nofun,nofun,nofun⟩)
      exact inv.goesOn twice [.progress] rfl (.ended (.ok r)) ⟨nofun,nofun⟩ (by simp) (by simp)
    · contradiction

/-! ### An execution on its own -/

section

variable {s : State ι ω} {i : ι} {node : NodeConfig}

variable (x wf nodeId) in
def Reaches (s t : State ι ω) : Prop := ∃ actions, run (step x wf nodeId) actions s = some t

theorem Reaches.trans {t u : State ι ω} (first : Reaches x wf nodeId s t) (second : Reaches x wf nodeId t u) :
    Reaches x wf nodeId s u := by
  obtain ⟨actions,ran⟩ := first
  obtain ⟨more,ran'⟩ := second
  exact ⟨actions ++ more,by rw [run_append,ran,Option.bind_some,ran']⟩

theorem reaches_step {t : State ι ω} {a : Action ι ω} (stepped : step x wf nodeId s a = some t) :
    Reaches x wf nodeId s t :=
  ⟨[a],by simp only [run,stepped,Option.bind_some]⟩

/-- An invocation and its reply. -/
theorem reaches_reply (known : node? wf nodeId i = some node) {rounds left : Nat}
    (ready : s.calls i = .ready rounds left) (reply : Reply) (world : ω) :
    ∃ t, Reaches x wf nodeId s t ∧ t.session = { s.session with world } ∧
      t.calls i = afterReply wf node rounds left reply := by
  have first : step x wf nodeId s (.invoke i) = some (s.moveTo i (.invoked rounds left)) := by simp only [step,ready]
  have invoked : (s.moveTo i (.invoked rounds left)).calls i = .invoked rounds left := by simp
  have second : step x wf nodeId (s.moveTo i (.invoked rounds left)) (.reply i reply world) =
      some ({ s.moveTo i (.invoked rounds left) with session := { s.session with world } }.moveTo i
        (afterReply wf node rounds left reply)) := by
    simp only [step,invoked,known]
    rfl
  exact ⟨_,(reaches_step first).trans (reaches_step second),rfl,by simp⟩

theorem reaches_dispatch (known : node? wf nodeId i = some node) (ctx : Context) {rounds left : Nat}
    (ready : s.calls i = .ready rounds left) : ∃ t, Reaches x wf nodeId s t ∧
      t.session = (dispatch x node ctx left s.session).2 ∧ t.calls i = afterReply wf node rounds
        (dispatch x node ctx left s.session).1.2 (dispatch x node ctx left s.session).1.1 := by
  induction left generalizing s with
  | zero => exact reaches_reply known ready _ _
  | succ left ih =>
    obtain ⟨t,reaches,session,stage⟩ := reaches_reply known ready
      (x.executor node ctx s.session.world).1 (x.executor node ctx s.session.world).2
    cases replied : x.executor node ctx s.session.world with
    | mk reply world =>
      simp only [replied] at stage session
      simp only [dispatch,replied]
      cases reply with
      | raised e =>
        obtain ⟨u,further,session',stage'⟩ := ih stage
        rw [session] at session' stage'
        exact ⟨u,reaches.trans further,session',stage'⟩
      | result r => exact ⟨t,reaches,session,stage⟩
      | value v => exact ⟨t,reaches,session,stage⟩

theorem settleWith_calls (s : State ι ω) (rounds left : Nat) (reply : Reply) :
    (settleWith x wf i node rounds left reply s).calls i =
      afterRound wf node rounds left (finish x node reply s.session).1 := by
  simp [settleWith]

theorem reaches_settle (known : node? wf nodeId i = some node) {rounds left : Nat} {reply : Reply}
    (replied : s.calls i = .replied rounds left reply) : ∃ t, Reaches x wf nodeId s t ∧
      t.session = (finish x node reply s.session).2 ∧
      t.calls i = afterRound wf node rounds left (finish x node reply s.session).1 := by
  have stepped : step x wf nodeId s (.settle i) = some (settle x wf i node s) := by simp only [step,replied,known]
  have direct (settled : settle x wf i node s = settleWith x wf i node rounds left reply s) :
      ∃ t, Reaches x wf nodeId s t ∧ t.session = (finish x node reply s.session).2 ∧
        t.calls i = afterRound wf node rounds left (finish x node reply s.session).1 :=
    ⟨_,reaches_step (stepped.trans (congrArg some settled)),rfl,settleWith_calls s rounds left reply⟩
  cases reply with
  | raised e => exact direct (by simp only [settle,replied])
  | result r => exact direct (by simp only [settle,replied])
  | value v =>
    cases coerced : x.coerce node v with
    | error e => exact direct (by simp only [settle,replied,coerced])
    | ok output =>
      let u := (s.emit i [.completed]).moveTo i (.coerced rounds left v)
      have stage : u.calls i = .coerced rounds left v := by simp [u]
      have announced : settle x wf i node s = u := by simp only [settle,replied,coerced,u]
      have second : step x wf nodeId u (.settle i) = some (settleWith x wf i node rounds left (.value v) u) := by
        simp only [step,stage,known,settle]
      exact ⟨_,(reaches_step (stepped.trans (congrArg some announced))).trans (reaches_step second),rfl,
        settleWith_calls u rounds left (.value v)⟩

theorem reaches_round (known : node? wf nodeId i = some node) (ctx : Context) {rounds left : Nat}
    (ready : s.calls i = .ready rounds left) : ∃ t, Reaches x wf nodeId s t ∧
      t.session = (finish x node (dispatch x node ctx left s.session).1.1 (dispatch x node ctx left s.session).2).2 ∧
      t.calls i = afterRound wf node rounds (dispatch x node ctx left s.session).1.2
        (finish x node (dispatch x node ctx left s.session).1.1 (dispatch x node ctx left s.session).2).1 := by
  obtain ⟨t,reaches,session,stage⟩ := reaches_dispatch (x := x) known ctx ready
  cases replied : (dispatch x node ctx left s.session).1.1 with
  | raised e =>
    have used := dispatch_raised x node ctx left s.session replied
    rw [replied,used] at stage
    refine ⟨t,reaches,session,?_⟩
    rw [used,stage]
    cases rounds <;> rfl
  | result r | value v =>
    rw [replied] at stage
    have kept : t.calls i = .replied rounds (dispatch x node ctx left s.session).1.2 _ := stage.trans (by
      cases (dispatch x node ctx left s.session).1.2 <;> rfl)
    obtain ⟨u,settles,session',stage'⟩ := reaches_settle (x := x) known kept
    rw [session] at session' stage'
    exact ⟨u,reaches.trans settles,session',stage'⟩

variable (wf) in
/-- Where the rounds lead. -/
def afterRounds (node : NodeConfig) : Except Exn NodeExecutionResult → Stage
  | .ok r => .returned r
  | .error e => exhausted wf node e

theorem reaches_rounds (known : node? wf nodeId i = some node) (ctx : Context) {left : Nat}
    (ready : s.calls i = .ready left (maxRetries node)) : ∃ t, Reaches x wf nodeId s t ∧
      t.session = (rounds x node ctx left s.session).2 ∧
      t.calls i = afterRounds wf node (rounds x node ctx left s.session).1 := by
  induction left generalizing s with
  | zero =>
    obtain ⟨t,reaches,session,stage⟩ := reaches_round (x := x) known ctx ready
    refine ⟨t,reaches,session,stage.trans ?_⟩
    simp only [rounds]
    cases (finish x node (dispatch x node ctx (maxRetries node) s.session).1.1
      (dispatch x node ctx (maxRetries node) s.session).2).1 with
    | ok r => rfl
    | error e => cases (dispatch x node ctx (maxRetries node) s.session).1.2 <;> rfl
  | succ left ih =>
    obtain ⟨t,reaches,session,stage⟩ := reaches_round (x := x) known ctx ready
    simp only [rounds]
    cases dispatched : dispatch x node ctx (maxRetries node) s.session with
    | mk replied mid =>
      obtain ⟨reply,unused⟩ := replied
      simp only [dispatched] at session stage ⊢
      cases finished : finish x node reply mid with
      | mk outcome last =>
        simp only [finished] at session stage ⊢
        cases outcome with
        | ok r => exact ⟨t,reaches,session,stage⟩
        | error e =>
          cases unused with
          | zero => exact ⟨t,reaches,session,stage⟩
          | succ unused =>
            obtain ⟨u,further,session',stage'⟩ := ih stage
            rw [session] at session' stage'
            exact ⟨u,reaches.trans further,session',stage'⟩

variable (x wf nodeId) in
/-- A result is announced, then the insights. -/
theorem reaches_end {r : NodeExecutionResult} (returned : s.calls i = .returned r) :
    ∃ t, Reaches x wf nodeId s t ∧ t.session = s.session ∧ t.calls i = .ended (.ok r) := by
  let u := (s.emit i [terminal r]).moveTo i (.concluded r)
  have first : step x wf nodeId s (.conclude i) = some u := by simp only [step,returned,u]
  have stage : u.calls i = .concluded r := by simp [u]
  have second : step x wf nodeId u (.insights i) = some ((u.emit i [.progress]).moveTo i (.ended (.ok r))) := by
    simp only [step,stage]
  exact ⟨_,(reaches_step first).trans (reaches_step second),rfl,by simp⟩

variable (x wf nodeId) in
theorem reaches_exhausted {e : Exn} (stage : s.calls i = exhausted wf node e) : ∃ t, Reaches x wf nodeId s t ∧
    t.session = s.session ∧ t.calls i = .ended (if wf.failurePolicy = .halt then .error e else .ok
      { success := false
        error := some ("Retry limit exceeded (" ++ toString (maxRetries node) ++ ") – last error: " ++ e.text) }) := by
  unfold exhausted at stage
  split at stage
  · next halts =>
    refine ⟨s,⟨[],rfl⟩,rfl,?_⟩
    rw [stage,if_pos halts]
  · next goesOn =>
    obtain ⟨t,reaches,session,ended⟩ := reaches_end x wf nodeId stage
    refine ⟨t,reaches,session,?_⟩
    rw [ended,if_neg goesOn]

variable (x wf) in
/-- Where the announcements lead. -/
def opening (node : NodeConfig) : Stage :=
  match x.runtimeValidate node with
  | none => .ready (maxRetries node) (maxRetries node)
  | some e =>
    if wf.failurePolicy = .halt then .ended (.error e)
    else .returned
      { success := false
        error := some (s!"Validation failed for node '{node.id}': " ++ e.text) }

variable (x) in
theorem reaches_opening (known : node? wf nodeId i = some node) {level : Int}
    (leveled : wf.graph.getNodeLevel (nodeId i) = .ok level) (waits : s.calls i = .waiting) :
    ∃ t, Reaches x wf nodeId s t ∧ t.session = s.session ∧ t.calls i = opening x wf node := by
  let u := (s.emit i [workflowStarted node level]).moveTo i .called
  have first : step x wf nodeId s (.call i) = some u := by simp only [step,waits,call,known,leveled,u]
  have called : u.calls i = .called := by simp [u]
  have second : step x wf nodeId u (.begin i) = some ((u.emit i [executorStarted]).moveTo i (opening x wf node)) := by
    simp only [step,called,begin,known,opening]
    cases x.runtimeValidate node with
    | none => rfl
    | some e =>
      simp only
      split
      · rfl
      · rfl
  exact ⟨_,(reaches_step first).trans (reaches_step second),rfl,by simp⟩

variable (x wf nodeId) in
/-- An execution that is let run on its own ends as the node executor's `execute_node` does. -/
theorem reaches_executeNode (known : node? wf nodeId i = some node) {level : Int}
    (leveled : wf.graph.getNodeLevel (nodeId i) = .ok level) (ctx : Context) (waits : s.calls i = .waiting) :
    ∃ t, Reaches x wf nodeId s t ∧ t.session = (executeNode x wf.failurePolicy node ctx s.session).2 ∧
      t.calls i = .ended (executeNode x wf.failurePolicy node ctx s.session).1 := by
  obtain ⟨t,reached,session,stage⟩ := reaches_opening x known leveled waits
  simp only [executeNode]
  cases valid : x.runtimeValidate node with
  | some e =>
    simp only [opening,valid] at stage
    simp only
    split
    · next halts =>
      rw [if_pos halts] at stage
      exact ⟨t,reached,session,stage⟩
    · next goesOn =>
      rw [if_neg goesOn] at stage
      obtain ⟨u,further,session',ended⟩ := reaches_end x wf nodeId stage
      exact ⟨u,reached.trans further,session'.trans session,ended⟩
  | none =>
    simp only [opening,valid] at stage
    obtain ⟨u,further,session',stage'⟩ := reaches_rounds (x := x) known ctx stage
    rw [session] at session' stage'
    simp only
    cases ran : rounds x node ctx (maxRetries node) s.session with
    | mk outcome last =>
      rw [ran] at session' stage'
      cases outcome with
      | ok r =>
        obtain ⟨v,closing,final,ended⟩ := reaches_end x wf nodeId stage'
        exact ⟨v,(reached.trans further).trans closing,final.trans session',ended⟩
      | error e =>
        obtain ⟨v,closing,final,ended⟩ := reaches_exhausted x wf nodeId stage'
        refine ⟨v,(reached.trans further).trans closing,?_,?_⟩
        · rw [final,session']
          simp only
          split
          · rfl
          · rfl
        · rw [ended]
          simp only
          split
          · rfl
          · rfl

end

/-! ### Any number of them -/

/-- Executions of nodes interleaved in any way: none that has ended was announced as it should be. -/
theorem ended_improper {session : Session ω} {actions : List (Action ι ω)} {t : State ι ω}
    (ran : run (step x wf nodeId) actions { session } = some t) {i : ι} {outcome : Except Exn NodeExecutionResult}
    (ended : t.calls i = .ended outcome) : ¬Proper (t.eventsOf i) outcome := by
  have start : Announcing wf nodeId ({ session } : State ι ω) := fun _ => rfl
  have inv : Announcing wf nodeId t := run_always (fun _ _ _ inv stepped => inv.step stepped) ran start
  intro proper
  obtain ⟨once,two⟩ := proper.starts
  have short := inv i
  simp only [ended,Announced] at short
  exact absurd (short once) (Nat.not_lt.mpr two)

/-- The executions that have ended were announced as they should be just if there is none. -/
theorem proper_iff (x : Executors ω) (wf : Workflow) (nodeId : ι → String) {session : Session ω}
    {actions : List (Action ι ω)} {t : State ι ω} (ran : run (step x wf nodeId) actions { session } = some t) :
    (∀ i outcome, t.calls i = .ended outcome → Proper (t.eventsOf i) outcome) ↔
      ∀ i outcome, t.calls i ≠ .ended outcome := by
  constructor
  · intro proper i outcome ended
    exact ended_improper ran ended (proper i outcome ended)
  · intro none i outcome ended
    exact absurd ended (none i outcome)

/-- One node. -/
def alert : Workflow := .ofNodes {} [{ id := "alert",type := .tool }] (by decide +kernel)

/-- Executors that answer every node. -/
def answering : Executors Unit where
  runtimeValidate _ := none
  executor _ _ w := (.result { output := .dict [("sent",.bool true)] },w)
  coerce _ v := .ok v
  persist _ _ w := (none,w)
  isOutputValid _ _ := true

def fresh : Session Unit := ⟨{ maximum := budgetDefaults,failClosed := true },()⟩

theorem alert_runs : ∃ (actions : List (Action (Fin 1) Unit)) (t : State (Fin 1) Unit) (outcome : _),
    run (step answering alert fun _ => "alert") actions { session := fresh } = some t ∧ t.calls 0 = .ended outcome := by
  have found : (alert.nodes.get? "alert").isSome = true := by decide +kernel
  obtain ⟨node,known⟩ := Option.isSome_iff_exists.mp found
  have placed : (alert.graph.nodeLevels.get? "alert").isSome = true := by decide +kernel
  obtain ⟨level,leveled⟩ := Option.isSome_iff_exists.mp placed
  have looked : alert.graph.getNodeLevel "alert" = .ok level := by simp only [DependencyGraph.getNodeLevel,leveled]
  obtain ⟨t,⟨actions,ran⟩,-,ended⟩ := reaches_executeNode answering alert (fun _ => "alert")
    (s := { session := fresh }) (i := (0 : Fin 1)) known looked .empty rfl
  exact ⟨actions,t,_,ran,ended⟩

theorem proper_iff_alert : ∃ (actions : List (Action (Fin 1) Unit)) (t : State (Fin 1) Unit),
    run (step answering alert fun _ => "alert") actions { session := fresh } = some t ∧
      ((∀ i outcome, t.calls i = .ended outcome → Proper (t.eventsOf i) outcome) ↔
        ∀ i outcome, t.calls i ≠ .ended outcome) := by
  obtain ⟨actions,t,outcome,ran,-⟩ := alert_runs
  exact ⟨actions,t,ran,proper_iff answering alert (fun _ => "alert") ran⟩

/-- The only node is announced twice. -/
theorem alert_announced_twice : ¬∀ (x : Executors Unit) (wf : Workflow) (nodeId : Fin 1 → String)
    (session : Session Unit) (actions : List (Action (Fin 1) Unit)) (t : State (Fin 1) Unit),
    run (step x wf nodeId) actions { session } = some t →
      ∀ i outcome, t.calls i = .ended outcome → Proper (t.eventsOf i) outcome := by
  intro always
  obtain ⟨actions,t,outcome,ran,ended⟩ := alert_runs
  exact ended_improper ran ended (always answering alert (fun _ => "alert") fresh actions t ran 0 outcome ended)

end IceOS.NodeEvents
