import IceOS.RunLedgers

/-! Every executor adds a segment to the ledger: the node executor around an executor that does, the executors that
run other nodes over nodes that do, and the run of a workflow inside another. -/
namespace IceOS

open Workflow (successOf)

/-- Usage comes without a cost, and only with a success. -/
def Uncosted (r : NodeExecutionResult) : Prop := ∀ u, r.usage = some u → u.cost = 0 ∧ r.success = true

def Reply.ok : Reply → Bool
  | .raised _ => false
  | .result r => r.success
  | .value _ => true

def Reply.Uncosted : Reply → Prop
  | .result r => IceOS.Uncosted r
  | _ => True

theorem uncosted_none {r : NodeExecutionResult} (none : r.usage = none) : Uncosted r := by
  intro u some
  rw [none] at some
  cases some

theorem tokens_none {r : NodeExecutionResult} (none : r.usage = none) : r.tokens = 0 := by
  simp [NodeExecutionResult.tokens,none]

theorem Uncosted.cost {r : NodeExecutionResult} (free : Uncosted r) : (r.usage.map (·.cost)).getD 0 = 0 := by
  cases usage : r.usage with
  | none => rfl
  | some u => exact (free u usage).1

theorem Budget.register_free (b : Budget) (type : NodeType) : (b.register type 0).2.totalCost = b.totalCost := by
  have unchanged := Rat.add_zero b.totalCost
  cases type <;> first | exact unchanged | rfl

section

variable {ω : Type}

/-- An executor was called from `s`. -/
def Replied (s : Running ω) (answer : Reply × Running ω) : Prop :=
  Segment s answer.2 answer.1.ok answer.1.tokens ∧ answer.1.Uncosted

/-- A node was executed from `s`. -/
def Executed (s : Running ω) (ended : Except Exn NodeExecutionResult × Running ω) : Prop :=
  Segment s ended.2 (successOf ended.1) (carried ended.1) ∧ ∀ r, ended.1 = .ok r → Uncosted r

variable {s t : Running ω}

theorem Replied.result {r : NodeExecutionResult} (plain : r.usage = none) (segment : Segment s t r.success 0) :
    Replied s (.result r,t) := by
  refine ⟨?_,uncosted_none plain⟩
  rw [← tokens_none plain] at segment
  exact segment

theorem Executed.failed {r : NodeExecutionResult} (plain : r.usage = none) (lost : r.success = false)
    (segment : Segment s t false 0) : Executed s (.ok r,t) := by
  refine ⟨?_,fun r' same => by cases same; exact uncosted_none plain⟩
  rw [← tokens_none plain,← lost] at segment
  exact segment

theorem Segment.called (s : Running ω) (w : ω) (calls : List LlmCall) (ok : Bool) :
    Segment s ((s.put w).note (ExecutorRuntime.outside calls)) ok 0 := (Segment.put s w true).next (.outside _ calls ok)

/-- What an executor answers when nothing in the answer has usage. -/
theorem Replied.answered (answer : Answer) (segment : ∀ ok, Segment s t ok 0) :
    Replied s (answer.reply,t) := by
  cases answer with
  | raised e => exact ⟨segment false,trivial⟩
  | result r => exact .result rfl (segment r.success)
  | value v => exact ⟨segment true,trivial⟩

end

namespace ExecutorRuntime

variable {ω : Type} (rt : ExecutorRuntime ω)

/-! ### The node executor -/

section

variable {call : Running ω → Reply × Running ω} (replied : ∀ s, Replied s (call s)) (nodeId : String)
  (node : NodeConfig)

theorem chargeFor_free (r : NodeExecutionResult) (t : Running ω) :
    (NodeExecutor.chargeFor node 0 r t).2.notes = t.notes ∧
      (NodeExecutor.chargeFor node 0 r t).2.budget.totalCost = t.budget.totalCost ∧
      ∀ r', (NodeExecutor.chargeFor node 0 r t).1 = .ok r' → r' = r := by
  refine ⟨rfl,t.budget.register_free node.type,fun r' same => ?_⟩
  simp only [NodeExecutor.chargeFor] at same
  split at same
  · cases same
  · cases same
    rfl

/-- Accounting for a reply neither notes nor costs anything, and no failure becomes a success. -/
theorem finish_kept {reply : Reply} (free : reply.Uncosted) (t : Running ω) :
    (NodeExecutor.finish rt.replies node reply t).2.notes = t.notes ∧
      (NodeExecutor.finish rt.replies node reply t).2.budget.totalCost = t.budget.totalCost ∧
      ∀ r, (NodeExecutor.finish rt.replies node reply t).1 = .ok r →
        (r.success = true → reply.ok = true) ∧ r.tokens = reply.tokens ∧ Uncosted r := by
  cases reply with
  | raised e => exact ⟨rfl,rfl,fun _ ended => by cases ended⟩
  | result r =>
    obtain ⟨notes,cost,same⟩ := chargeFor_free node r t
    simp only [NodeExecutor.finish,Uncosted.cost free]
    refine ⟨notes,cost,fun r' charged => ?_⟩
    cases same r' charged
    exact ⟨id,rfl,free⟩
  | value v =>
    simp only [NodeExecutor.finish,NodeExecutor.finishValue]
    cases rt.replies.coerce node v with
    | error e => exact ⟨rfl,rfl,fun _ ended => by cases ended⟩
    | ok output =>
      simp only
      split
      · simp only [replies]
        split
        · exact ⟨rfl,rfl,fun _ ended => by cases ended⟩
        · refine ⟨rfl,t.budget.register_free node.type,fun r charged => ?_⟩
          cases (chargeFor_free node _ _).2.2 r charged
          exact ⟨fun _ => rfl,rfl,uncosted_none rfl⟩
      · exact ⟨rfl,rfl,fun r same => by cases same; exact ⟨fun fine => (by cases fine),rfl,uncosted_none rfl⟩⟩

theorem finish_executed {s t : Running ω} {reply : Reply} (answer : Replied s (reply,t)) :
    Executed s (rt.finish node reply t) := by
  obtain ⟨segment,free⟩ := answer
  obtain ⟨notes,cost,kept⟩ := rt.finish_kept node free t
  simp only [finish]
  cases ended : NodeExecutor.finish rt.replies node reply t with
  | mk outcome u =>
    rw [ended] at notes cost kept
    cases outcome with
    | error e => exact ⟨(segment.failed.congr notes cost).drop,fun _ ended => by cases ended⟩
    | ok r =>
      obtain ⟨less,tokens,plain⟩ := kept r rfl
      refine ⟨?_,fun r' same => by cases same; exact plain⟩
      simp only [successOf,carried,tokens]
      exact (segment.congr notes cost).weaken less

include replied

theorem dispatch_replied (left : Nat) (s : Running ω) :
    Replied s ((dispatch call nodeId left s).1.1,(dispatch call nodeId left s).2) := by
  induction left generalizing s with
  | zero => exact replied s
  | succ left ih =>
    have first := replied s
    cases called : call s with
    | mk reply t =>
      rw [called] at first
      simp only [dispatch,called]
      cases reply with
      | raised e =>
        -- whatever failed in this attempt is forgotten by trying again
        have again := ih (t.note (forgotten nodeId s.notes t.notes))
        exact ⟨(first.1.forget nodeId true).next again.1,again.2⟩
      | result r => exact first
      | value v => exact first

theorem rounds_executed (left : Nat) (s : Running ω) : Executed s (rt.rounds call nodeId node left s) := by
  induction left generalizing s with
  | zero => exact rt.finish_executed node (dispatch_replied replied nodeId _ s)
  | succ left ih =>
    have ended := rt.finish_executed node (dispatch_replied replied nodeId (NodeExecutor.maxRetries node) s)
    simp only [rounds]
    cases finished : rt.finish node (dispatch call nodeId (NodeExecutor.maxRetries node) s).1.1
        (dispatch call nodeId (NodeExecutor.maxRetries node) s).2 with
    | mk outcome u =>
      rw [finished] at ended
      cases outcome with
      | ok r => exact ended
      | error e =>
        simp only
        split
        · exact ended
        · have again := ih (u.note (forgotten nodeId s.notes u.notes))
          exact ⟨(ended.1.forget nodeId true).next again.1,again.2⟩

theorem executeNode_executed (policy : FailurePolicy) (s : Running ω) :
    Executed s (rt.executeNode call nodeId node policy s) := by
  simp only [executeNode]
  cases rt.runtimeValidate node with
  | some e =>
    simp only
    split
    · exact ⟨.refl s _,fun _ ended => by cases ended⟩
    · exact .failed rfl rfl (.refl s _)
  | none =>
    have ended := rt.rounds_executed replied nodeId node (NodeExecutor.maxRetries node) s
    cases ran : rt.rounds call nodeId node (NodeExecutor.maxRetries node) s with
    | mk outcome t =>
      rw [ran] at ended
      cases outcome with
      | ok r => exact ended
      | error e =>
        simp only
        split
        · exact ended
        · exact .failed rfl rfl ended.1

end

/-! ### Nodes inside other nodes -/

/-- A nested node was executed from `s`, and its failure would have been noted. -/
def Reported (s : Running ω) (ended : Except Exn NodeExecutionResult × Running ω) : Prop :=
  Executed s ended ∧ (successOf ended.1 = false → Told s ended.2)

theorem endingOf_succeeded (outcome : Except Exn NodeExecutionResult) :
    decide (endingOf outcome = .succeeded) = successOf outcome := by
  cases outcome with
  | error e => rfl
  | ok r => cases success : r.success <;> simp [endingOf,successOf,success]

theorem executeNodeConfig_reported {call : NodeConfig → Context → Running ω → Reply × Running ω}
    (replied : ∀ node ctx s, Replied s (call node ctx s)) (wf : Workflow) (parentId : String) (node : NodeConfig)
    (ctx : Context) (s : Running ω) : Reported s (rt.executeNodeConfig call wf parentId node ctx s) := by
  simp only [executeNodeConfig]
  cases wf.graph.getNodeLevel (tempId parentId node.id) with
  | error e =>
    have told := Told.execution (.refl s false) (tempId parentId node.id)
    exact ⟨⟨(Segment.refl s false).execution _ id,nofun⟩,fun _ => told⟩
  | ok level =>
    obtain ⟨segment,free⟩ :=
      rt.executeNode_executed (replied node ctx) (tempId parentId node.id) node wf.failurePolicy s
    simp only [endingOf_succeeded]
    refine ⟨⟨segment.execution _ id,free⟩,fun failed => ?_⟩
    simp only at failed
    rw [failed]
    exact .execution segment _

/-- Nodes were run one after another from `s`, and the exception that ended them is told of. -/
def Walked {α : Type} (s : Running ω) (ended : Except Exn α × Running ω) : Prop :=
  Segment s ended.2 ended.1.isOk 0 ∧ (ended.1.isOk = false → Told s ended.2)

/-- The result of a nested node is passed over, and then more nodes are run. -/
theorem Walked.cons {α : Type} {s t : Running ω} {r : NodeExecutionResult} {ended : Except Exn α × Running ω}
    (node : Reported s (.ok r,t)) (id : String) (later : Walked (t.note (passedOver id r)) ended) : Walked s ended := by
  obtain ⟨⟨segment,_⟩,told⟩ := node
  have first := segment.passedOver told id
  exact ⟨first.next later.1,fun failed => .after first (later.2 failed)⟩

section

variable {nested : NodeConfig → Context → Running ω → Except Exn NodeExecutionResult × Running ω}
  (reported : ∀ node ctx s, Reported s (nested node ctx s))

include reported

theorem runBranch_walked (nodes : List NodeConfig) (ctx outputs : Context) (s : Running ω) :
    Walked s (runBranch nested nodes ctx outputs s) := by
  induction nodes generalizing ctx outputs s with
  | nil => exact ⟨.refl s true,nofun⟩
  | cons node rest ih =>
    have first := reported node ctx s
    simp only [runBranch]
    cases ended : nested node ctx s with
    | mk outcome t =>
      rw [ended] at first
      cases outcome with
      | error e => exact ⟨first.1.1,fun _ => first.2 rfl⟩
      | ok r => exact .cons first node.id (ih _ _ _)

theorem executeBranch_walked (nodes : List NodeConfig) (ctx results : Context) (s : Running ω) :
    Walked s (executeBranch nested nodes ctx results s) := by
  induction nodes generalizing ctx results s with
  | nil => exact ⟨.refl s true,nofun⟩
  | cons node rest ih =>
    have first := reported node ctx s
    simp only [executeBranch]
    cases ended : nested node ctx s with
    | mk outcome t =>
      rw [ended] at first
      cases outcome with
      | error e => exact ⟨first.1.1,fun _ => first.2 rfl⟩
      | ok r => exact .cons first node.id (ih _ _ _)

theorem executeBranches_segment (id : String) (ctx : Context) (index : Nat) (branches : List (List NodeConfig))
    (s : Running ω) : Segment s (executeBranches nested id ctx index branches s).2 true 0 := by
  induction branches generalizing index s with
  | nil => exact .refl s true
  | cons branch rest ih =>
    obtain ⟨segment,told⟩ := executeBranch_walked reported branch (ctx.set "branch_index" (.int index)) .empty s
    simp only [executeBranches]
    cases ended : executeBranch nested branch (ctx.set "branch_index" (.int index)) .empty s with
    | mk outcome t =>
      rw [ended] at segment told
      cases outcome with
      | ok results => exact segment.next (ih (index + 1) t)
      | error e => exact (segment.ignore (told rfl) id true).next (ih (index + 1) _)

theorem conditionNodeExecutor_replied (node : NodeConfig) (ctx : Context) (s : Running ω) :
    Replied s ((rt.conditionNodeExecutor nested node ctx s).map .result id) := by
  simp only [conditionNodeExecutor]
  cases rt.evaluate node ctx s.world.world with
  | mk result w =>
    cases result with
    | error e => exact .result rfl (.put s w false)
    | ok result =>
      obtain ⟨segment,_⟩ := runBranch_walked reported
        (if result.truthy then (rt.inner node).truePath else (rt.inner node).falsePath)
        (ctx.set "condition_result" result) .empty (s.put w)
      simp only
      cases ended : runBranch nested (if result.truthy then (rt.inner node).truePath else (rt.inner node).falsePath)
          (ctx.set "condition_result" result) .empty (s.put w) with
      | mk outcome t =>
        rw [ended] at segment
        have whole := (Segment.put s w true).next segment
        cases outcome with
        | error e => exact .result rfl whole
        | ok outputs => exact .result rfl whole

theorem parallelBranches_replied (node : NodeConfig) (ctx : Context) (s : Running ω) :
    Replied s ((rt.parallelBranches nested node ctx s).map .result id) := by
  simp only [parallelBranches]
  split
  · exact .result rfl (.refl s false)
  · exact .result rfl (executeBranches_segment reported node.id ctx 0 (rt.inner node).branches s)

end

theorem delegate_replied (node : NodeConfig) (ctx : Context) {own : Running ω → Reply × Running ω}
    (replied : ∀ s, Replied s (own s)) {refuse : Exn → Reply}
    (refuses : ∀ e (s t : Running ω), Segment s t false 0 → Replied s (refuse e,t)) (s : Running ω) :
    Replied s (rt.delegate node ctx own refuse s) := by
  simp only [delegate]
  cases rt.factory node with
  | none => exact replied s
  | some execute =>
    simp only
    generalize execute ctx s.world.world = did
    obtain ⟨⟨delegated,calls⟩,w⟩ := did
    have called (ok : Bool) := Segment.called s w calls ok
    cases delegated with
    | keyError =>
      obtain ⟨segment,free⟩ := replied ((s.put w).note (outside calls))
      exact ⟨(called true).next segment,free⟩
    | answer answer =>
      cases answer with
      | raised e => exact refuses e s _ (called false)
      | result r => exact .result rfl (called r.success)
      | value v => exact .result rfl (called true)

section

variable {direct : NodeConfig → Context → Running ω → Reply × Running ω}
  (replied : ∀ node ctx s, Replied s (direct node ctx s))

include replied

theorem runBody_segment (nodes : List NodeConfig) (ctx : Context) (last : Value) (s : Running ω) :
    Segment s (runBody direct nodes ctx last s).2 (runBody direct nodes ctx last s).1.isOk 0 := by
  induction nodes generalizing ctx last s with
  | nil => exact .refl s true
  | cons node rest ih =>
    obtain ⟨segment,_⟩ := replied node ctx s
    simp only [runBody]
    cases called : direct node ctx s with
    | mk reply t =>
      rw [called] at segment
      cases reply with
      | raised e => exact segment.execution node.id id
      | value v => exact (segment.execution node.id id).next (ih _ v _)
      | result r =>
        exact (segment.ended node.id).next (ih (ctx.set node.id r.output) r.output _)

theorem iterate_segment (cfg : Inner) (ctx : Context) (items : List Value) (s : Running ω) :
    Segment s (iterate direct cfg ctx items s).2 (iterate direct cfg ctx items s).1.isOk 0 := by
  induction items generalizing s with
  | nil => exact .refl s true
  | cons item rest ih =>
    have first := runBody_segment replied cfg.body (ctx.set (itemName cfg) item) .none s
    simp only [iterate]
    cases ran : runBody direct cfg.body (ctx.set (itemName cfg) item) .none s with
    | mk outcome t =>
      rw [ran] at first
      cases outcome with
      | error e => exact first
      | ok last =>
        have both := first.next (ih t)
        simp only
        cases went : iterate direct cfg ctx rest t with
        | mk outcome u =>
          rw [went] at both
          cases outcome with
          | error e => exact both
          | ok results => exact both

theorem loopOverItems_replied (node : NodeConfig) (ctx : Context) (s : Running ω) :
    Replied s (rt.loopOverItems direct node ctx s) := by
  simp only [loopOverItems]
  cases loopItems (rt.inner node) ctx with
  | error e => exact ⟨.refl s false,trivial⟩
  | ok items =>
    have ran := iterate_segment replied (rt.inner node) ctx items s
    simp only
    cases went : iterate direct (rt.inner node) ctx items s with
    | mk outcome t =>
      rw [went] at ran
      cases outcome with
      | error e => exact ⟨ran,trivial⟩
      | ok results => exact .result rfl ran

end

/-! ### Workflows inside nodes -/

/-- The run of a workflow inside another adds a segment, and carries nothing out of it. -/
def Enclosed (run : Workflow → Running ω → Finished ω) : Prop :=
  ∀ wf s, Segment s (run wf s).session (run wf s).outcome.succeeds 0

/-- A success came out, not an exception. -/
def came : Option (Except Exn Value) → Bool
  | some (.ok _) => true
  | _ => false

section

variable {run : Workflow → Running ω → Finished ω} (enclosed : Enclosed run)

include enclosed

theorem executeSub_segment (id : String) (sub : SubWorkflow ω) (ctx : Context) (s : Running ω) :
    Segment s (rt.executeSub run id sub ctx s).2 (came (rt.executeSub run id sub ctx s).1) 0 := by
  cases sub with
  | workflow wf => exact .refl s false
  | other execute =>
    simp only [executeSub]
    generalize execute ctx s.world.world = did
    obtain ⟨⟨answer,calls⟩,w⟩ := did
    have called (ok : Bool) := Segment.called s w calls ok
    cases answer with
    | raised e => exact called false
    | value v => exact called true
    | result r =>
      have given : Segment s ((s.put w).note (outside calls)) r.result.success r.result.tokens := called r.success
      exact given.ended id
  | wrapper prepare =>
    simp only [executeSub]
    generalize prepare ctx s.world.world = prepared
    obtain ⟨wf,w⟩ := prepared
    have inner := enclosed wf { s.put w with budget := rt.enforcer.fresh }
    simp only
    cases ended : run wf { s.put w with budget := rt.enforcer.fresh } with
    | mk outcome tokens t =>
      rw [ended] at inner
      -- the enforcer of the inner run is not the one that the segment is about
      have segment : Segment s { t with budget := s.budget } outcome.succeeds 0 := ⟨rfl,inner.ledger⟩
      cases outcome with
      | stalled => exact segment
      | raised e => exact segment
      | returned r =>
        simp only
        split
        · next fine => exact segment.weaken fun _ => fine
        · exact segment.forget id true

theorem subWorkflowExecution_segment (id : String) (cfg : Inner) (ctx : Context) (s : Running ω) :
    (∀ r, (rt.subWorkflowExecution run id cfg ctx s).1 = some r →
        r.usage = none ∧ Segment s (rt.subWorkflowExecution run id cfg ctx s).2 r.success 0) ∧
      ((rt.subWorkflowExecution run id cfg ctx s).1 = none →
        Segment s (rt.subWorkflowExecution run id cfg ctx s).2 false 0) := by
  simp only [subWorkflowExecution]
  cases rt.workflowInstance cfg.workflowRef s.world.world with
  | mk found w =>
    cases found with
    | error e => exact ⟨fun r same => by cases same; exact ⟨rfl,.put s w false⟩,nofun⟩
    | ok sub =>
      have segment := (Segment.put s w true).next
        (rt.executeSub_segment enclosed id sub (ctx.update cfg.configOverrides) (s.put w))
      simp only
      cases ended : rt.executeSub run id sub (ctx.update cfg.configOverrides) (s.put w) with
      | mk came t =>
        rw [ended] at segment
        cases came with
        | none => exact ⟨nofun,fun _ => segment⟩
        | some value =>
          cases value with
          | error e => exact ⟨fun r same => by cases same; exact ⟨rfl,segment⟩,nofun⟩
          | ok v => exact ⟨fun r same => by cases same; exact ⟨rfl,segment⟩,nofun⟩

theorem workflowNodeExecutor_replied (node : NodeConfig) (ctx : Context) (s : Running ω) :
    Replied s (rt.workflowNodeExecutor run node ctx s) := by
  obtain ⟨fine,cut⟩ := rt.subWorkflowExecution_segment enclosed node.id (rt.inner node) ctx s
  simp only [workflowNodeExecutor]
  cases ended : rt.subWorkflowExecution run node.id (rt.inner node) ctx s with
  | mk outcome t =>
    rw [ended] at fine cut
    cases outcome with
    | none => exact ⟨cut rfl,trivial⟩
    | some r => exact .result (fine r rfl).1 (fine r rfl).2

theorem recursiveInner_segment (id : String) (ref : InnerRef) (ctx : Context) (s : Running ω × Bool) :
    Segment s.1 ((rt.recursiveRuntime run).inner id ref ctx s).2.1
        (successOf ((rt.recursiveRuntime run).inner id ref ctx s).1) 0 ∧
      ∀ r, ((rt.recursiveRuntime run).inner id ref ctx s).1 = .ok r → r.usage = none := by
  cases ref with
  | agent package =>
    exact ⟨.called s.1 _ _ _,fun r same => by cases same; rfl⟩
  | workflow reference =>
    obtain ⟨fine,cut⟩ := rt.subWorkflowExecution_segment enclosed id { workflowRef := reference } ctx s.1
    simp only [recursiveRuntime]
    cases ended : rt.subWorkflowExecution run id { workflowRef := reference } ctx s.1 with
    | mk outcome t =>
      rw [ended] at fine cut
      cases outcome with
      | none => exact ⟨cut rfl,nofun⟩
      | some r => exact ⟨(fine r rfl).2,fun r' same => by cases same; exact (fine r rfl).1⟩

end

end ExecutorRuntime

/-- A recursive node leaves all as it was, or hands on what its agent or workflow gave. -/
theorem RecursiveRuntime.run_cases {ω : Type} (rt : RecursiveRuntime ω) (node : NodeConfig) (ctx : Context) (w : ω) :
    ((rt.run node ctx w).2 = w ∧ (rt.run node ctx w).1.usage = none) ∨
      ∃ id ref enhanced, (rt.run node ctx w).2 = (rt.inner id ref enhanced w).2 ∧
        ((rt.run node ctx w).1.success = successOf (rt.inner id ref enhanced w).1) ∧
        ∀ u, (rt.run node ctx w).1.usage = some u → ∃ r, (rt.inner id ref enhanced w).1 = .ok r ∧ r.usage = some u := by
  have marked (settings : RecursiveSettings) (id : String) (next : Value) (enhanced : Context)
      (r : NodeExecutionResult) :
      (annotate settings id next enhanced r).success = r.success ∧
        (annotate settings id next enhanced r).usage = r.usage := by
    simp only [annotate]
    split
    · exact ⟨rfl,rfl⟩
    · exact ⟨rfl,rfl⟩
  simp only [run]
  split
  · exact .inl ⟨rfl,rfl⟩
  · exact .inl ⟨rfl,rfl⟩
  · split
    · exact .inl ⟨rfl,rfl⟩
    · simp only [iterate]
      split
      · exact .inl ⟨rfl,rfl⟩
      · split
        · exact .inl ⟨rfl,rfl⟩
        · next enhanced _ =>
          refine .inr ⟨node.id,(rt.settings node).inner,enhanced,?_⟩
          cases rt.inner node.id (rt.settings node).inner enhanced w with
          | mk outcome world =>
            cases outcome with
            | error e => exact ⟨rfl,rfl,nofun⟩
            | ok r =>
              obtain ⟨success,usage⟩ := marked (rt.settings node) node.id _ enhanced r
              exact ⟨rfl,success,fun u same => ⟨r,rfl,usage ▸ same⟩⟩

namespace ExecutorRuntime

variable {ω : Type} (rt : ExecutorRuntime ω)

theorem recursiveNodeExecutor_replied {run : Workflow → Running ω → Finished ω} (enclosed : Enclosed run)
    (node : NodeConfig) (ctx : Context) (s : Running ω) : Replied s (rt.recursiveNodeExecutor run node ctx s) := by
  refine rt.delegate_replied node ctx (fun s => ?_) (fun e s t segment => .result rfl segment) s
  have segment : Segment s ((rt.recursiveRuntime run).run node ctx (s,false)).2.1
        ((rt.recursiveRuntime run).run node ctx (s,false)).1.success 0 ∧
      ((rt.recursiveRuntime run).run node ctx (s,false)).1.usage = none := by
    rcases (rt.recursiveRuntime run).run_cases node ctx (s,false) with ⟨same,plain⟩ |
      ⟨id,ref,enhanced,same,success,usage⟩
    · rw [same]
      exact ⟨.refl s _,plain⟩
    · obtain ⟨segment,plain⟩ := rt.recursiveInner_segment enclosed id ref enhanced (s,false)
      rw [same,success]
      refine ⟨segment,Option.eq_none_iff_forall_ne_some.mpr fun u some => ?_⟩
      obtain ⟨r,gave,used⟩ := usage u some
      exact nomatch (plain r gave).symm.trans used
  simp only
  cases went : (rt.recursiveRuntime run).run node ctx (s,false) with
  | mk r after =>
    obtain ⟨t,cut⟩ := after
    rw [went] at segment
    cases cut with
    | true => exact ⟨segment.1.failed,trivial⟩
    | false => exact .result segment.2 segment.1

end ExecutorRuntime

end IceOS
