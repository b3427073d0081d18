import IceOS.WorkflowRuns

/-! What a workflow run reports of its nodes when failures do not halt it. A coroutine that
raises is filed under its error text, and the bookkeeping then looks for a node of that name;
runs without such a coroutine report every node they scheduled. -/
namespace IceOS

open Workflow

/-- A result came back with one entry for each node that was attempted, and the nodes whose
last attempt failed are marked as failed. -/
def Reports (outcome : Outcome) (history : List Attempt) : Prop :=
  ∃ result entries, outcome = .returned result ∧ result.output = .dict entries ∧
    (entries.map Prod.fst).Nodup ∧ (∀ id, id ∈ entries.map Prod.fst ↔ id ∈ history.map (·.id)) ∧
    ∀ id ending, latest history id = some ending → ending ≠ .succeeded →
      ∃ fields, entries.lookup id = some (.dict fields) ∧ fields.lookup "success" = some (.bool false)

/-- A level start from which nothing goes unreported: its gather returns, the mappings of its
nodes resolve, no token abort cuts its bookkeeping short, and its recursive flows leave
the nodes of the level itself alone. -/
structure Reportable (wf : Workflow) (eng : Engine σ) (limit : Nat) (b : LevelStart σ) : Prop where
  returns : eng.stalls (b.nodes wf) b.state.world = false
  resolves : ∀ node ∈ b.nodes wf, ∃ ctx, ContextBuilder.buildNodeContext node b.state.results = .ok ctx
  booked : wf.droppedAt eng limit b = []
  apart : ∀ a ∈ wf.flowsAt eng limit b, a.id ∉ b.ids

instance (wf : Workflow) (eng : Engine σ) (limit : Nat) (b : LevelStart σ) :
    Decidable (Reportable wf eng limit b) :=
  decidable_of_iff
    (eng.stalls (b.nodes wf) b.state.world = false ∧
      (∀ node ∈ b.nodes wf, (ContextBuilder.buildNodeContext node b.state.results).toOption.isSome = true) ∧
      (wf.droppedAt eng limit b).isEmpty = true ∧ ∀ a ∈ wf.flowsAt eng limit b, a.id ∉ b.ids)
    (by
      have made (node : NodeConfig) :
          (ContextBuilder.buildNodeContext node b.state.results).toOption.isSome = true ↔
            ∃ ctx, ContextBuilder.buildNodeContext node b.state.results = .ok ctx := by
        cases ContextBuilder.buildNodeContext node b.state.results <;> simp [Except.toOption]
      simp only [made,List.isEmpty_iff]
      exact ⟨fun ⟨a,b,c,d⟩ => ⟨a,b,c,d⟩,fun h => ⟨h.returns,h.resolves,h.booked,h.apart⟩⟩)

theorem latest_of_mem {history : List Attempt} (nodup : (history.map (·.id)).Nodup) {a : Attempt}
    (member : a ∈ history) : latest history a.id = some a.ending := by
  cases found : history.reverse.find? (·.id = a.id) with
  | none =>
    have missing := List.find?_eq_none.mp found a (List.mem_reverse.mpr member)
    simp at missing
  | some other =>
    have same : other.id = a.id := by simpa using List.find?_some found
    have inside : other ∈ history := List.mem_reverse.mp (List.mem_of_find?_eq_some found)
    simp [latest,found,List.inj_on_of_nodup_map nodup inside member same]

/-- When every coroutine returned a result, the level's results are those of its nodes. -/
theorem filed_items {σ : Type} {wf : Workflow} {eng : Engine σ} {limit : Nat} {b : LevelStart σ}
    {runs : List NodeRun} {levelResults : Results} {flows : List Attempt} {flowed : RunState σ}
    (level : LevelRun wf eng limit b runs levelResults flows flowed)
    (ids : runs.map (·.node.id) = b.ids) (nodup : b.ids.Nodup)
    (returned : ∀ r ∈ runs, ∃ result, r.outcome = .ok result) :
    levelResults.items = runs.map fun r => fileOutcome (r.node.id,r.outcome) := by
  have keys : (runs.map fun r => fileOutcome (r.node.id,r.outcome)).map Prod.fst = b.ids := by
    rw [← ids,List.map_map]
    refine List.map_congr_left fun r member => ?_
    obtain ⟨result,outcome⟩ := returned r member
    simp [outcome,fileOutcome]
  rw [level.filed]
  exact OrderedDict.ofList_items _ (keys ▸ nodup)

section Levels

variable {σ : Type} {wf : Workflow} {eng : Engine σ} {limit : Nat}

theorem outcomes_returned {b : LevelStart σ} {runs : List NodeRun} {levelResults : Results}
    {flows : List Attempt} {flowed : RunState σ}
    (level : LevelRun wf eng limit b runs levelResults flows flowed)
    (answers : ∀ node ctx w, ∃ r, (eng.executeNode node ctx w).1 = .ok r)
    (resolves : ∀ node ∈ b.nodes wf, ∃ ctx, ContextBuilder.buildNodeContext node b.state.results = .ok ctx) :
    ∀ r ∈ runs, ∃ result, r.outcome = .ok result := by
  intro r member
  have inside : r.node ∈ b.nodes wf := level.nodes ▸ List.mem_map_of_mem member
  have ran := level.ran r member
  generalize r.outcome = outcome at ran ⊢
  generalize r.ending = ending at ran
  cases ran with
  | unbuilt e failed =>
    obtain ⟨ctx,made⟩ := resolves r.node inside
    simp [made] at failed
  | built ctx base world made => exact answers r.node ctx world

/-- Booking a whole level on top of its recursive flows brings results and history in step. -/
theorem booked_recorded {b : LevelStart σ} {runs : List NodeRun} {levelResults : Results}
    {flows : List Attempt} {flowed t : RunState σ}
    (level : LevelRun wf eng limit b runs levelResults flows flowed)
    (ids : runs.map (·.node.id) = b.ids) (nodup : b.ids.Nodup)
    (returned : ∀ r ∈ runs, ∃ result, r.outcome = .ok result)
    (apart : ∀ a ∈ flows, a.id ∉ b.ids) (books : Books flowed t levelResults.items extra)
    (before : Recorded b.state.results b.state.history) : Recorded t.results t.history := by
  have items := filed_items level ids nodup returned
  have attemptIds : (runs.map (·.attempt b.state.results)).map (·.id) = b.ids := by
    rw [← ids,List.map_map]; rfl
  intro id
  have recorded : status t.results id = ((levelResults.get? id).map (·.success)).or (status flowed.results id) := by
    simp only [status,books.results,OrderedDict.get?_update_items]
    cases levelResults.get? id <;> rfl
  rw [recorded,books.history,level.history,latest_append,latest_append,level.statuses]
  cases found : levelResults.get? id with
  | some result =>
    have member := (levelResults.get?_eq_some id result).mp found
    rw [items] at member
    obtain ⟨r,inRuns,same⟩ := List.mem_map.mp member
    obtain ⟨given,outcome⟩ := returned r inRuns
    rw [outcome] at same
    cases same
    have own : r.node.id ∈ b.ids := ids ▸ List.mem_map_of_mem (f := (·.node.id)) inRuns
    have quiet : latest flows r.node.id = none := by
      rw [latest_eq_none]
      intro flow
      obtain ⟨a,inFlows,same⟩ := List.mem_map.mp flow
      exact apart a inFlows (same ▸ own)
    have last : latest (runs.map (·.attempt b.state.results)) r.node.id = some r.ending :=
      latest_of_mem (attemptIds ▸ nodup)
        (List.mem_map_of_mem (f := (·.attempt b.state.results)) inRuns)
    have ends := (level.ran r inRuns).succeeded
    simp [quiet,last,ends,outcome,successOf]
  | none =>
    have absent : latest (runs.map (·.attempt b.state.results)) id = none := by
      rw [latest_eq_none,attemptIds,← ids]
      intro member
      obtain ⟨r,inRuns,rfl⟩ := List.mem_map.mp member
      obtain ⟨result,outcome⟩ := returned r inRuns
      apply (levelResults.get?_eq_none r.node.id).mp found
      simp only [OrderedDict.keys,items,List.map_map,List.mem_map]
      exact ⟨r,inRuns,by simp [fileOutcome,outcome]⟩
    rw [absent,before id]
    cases latest flows id <;> rfl

/-- A turn of the loop from a reportable level start keeps results and history in step. -/
theorem levelStep_recorded (acyclic : wf.graph.graph.Acyclic)
    (deep : wf.graph.graph.edges.length < limit)
    (answers : ∀ node ctx w, ∃ r, (eng.executeNode node ctx w).1 = .ok r) (b : LevelStart σ)
    (known : ∀ id ∈ b.ids, id ∈ wf.nodes.keys) (nodup : b.ids.Nodup)
    (reportable : wf.depthStop b.index = none → Reportable wf eng limit b)
    (all : AllActive b.state.activeCache) (before : Recorded b.state.results b.state.history) :
    ∃ t, Recorded t.results t.history ∧ AllActive t.activeCache ∧
      (wf.levelStep eng limit b = .next t ∨ wf.levelStep eng limit b = .stop t) := by
  rcases runLevel_cases wf eng acyclic deep b all with ⟨text,_,cut⟩ |
    ⟨shallow,⟨s,_,stalls,_⟩ | ⟨runs,levelResults,flows,flowed,level,ended⟩⟩
  · exact ⟨b.state.addError text,before,all,.inr (by simp only [levelStep,cut])⟩
  · simp [(reportable shallow).returns] at stalls
  · have conditions := reportable shallow
    have ids := levelRun_ids level known
    have returned := outcomes_returned level answers conditions.resolves
    have items := filed_items level ids nodup returned
    have kept : wf.dropped levelResults.items flowed = [] := level.droppedAt ▸ conditions.booked
    have apart : ∀ a ∈ flows, a.id ∉ b.ids := level.flowsAt ▸ conditions.apart
    rcases bookEntries_cases wf levelResults.items flowed with ⟨t,did,books,_,_⟩ |
      ⟨t,text,booked,did,_,books,parts,_⟩ | ⟨e,t,_,_,entry,member,unknown⟩
    · refine ⟨t,booked_recorded level ids nodup returned apart books before,books.cache level.cache,?_⟩
      simpa only [levelStep,ended,bookLevel,did] using goOn_cases wf t
    · rw [kept,List.append_nil] at parts
      rw [← parts] at books
      refine ⟨t,booked_recorded level ids nodup returned apart books before,books.cache level.cache,?_⟩
      simpa only [levelStep,ended,bookLevel,did] using goOn_cases wf t
    · rw [items] at member
      obtain ⟨r,inRuns,rfl⟩ := List.mem_map.mp member
      obtain ⟨result,outcome⟩ := returned r inRuns
      have own : r.node.id ∈ b.ids := ids ▸ List.mem_map_of_mem (f := (·.node.id)) inRuns
      simp [outcome,fileOutcome,known r.node.id own] at unknown

theorem runAll_recorded (acyclic : wf.graph.graph.Acyclic)
    (deep : wf.graph.graph.edges.length < limit)
    (answers : ∀ node ctx w, ∃ r, (eng.executeNode node ctx w).1 = .ok r) (world : σ)
    (reportable : ∀ start ∈ wf.starts eng limit world, wf.depthStop start.1.index = none →
      Reportable wf eng limit start.1) :
    ∃ t, Recorded t.results t.history ∧
      (wf.runAll eng limit world = .next t ∨ wf.runAll eng limit world = .stop t) := by
  refine (runLevels_rule
    (fun start => wf.depthStop start.1.index = none → Reportable wf eng limit start.1)
    (fun _ levels s => (∀ id ∈ levels.flatten, id ∈ wf.nodes.keys) ∧ levels.flatten.Nodup ∧
      AllActive s.activeCache ∧ Recorded s.results s.history)
    (fun flow => ∃ t, Recorded t.results t.history ∧ (flow = .next t ∨ flow = .stop t))
    ?_ ?_ wf.levels 1 (initialState world) ?_ reportable).1
  · exact fun _ s ⟨_,_,_,recorded⟩ => ⟨s,recorded,.inl rfl⟩
  · intro b rest cond ⟨known,distinct,all,recorded⟩
    simp only [List.flatten_cons] at known distinct
    obtain ⟨t,recorded',all',next | stop⟩ := levelStep_recorded acyclic deep answers b
      (fun id member => known id (List.mem_append_left _ member)) (List.nodup_append.mp distinct).1
      cond all recorded
    · rw [next]
      exact ⟨fun id member => known id (List.mem_append_right _ member),
        (List.nodup_append.mp distinct).2.1,all',recorded'⟩
    · rw [stop]
      exact ⟨t,recorded',.inr rfl⟩
  · exact ⟨fun id => (wf.covers id).mp,wf.distinct,allActive_empty,fun id => rfl⟩

end Levels

theorem serialize_failed {result : NodeExecutionResult} (failed : result.success = false) :
    ∃ fields, serialize result = .dict fields ∧ fields.lookup "success" = some (.bool false) := by
  refine ⟨_,by simp only [serialize,failed,Bool.false_and,Bool.false_eq_true,if_false]; rfl,?_⟩
  rw [← OrderedDict.get?,OrderedDict.get?_set_other _ _ (by decide),OrderedDict.get?_set_same]

theorem finalResult_reports {σ : Type} {t : RunState σ} (recorded : Recorded t.results t.history) :
    Reports (.returned (finalResult t)) t.history := by
  refine ⟨_,_,rfl,rfl,?_,fun id => ?_,fun id ending last failed => ?_⟩
  · simpa [Function.comp_def] using t.results.nodup
  · have known := recorded id
    simp only [List.map_map,Function.comp_def]
    change id ∈ t.results.keys ↔ _
    rw [OrderedDict.mem_keys,← not_iff_not,← latest_eq_none]
    simp only [status] at known
    cases last : latest t.history id with
    | none => simpa [last] using known
    | some ending =>
      cases found : t.results.get? id with
      | none => simp [last,found] at known
      | some result => simp
  · have known := recorded id
    simp only [last,Option.map_some,status] at known
    obtain ⟨result,found,success⟩ := Option.map_eq_some_iff.mp known
    have lost : result.success = false := by
      rw [success]
      cases ending <;> simp_all
    obtain ⟨fields,shown,marked⟩ := serialize_failed lost
    refine ⟨fields,?_,marked⟩
    rw [← shown]
    exact finalEntries_lookup t found

/-- Reporting under a policy that does not halt, for runs all of whose levels are reportable.
Nodes whose executor never succeeds are among the failed ones. -/
theorem execute_reports (wf : Workflow) (x : Executors ω) (current : ω → Option GraphContext)
    (stalls : List NodeConfig → ω → Bool) (limit : Nat) (world : Session ω)
    (lenient : wf.failurePolicy ≠ .halt) (acyclic : wf.graph.graph.Acyclic)
    (deep : wf.graph.graph.edges.length < limit) (some : wf.nodes.keys ≠ [])
    (reportable : ∀ start ∈ wf.starts (NodeExecutor.engine x wf.failurePolicy current stalls) limit world,
      wf.depthStop start.1.index = none →
        Reportable wf (NodeExecutor.engine x wf.failurePolicy current stalls) limit start.1) :
    Reports (wf.execute (NodeExecutor.engine x wf.failurePolicy current stalls) limit world)
        (wf.runAll (NodeExecutor.engine x wf.failurePolicy current stalls) limit world).state.history ∧
      ∀ node ctx s, (∀ w, ¬(x.executor node ctx w).1.Succeeds) →
        ∃ r, (NodeExecutor.executeNode x wf.failurePolicy node ctx s).1 = .ok r ∧ r.success = false := by
  constructor
  · have answers : ∀ node ctx w, ∃ r,
        ((NodeExecutor.engine x wf.failurePolicy current stalls).executeNode node ctx w).1 = .ok r :=
      NodeExecutor.executeNode_returns x lenient
    obtain ⟨t,recorded,ended⟩ := runAll_recorded acyclic deep answers world reportable
    have leaves : wf.graph.getLeafNodes ≠ [] := by
      apply wf.graph.graph.acyclic_sinks acyclic
      obtain ⟨id,member⟩ := List.exists_mem_of_ne_nil _ some
      exact List.ne_nil_of_mem ((wf.listed id).mpr member)
    obtain ⟨leaf,more,parts⟩ := List.exists_cons_of_ne_nil leaves
    have finished : wf.finish t = .returned (finalResult t) := by simp only [finish,parts]
    rcases ended with next | stop
    · simp only [execute,next,finished,Flow.state]
      exact finalResult_reports recorded
    · simp only [execute,stop,finished,Flow.state]
      exact finalResult_reports recorded
  · intro node ctx s bad
    obtain ⟨r,done⟩ := NodeExecutor.executeNode_returns x lenient node ctx s
    exact ⟨r,done,NodeExecutor.executeNode_fails x wf.failurePolicy node ctx bad s done⟩

/-- Two independent nodes, and one that maps in the output of the first. -/
def relayNodes : List NodeConfig :=
  [{ id := "fetch",type := .tool },{ id := "audit",type := .tool },
    { id := "report",type := .tool,dependencies := ["fetch"]
      inputMappings := [("body",.reference "fetch" "text")] }]

def relay : Workflow := .ofNodes {} relayNodes (by decide +kernel)

/-- Executors that validate everything and fail exactly the node `bad`. -/
def failing (bad : String) : Executors Unit where
  runtimeValidate _ := none
  executor node _ w :=
    (.result (if node.id = bad then { success := false,error := some "timeout" }
      else { output := .dict [("text",.str "ok")] }),w)
  coerce _ v := .ok v
  persist _ _ w := (none,w)
  isOutputValid _ _ := true

def openBudget : Budget := { maximum := budgetDefaults,failClosed := true }

theorem relay_acyclic : relay.graph.graph.Acyclic :=
  relay.graph.graph.acyclic_of_numbering (fun id => if id = "report" then 1 else 0) (by decide +kernel)

/-- With the independent node failing, the run is reported in full. -/
theorem relay_reports_audit :
    Reports (relay.execute (NodeExecutor.engine (failing "audit") .continuePossible (fun _ => none)
        fun _ _ => false) 3 ⟨openBudget,()⟩)
        (relay.runAll (NodeExecutor.engine (failing "audit") .continuePossible (fun _ => none)
          fun _ _ => false) 3 ⟨openBudget,()⟩).state.history ∧
      ∀ node ctx s, (∀ w, ¬((failing "audit").executor node ctx w).1.Succeeds) →
        ∃ r, (NodeExecutor.executeNode (failing "audit") .continuePossible node ctx s).1 = .ok r ∧
          r.success = false :=
  execute_reports relay (failing "audit") (fun _ => none) (fun _ _ => false) 3 ⟨openBudget,()⟩
    (by decide +kernel) relay_acyclic (by decide +kernel) (by decide +kernel) (by decide +kernel)

/-- With the first node failing, the third one's context cannot be built: its exception is
filed under its text, and the bookkeeping raises a `KeyError`. -/
theorem relay_raises_without_fetch :
    ¬∀ (wf : Workflow) (x : Executors Unit) (limit : Nat) (world : Session Unit),
      wf.failurePolicy ≠ .halt → wf.graph.graph.Acyclic → wf.graph.graph.edges.length < limit →
      wf.nodes.keys ≠ [] →
        Reports
          (wf.execute (NodeExecutor.engine x wf.failurePolicy (fun _ => none) fun _ _ => false) limit world)
          (wf.runAll (NodeExecutor.engine x wf.failurePolicy (fun _ => none)
            fun _ _ => false) limit world).state.history := by
  intro claim
  obtain ⟨result,_,returned,_⟩ := claim relay (failing "fetch") 3 ⟨openBudget,()⟩ (by decide +kernel)
    relay_acyclic (by decide +kernel) (by decide +kernel)
  have raised : (match relay.execute (NodeExecutor.engine (failing "fetch") relay.failurePolicy
      (fun _ => none) fun _ _ => false) 3 ⟨openBudget,()⟩ with
    | .raised _ => true | _ => false) = true := by decide +kernel
  simp [returned] at raised

end IceOS
