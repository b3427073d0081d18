import IceOS.FailureReporting

/-! When a run goes on after failures, and what becomes of the nodes behind a failed one. The
failed nodes are read back from error texts, the scan covers nodes that have run already, and
of the dependencies it only looks at the direct ones. -/
namespace IceOS

open Workflow

def Workflow.DirectDep (wf : Workflow) (id dep : String) : Prop :=
  ∃ node, wf.nodes.get? id = some node ∧ dep ∈ node.dependencies

def Workflow.DependsOn (wf : Workflow) : String → String → Prop := Relation.TransGen wf.DirectDep

/-- The last attempt at the node did not succeed. -/
def Failed (history : List Attempt) (id : String) : Prop :=
  ∃ ending, latest history id = some ending ∧ ending ≠ .succeeded

/-- The node depends, directly or not, on a failed one. -/
def Doomed (wf : Workflow) (history : List Attempt) (id : String) : Prop :=
  ∃ dep, wf.DependsOn id dep ∧ Failed history dep

/-- No node was handed to its executor when one it depends on had failed. -/
def Spares (wf : Workflow) (history : List Attempt) : Prop :=
  ∀ before a after, history = before ++ a :: after → a.Dispatched → ¬Doomed wf before a.id

/-- The level got as far as the failure policy, with the run state `t`. -/
def Decides (wf : Workflow) (eng : Engine σ) (limit : Nat) (b : LevelStart σ) (t : RunState σ) : Prop :=
  (wf.runLevel eng limit b = .booked t ∨ wf.runLevel eng limit b = .aborted t) ∧ t.errors ≠ []

/-- A run is given up exactly when every node still to be run is doomed, and doomed nodes
are not run. -/
structure HeedsFailures (wf : Workflow) (eng : Engine σ) (limit : Nat) (world : σ) : Prop where
  decides : ∀ start ∈ wf.starts eng limit world, ∀ t, Decides wf eng limit start.1 t →
    (shouldContinue wf.failurePolicy wf.levels wf.nodes t.errors = false ↔
      ∀ id ∈ wf.nodes.keys, id ∉ t.history.map (·.id) → Doomed wf t.history id)
  spares : Spares wf (wf.runAll eng limit world).state.history

/-- The decision is the easy one: something independent is still to be run, or nothing has
succeeded so far and every other node hangs directly on a failed one. -/
def Clear (wf : Workflow) (history : List Attempt) : Prop :=
  (∃ id ∈ wf.nodes.keys, id ∉ history.map (·.id) ∧ ¬Doomed wf history id) ∨
    ∀ id ∈ wf.nodes.keys, (id ∈ history.map (·.id) → Failed history id) ∧
      (id ∉ history.map (·.id) → ∃ dep, wf.DirectDep id dep ∧ Failed history dep)

/-- A level start at which failures stay where they are: the doomed nodes of the level map in
something that is not there, the resulting error texts are no node's id, a token abort loses no
failure, and recursive flows succeed and leave failed and doomed nodes alone. -/
structure Contained (wf : Workflow) (eng : Engine σ) (limit : Nat) (b : LevelStart σ) : Prop where
  withheld : ∀ node ∈ b.nodes wf, Doomed wf b.state.history node.id →
    ∃ e, ContextBuilder.buildNodeContext node b.state.results = .error e
  unnamed : ∀ node ∈ b.nodes wf, ∀ e,
    ContextBuilder.buildNodeContext node b.state.results = .error e → e.text ∉ wf.nodes.keys
  kept : ∀ entry ∈ wf.droppedAt eng limit b, entry.2.success = true
  flows : ∀ a ∈ wf.flowsAt eng limit b, a.ending = .succeeded ∧
    ¬Failed (wf.gatheredAt eng limit b) a.id ∧ ¬Doomed wf (wf.gatheredAt eng limit b) a.id
  clean : ∀ id, Failed (wf.gatheredAt eng limit b) id → CleanId id
  clear : ∀ t, Decides wf eng limit b t → Clear wf t.history

section Histories

variable {wf : Workflow}

theorem dependsOn_level (acyclic : wf.graph.graph.Acyclic) {id dep : String} (path : wf.DependsOn id dep) :
    wf.graph.level dep < wf.graph.level id := by
  have one {id dep : String} (direct : wf.DirectDep id dep) : wf.graph.level dep < wf.graph.level id := by
    obtain ⟨node,found,member⟩ := direct
    exact wf.rising acyclic id node found dep member
  induction path with
  | single direct => exact one direct
  | tail _ direct ih => exact (one direct).trans ih

theorem latest_mem {history : List Attempt} {id : String} {ending : Ending}
    (last : latest history id = some ending) : ∃ a ∈ history, a.id = id ∧ a.ending = ending := by
  obtain ⟨a,found,same⟩ := Option.map_eq_some_iff.mp last
  exact ⟨a,List.mem_reverse.mp (List.mem_of_find?_eq_some found),by simpa using List.find?_some found,same⟩

/-- Attempts at other nodes change nothing. -/
theorem failed_append_other {history more : List Attempt} {id : String} (absent : id ∉ more.map (·.id)) :
    Failed (history ++ more) id ↔ Failed history id := by
  simp [Failed,latest_append,(latest_eq_none more id).mpr absent]

/-- Successful attempts make no node fail. -/
theorem failed_of_append {history more : List Attempt} (fine : ∀ a ∈ more, a.ending = .succeeded)
    {id : String} (failed : Failed (history ++ more) id) : Failed history id := by
  obtain ⟨ending,last,bad⟩ := failed
  rw [latest_append] at last
  cases recent : latest more id with
  | none =>
    rw [recent,Option.none_or] at last
    exact ⟨ending,last,bad⟩
  | some other =>
    obtain ⟨a,member,_,same⟩ := latest_mem recent
    rw [recent,Option.some_or,← same,fine a member] at last
    cases last
    exact absurd rfl bad

theorem failed_append_fine {history more : List Attempt}
    (fine : ∀ a ∈ more, a.ending = .succeeded ∧ ¬Failed history a.id) (id : String) :
    Failed (history ++ more) id ↔ Failed history id := by
  constructor
  · exact failed_of_append fun a member => (fine a member).1
  · intro failed
    apply (failed_append_other fun member => ?_).mpr failed
    obtain ⟨a,inside,rfl⟩ := List.mem_map.mp member
    exact (fine a inside).2 failed

theorem Doomed.mono {first second : List Attempt} (more : ∀ id, Failed first id → Failed second id)
    {id : String} (doomed : Doomed wf first id) : Doomed wf second id := by
  obtain ⟨dep,path,failed⟩ := doomed
  exact ⟨dep,path,more dep failed⟩

theorem Spares.append {history more : List Attempt} (first : Spares wf history)
    (later : ∀ before a after, more = before ++ a :: after → a.Dispatched →
      ¬Doomed wf (history ++ before) a.id) : Spares wf (history ++ more) := by
  intro before a after parts dispatched
  rcases List.append_eq_append_iff.mp parts with ⟨between,front,back⟩ | ⟨between,front,back⟩
  · rw [front]
    exact later between a after back dispatched
  · cases between with
    | nil =>
      rw [List.append_nil] at front
      subst front
      simpa using later [] a after back.symm dispatched
    | cons other between =>
      obtain ⟨rfl,rfl⟩ := List.cons.inj back
      exact first before a between front dispatched

end Histories

section Levels

variable {σ : Type} {wf : Workflow} {eng : Engine σ} {limit : Nat} {b : LevelStart σ} {runs : List NodeRun}
  {levelResults : Results} {flows : List Attempt} {flowed : RunState σ}

/-- Once the policy is asked, every coroutine of the level has given a result. -/
theorem decided_returned (level : LevelRun wf eng limit b runs levelResults flows flowed)
    (answers : ∀ node ctx w, ∃ r, (eng.executeNode node ctx w).1 = .ok r)
    (contained : Contained wf eng limit b) {t : RunState σ}
    (ended : wf.bookEntries levelResults.items flowed = .next t ∨
      wf.bookEntries levelResults.items flowed = .aborted t) :
    ∀ r ∈ runs, ∃ result, r.outcome = .ok result := by
  intro r member
  cases outcome : r.outcome with
  | ok result => exact ⟨result,rfl⟩
  | error e =>
    exfalso
    have inside (r : NodeRun) (member : r ∈ runs) : r.node ∈ b.nodes wf :=
      level.nodes ▸ List.mem_map_of_mem member
    have unnamed : e.text ∉ wf.nodes.keys := by
      have ran := level.ran r member
      rw [outcome] at ran
      generalize r.ending = ending at ran
      generalize given : (Except.error e : Except Exn NodeExecutionResult) = reply at ran
      cases ran with
      | unbuilt e' failed =>
        cases given
        exact contained.unnamed r.node (inside r member) e failed
      | built ctx base world made =>
        obtain ⟨result,done⟩ := answers r.node ctx world
        simp [done] at given
    have filed : e.text ∈ levelResults.keys := by
      rw [level.filed,OrderedDict.mem_keys_ofList]
      exact List.mem_map.mpr ⟨_,List.mem_map_of_mem member,by simp [outcome,fileOutcome]⟩
    obtain ⟨value,found⟩ := Option.isSome_iff_exists.mp ((levelResults.mem_keys e.text).mp filed)
    have entry : (e.text,value) ∈ levelResults.items := (levelResults.get?_eq_some _ _).mp found
    have failed : value.success = false := by
      rw [level.filed] at found
      obtain ⟨other,member',same⟩ := List.mem_map.mp (OrderedDict.get?_ofList _ found)
      cases outcome' : other.outcome with
      | ok result =>
        simp only [outcome',fileOutcome,Prod.mk.injEq] at same
        exact absurd (same.1 ▸ levelNode_known (inside other member')) unnamed
      | error e' =>
        simp only [outcome',fileOutcome,Prod.mk.injEq] at same
        rw [← same.2]
    rcases bookEntries_cases wf levelResults.items flowed with ⟨u,did,_,_,keys⟩ |
      ⟨u,text,booked,did,_,_,parts,keys⟩ | ⟨e',u,did,_⟩
    · exact unnamed (keys _ entry)
    · rw [parts,← level.droppedAt] at entry
      rcases List.mem_append.mp entry with early | late
      · rcases keys _ early with named | success
        · exact unnamed named
        · simp [failed] at success
      · have success := contained.kept _ late
        simp [failed] at success
    · simp [did] at ended

/-- The nodes that have failed once a contained level is over. -/
theorem contained_failed (level : LevelRun wf eng limit b runs levelResults flows flowed)
    (ids : runs.map (·.node.id) = b.ids) (nodup : b.ids.Nodup)
    (fresh : ∀ id ∈ b.ids, ¬Failed b.state.history id) (contained : Contained wf eng limit b) (id : String) :
    Failed flowed.history id ↔
      Failed b.state.history id ∨ ∃ r ∈ runs, r.node.id = id ∧ r.ending ≠ .succeeded := by
  have fine := contained.flows
  rw [level.gatheredAt,level.flowsAt] at fine
  rw [level.history,failed_append_fine fun a member => ⟨(fine a member).1,(fine a member).2.1⟩]
  have attemptIds : (runs.map (·.attempt b.state.results)).map (·.id) = b.ids := by
    rw [← ids,List.map_map]; rfl
  by_cases own : id ∈ b.ids
  · have here := own
    rw [← ids] at here
    obtain ⟨r,member,rfl⟩ := List.mem_map.mp here
    have last : latest (runs.map (·.attempt b.state.results)) r.node.id = some r.ending :=
      latest_of_mem (attemptIds ▸ nodup) (List.mem_map_of_mem (f := (·.attempt b.state.results)) member)
    constructor
    · rintro ⟨ending,final,bad⟩
      rw [latest_append,last] at final
      cases final
      exact .inr ⟨r,member,rfl,bad⟩
    · rintro (old | ⟨other,member',same,bad⟩)
      · exact absurd old (fresh _ own)
      · have equal : other = r := List.inj_on_of_nodup_map (ids ▸ nodup) member' member same
        exact ⟨r.ending,by rw [latest_append,last]; rfl,equal ▸ bad⟩
  · rw [failed_append_other (attemptIds ▸ own)]
    constructor
    · exact .inl
    · rintro (old | ⟨r,member,rfl,_⟩)
      · exact old
      · exact absurd (ids ▸ List.mem_map_of_mem (f := (·.node.id)) member) own

/-- In a contained level no doomed node is run, whatever becomes of its bookkeeping. -/
theorem contained_spares (acyclic : wf.graph.graph.Acyclic)
    (level : LevelRun wf eng limit b runs levelResults flows flowed)
    (ids : runs.map (·.node.id) = b.ids) (listed : b.ids ∈ wf.levels) (contained : Contained wf eng limit b)
    (before : Spares wf b.state.history) : Spares wf flowed.history := by
  rw [level.history]
  apply (before.append _).append
  · intro early a later parts _ doomed
    have fine := contained.flows
    rw [level.gatheredAt,level.flowsAt] at fine
    have own : a ∈ flows := by rw [parts]; simp
    apply (fine a own).2.2
    apply doomed.mono
    exact fun id => failed_of_append fun a member =>
      (fine a (by rw [parts]; exact List.mem_append_left _ member)).1
  · intro early a later parts dispatched ⟨dep,path,failed⟩
    have inside : a ∈ runs.map (·.attempt b.state.results) := by rw [parts]; simp
    obtain ⟨r,member,rfl⟩ := List.mem_map.mp inside
    have attemptIds (a : Attempt) (attempted : a ∈ runs.map (·.attempt b.state.results)) : a.id ∈ b.ids := by
      obtain ⟨other,inRuns,rfl⟩ := List.mem_map.mp attempted
      rw [← ids]
      exact List.mem_map.mpr ⟨other,inRuns,rfl⟩
    -- nodes of one level do not depend on each other
    have apart : dep ∉ early.map (·.id) := by
      intro same
      obtain ⟨other,member',rfl⟩ := List.mem_map.mp same
      have lower := dependsOn_level acyclic path
      have level := wf.flat b.ids listed _ (attemptIds _ inside) other.id
        (attemptIds other (by rw [parts]; exact List.mem_append_left _ member'))
      omega
    have doomed : Doomed wf b.state.history r.node.id := ⟨dep,path,(failed_append_other apart).mp failed⟩
    obtain ⟨e,unbuilt⟩ := contained.withheld r.node (level.nodes ▸ List.mem_map_of_mem member) doomed
    have ran := level.ran r member
    simp only [NodeRun.attempt,Attempt.Dispatched] at dispatched
    generalize r.outcome = outcome at ran
    generalize r.ending = ending at ran dispatched
    cases ran with
    | unbuilt => exact dispatched rfl
    | built ctx base world made => simp [made] at unbuilt

theorem failedNodes_texts {entries : List (String × NodeExecutionResult)}
    (clean : ∀ entry ∈ entries, entry.2.success = false → CleanId entry.1) (id : String) :
    id ∈ failedNodes (failureTexts entries) ↔ ∃ entry ∈ entries, entry.1 = id ∧ entry.2.success = false := by
  simp only [failedNodes,failureTexts,List.mem_filterMap,List.mem_map,List.mem_filter,Bool.not_eq_true']
  constructor
  · rintro ⟨_,⟨entry,⟨member,failed⟩,rfl⟩,read⟩
    rw [failedNodeId_failureText (clean entry member failed)] at read
    exact ⟨entry,member,Option.some.inj read,failed⟩
  · rintro ⟨entry,member,rfl,failed⟩
    exact ⟨_,⟨entry,⟨member,failed⟩,rfl⟩,failedNodeId_failureText (clean entry member failed) _⟩

/-- After a contained level the error texts name exactly the failed nodes. -/
theorem contained_named (level : LevelRun wf eng limit b runs levelResults flows flowed)
    (ids : runs.map (·.node.id) = b.ids) (nodup : b.ids.Nodup)
    (answers : ∀ node ctx w, ∃ r, (eng.executeNode node ctx w).1 = .ok r)
    (fresh : ∀ id ∈ b.ids, ¬Failed b.state.history id) (contained : Contained wf eng limit b)
    (named : ∀ id, id ∈ failedNodes b.state.errors ↔ Failed b.state.history id) {t : RunState σ}
    (ended : wf.bookEntries levelResults.items flowed = .next t ∨
      wf.bookEntries levelResults.items flowed = .aborted t) :
    t.history = flowed.history ∧ AllActive t.activeCache ∧
      ∀ id, id ∈ failedNodes t.errors ↔ Failed t.history id := by
  have returned := decided_returned level answers contained ended
  have items := filed_items level ids nodup returned
  have failures (id : String) := contained_failed level ids nodup fresh contained id
  have entries (id : String) : (∃ entry ∈ levelResults.items, entry.1 = id ∧ entry.2.success = false) ↔
      ∃ r ∈ runs, r.node.id = id ∧ r.ending ≠ .succeeded := by
    have success (r : NodeRun) (member : r ∈ runs) :
        (fileOutcome (r.node.id,r.outcome)).1 = r.node.id ∧
          ((fileOutcome (r.node.id,r.outcome)).2.success = false ↔ r.ending ≠ .succeeded) := by
      obtain ⟨result,outcome⟩ := returned r member
      have ends := (level.ran r member).succeeded
      rw [outcome] at ends
      simp [outcome,fileOutcome,← beq_eq_false_iff_ne,ends,successOf]
    simp only [items,List.mem_map]
    constructor
    · rintro ⟨_,⟨r,member,rfl⟩,own,failed⟩
      exact ⟨r,member,(success r member).1.symm.trans own,(success r member).2.mp failed⟩
    · rintro ⟨r,member,own,failed⟩
      exact ⟨_,⟨r,member,rfl⟩,(success r member).1.trans own,(success r member).2.mpr failed⟩
  have fine := contained.flows
  rw [level.gatheredAt,level.flowsAt] at fine
  have clean : ∀ entry ∈ levelResults.items, entry.2.success = false → CleanId entry.1 := by
    intro entry member failed
    apply contained.clean
    rw [level.gatheredAt,← failed_append_fine fun a member => ⟨(fine a member).1,(fine a member).2.1⟩,
      ← level.history]
    exact (failures entry.1).mpr (.inr ((entries entry.1).mp ⟨entry,member,rfl,failed⟩))
  have texts {booked : List (String × NodeExecutionResult)} {extra : List String}
      (books : Books flowed t booked extra) (same : failureTexts booked = failureTexts levelResults.items)
      (silent : failedNodes extra = []) : ∀ id, id ∈ failedNodes t.errors ↔ Failed t.history id := by
    intro id
    rw [books.errors,same,level.errors,books.history,failures id,← entries id,← failedNodes_texts clean id,
      ← named id]
    simp only [failedNodes,List.filterMap_append,List.mem_append] at silent ⊢
    simp [silent]
  rcases bookEntries_cases wf levelResults.items flowed with ⟨u,did,books,_,_⟩ |
    ⟨u,text,booked,did,silent,books,parts,_⟩ | ⟨e,u,did,_⟩
  · have same : u = t := by simpa [did] using ended
    subst same
    exact ⟨books.history,books.cache level.cache,texts books rfl rfl⟩
  · have same : u = t := by simpa [did] using ended
    subst same
    refine ⟨books.history,books.cache level.cache,texts books ?_ (by simp [failedNodes,silent])⟩
    have kept : (wf.dropped levelResults.items flowed).filter (!·.2.success) = [] := by
      rw [List.filter_eq_nil_iff]
      intro entry member
      simp [contained.kept entry (level.droppedAt ▸ member)]
    rw [failureTexts,failureTexts,parts,List.filter_append,kept,List.append_nil]
  · simp [did] at ended

end Levels

/-- What a run keeps as long as its levels are contained. -/
structure Heeding (wf : Workflow) (levels : List (List String)) (s : RunState σ) : Prop where
  listed : levels <:+ wf.levels
  cache : AllActive s.activeCache
  named : ∀ id, id ∈ failedNodes s.errors ↔ Failed s.history id
  fresh : ∀ id ∈ levels.flatten, ¬Failed s.history id
  spares : Spares wf s.history

section Runs

variable {σ : Type} {wf : Workflow} {eng : Engine σ} {limit : Nat}

theorem Heeding.ids {b : LevelStart σ} {rest : List (List String)}
    (heeding : Heeding wf (b.ids :: rest) b.state) :
    b.ids ∈ wf.levels ∧ (∀ id ∈ b.ids, id ∈ wf.nodes.keys) ∧ b.ids.Nodup ∧
      ∀ id ∈ rest.flatten, id ∉ b.ids := by
  have member : b.ids ∈ wf.levels := heeding.listed.subset List.mem_cons_self
  have distinct : (b.ids :: rest).flatten.Nodup := by
    obtain ⟨front,parts⟩ := heeding.listed
    have all := wf.distinct
    rw [← parts,List.flatten_append] at all
    exact (List.nodup_append.mp all).2.1
  rw [List.flatten_cons] at distinct
  obtain ⟨nodup,_,apart⟩ := List.nodup_append.mp distinct
  refine ⟨member,fun id inside => ?_,nodup,fun id later own => apart id own id later rfl⟩
  exact (wf.covers id).mp (List.mem_flatten.mpr ⟨b.ids,member,inside⟩)

/-- What is known when the policy is asked after a contained level. -/
theorem heeding_decided (acyclic : wf.graph.graph.Acyclic) (deep : wf.graph.graph.edges.length < limit)
    (answers : ∀ node ctx w, ∃ r, (eng.executeNode node ctx w).1 = .ok r) {b : LevelStart σ}
    {rest : List (List String)} (heeding : Heeding wf (b.ids :: rest) b.state)
    (contained : wf.depthStop b.index = none → Contained wf eng limit b) {t : RunState σ}
    (decides : wf.runLevel eng limit b = .booked t ∨ wf.runLevel eng limit b = .aborted t) :
    Heeding wf rest t := by
  obtain ⟨listed,known,nodup,apart⟩ := heeding.ids
  rcases runLevel_cases wf eng acyclic deep b heeding.cache with ⟨text,_,cut⟩ |
    ⟨shallow,⟨s,_,_,stalled⟩ | ⟨runs,levelResults,flows,flowed,level,ended⟩⟩
  · simp [cut] at decides
  · simp [stalled] at decides
  · have conditions := contained shallow
    have ids := levelRun_ids level known
    have fresh : ∀ id ∈ b.ids, ¬Failed b.state.history id := fun id own =>
      heeding.fresh id (by simp [own])
    have booked : wf.bookEntries levelResults.items flowed = .next t ∨
        wf.bookEntries levelResults.items flowed = .aborted t := by
      rw [ended,bookLevel] at decides
      cases did : wf.bookEntries levelResults.items flowed with
      | next u => simpa [did] using decides
      | aborted u => simpa [did] using decides
      | raised e u => simp [did] at decides
    obtain ⟨history,cache,named⟩ :=
      contained_named level ids nodup answers fresh conditions heeding.named booked
    refine ⟨(List.suffix_cons b.ids rest).trans heeding.listed,cache,named,?_,?_⟩
    · intro id later failed
      rw [history,contained_failed level ids nodup fresh conditions] at failed
      rcases failed with old | ⟨r,member,rfl,_⟩
      · exact heeding.fresh id (by simp [later]) old
      · exact apart r.node.id later (ids ▸ List.mem_map_of_mem (f := (·.node.id)) member)
    · rw [history]
      exact contained_spares acyclic level ids listed conditions heeding.spares

theorem mem_dependencies (wf : Workflow) (id dep : String) :
    dep ∈ ((wf.nodes.get? id).map (·.dependencies)).getD [] ↔ wf.DirectDep id dep := by
  cases found : wf.nodes.get? id <;> simp [DirectDep,found]

/-- When the texts name exactly the failed nodes and the decision is clear, it is right. -/
theorem decision_iff {history : List Attempt} {errors : List String} (some : errors ≠ [])
    (named : ∀ id, id ∈ failedNodes errors ↔ Failed history id) (clear : Clear wf history) :
    shouldContinue .continuePossible wf.levels wf.nodes errors = false ↔
      ∀ id ∈ wf.nodes.keys, id ∉ history.map (·.id) → Doomed wf history id := by
  have unattempted {id : String} (absent : id ∉ history.map (·.id)) : ¬Failed history id := by
    rintro ⟨ending,last,_⟩
    simp [(latest_eq_none history id).mpr absent] at last
  have touched : AllTouched wf errors ↔ ∀ id ∈ wf.nodes.keys,
      Failed history id ∨ ∃ dep, wf.DirectDep id dep ∧ Failed history dep := by
    simp only [AllTouched,mem_dependencies,named,wf.covers]
  rw [shouldContinue_touched wf some,touched]
  constructor
  · intro all id known absent
    rcases all id known with failed | ⟨dep,direct,failed⟩
    · exact absurd failed (unattempted absent)
    · exact ⟨dep,.single direct,failed⟩
  · intro doomed id known
    rcases clear with ⟨free,known',absent,independent⟩ | all
    · exact absurd (doomed free known' absent) independent
    · by_cases attempted : id ∈ history.map (·.id)
      · exact .inl ((all id known).1 attempted)
      · exact .inr ((all id known).2 attempted)

/-- One turn of the loop from a contained level start. -/
theorem levelStep_heeding (acyclic : wf.graph.graph.Acyclic) (deep : wf.graph.graph.edges.length < limit)
    (answers : ∀ node ctx w, ∃ r, (eng.executeNode node ctx w).1 = .ok r) (b : LevelStart σ)
    (rest : List (List String)) (heeding : Heeding wf (b.ids :: rest) b.state)
    (contained : wf.depthStop b.index = none → Contained wf eng limit b) :
    match wf.levelStep eng limit b with
    | .next s => Heeding wf rest s
    | flow => Spares wf flow.state.history := by
  have decided (t : RunState σ) (decides : wf.runLevel eng limit b = .booked t ∨
      wf.runLevel eng limit b = .aborted t) :
      match wf.goOn t with
      | .next s => Heeding wf rest s
      | flow => Spares wf flow.state.history := by
    have kept := heeding_decided acyclic deep answers heeding contained decides
    rcases goOn_cases wf t with next | stop
    · rw [next]
      exact kept
    · rw [stop]
      exact kept.spares
  obtain ⟨listed,known,_,_⟩ := heeding.ids
  simp only [levelStep]
  cases went : wf.runLevel eng limit b with
  | booked t => exact decided t (.inl went)
  | aborted t => exact decided t (.inr went)
  | tooDeep t =>
    rcases runLevel_cases wf eng acyclic deep b heeding.cache with ⟨text,_,cut⟩ |
      ⟨_,⟨s,_,_,stalled⟩ | ⟨runs,levelResults,flows,flowed,level,ended⟩⟩
    · rw [went] at cut
      cases cut
      exact heeding.spares
    · simp [went] at stalled
    · rw [went,bookLevel] at ended
      cases did : wf.bookEntries levelResults.items flowed <;> simp [did] at ended
  | stalled t =>
    rcases runLevel_cases wf eng acyclic deep b heeding.cache with ⟨text,_,cut⟩ |
      ⟨_,⟨s,history,_,stalled⟩ | ⟨runs,levelResults,flows,flowed,level,ended⟩⟩
    · simp [went] at cut
    · rw [went] at stalled
      cases stalled
      simpa only [Flow.state,history] using heeding.spares
    · rw [went,bookLevel] at ended
      cases did : wf.bookEntries levelResults.items flowed <;> simp [did] at ended
  | raised e t =>
    rcases runLevel_cases wf eng acyclic deep b heeding.cache with ⟨text,_,cut⟩ |
      ⟨shallow,⟨s,_,_,stalled⟩ | ⟨runs,levelResults,flows,flowed,level,ended⟩⟩
    · simp [went] at cut
    · simp [went] at stalled
    · have spared := contained_spares acyclic level (levelRun_ids level known) listed (contained shallow)
        heeding.spares
      rw [went,bookLevel] at ended
      rcases bookEntries_cases wf levelResults.items flowed with ⟨u,did,_⟩ | ⟨u,text,booked,did,_⟩ |
        ⟨e,u,did,history,_⟩
      · simp [did] at ended
      · simp [did] at ended
      · rw [did] at ended
        cases ended
        simpa only [Flow.state,history] using spared

end Runs

/-- Under the default policy, in every run whose level starts are contained. -/
theorem failures_heeded (wf : Workflow) (x : Executors ω) (current : ω → Option GraphContext)
    (stalls : List NodeConfig → ω → Bool) (limit : Nat) (world : Session ω)
    (possible : wf.failurePolicy = .continuePossible) (acyclic : wf.graph.graph.Acyclic)
    (deep : wf.graph.graph.edges.length < limit)
    (contained : ∀ start ∈ wf.starts (NodeExecutor.engine x wf.failurePolicy current stalls) limit world,
      wf.depthStop start.1.index = none →
        Contained wf (NodeExecutor.engine x wf.failurePolicy current stalls) limit start.1) :
    HeedsFailures wf (NodeExecutor.engine x wf.failurePolicy current stalls) limit world := by
  have lenient : wf.failurePolicy ≠ .halt := by simp [possible]
  have answers : ∀ node ctx w, ∃ r,
      ((NodeExecutor.engine x wf.failurePolicy current stalls).executeNode node ctx w).1 = .ok r :=
    NodeExecutor.executeNode_returns x lenient
  have initial : Heeding wf wf.levels (initialState world) := by
    refine ⟨List.suffix_refl _,allActive_empty,?_,?_,?_⟩
    · simp [initialState,failedNodes,Failed,latest]
    · simp [initialState,Failed,latest]
    · intro before a after parts
      simp [initialState] at parts
  obtain ⟨spared,starts⟩ := runLevels_rule
    (fun start => wf.depthStop start.1.index = none →
      Contained wf (NodeExecutor.engine x wf.failurePolicy current stalls) limit start.1)
    (fun _ levels s => Heeding wf levels s) (fun flow => Spares wf flow.state.history)
    (fun _ s heeding => heeding.spares)
    (fun b rest contained heeding => levelStep_heeding acyclic deep answers b rest heeding contained)
    wf.levels 1 (initialState world) initial contained
  refine ⟨fun start reached t clean => ?_,spared⟩
  obtain ⟨decides,errors⟩ := clean
  have heeding := starts start reached
  have kept := heeding_decided acyclic deep answers heeding (contained start reached) decides
  have shallow : wf.depthStop start.1.index = none := by
    cases deep : wf.depthStop start.1.index with
    | none => rfl
    | some text => simp [runLevel,deep] at decides
  rw [possible]
  exact decision_iff errors kept.named ((contained start reached shallow).clear t ⟨decides,errors⟩)

/-- A node, and one that needs it. -/
def chain : Workflow :=
  .ofNodes {} [{ id := "fetch",type := .tool },{ id := "report",type := .tool,dependencies := ["fetch"] }]
    (by decide +kernel)

def chainEngine : Engine (Session Unit) :=
  NodeExecutor.engine (failing "fetch") chain.failurePolicy (fun _ => none) fun _ _ => false

def chainStart : LevelStart (Session Unit) := ⟨1,["fetch"],initialState ⟨openBudget,()⟩⟩

theorem chain_acyclic : chain.graph.graph.Acyclic :=
  chain.graph.graph.acyclic_of_numbering (fun id => if id = "report" then 1 else 0) (by decide +kernel)

theorem chainStart_contained : Contained chain chainEngine 2 chainStart where
  withheld := by
    rintro node _ ⟨dep,_,ending,last,_⟩
    simp [chainStart,initialState,latest] at last
  unnamed := by
    intro node member e failed
    have built : ∀ node ∈ chainStart.nodes chain,
        (ContextBuilder.buildNodeContext node chainStart.state.results).toOption.isSome = true := by
      decide +kernel
    simpa [failed,Except.toOption] using built node member
  kept := by decide +kernel
  flows := by
    have none : (chain.flowsAt chainEngine 2 chainStart).isEmpty = true := by decide +kernel
    simp [List.isEmpty_iff.mp none]
  clean := by
    rintro id ⟨ending,last,_⟩
    obtain ⟨a,member,rfl,_⟩ := latest_mem last
    have ids : ∀ a ∈ chain.gatheredAt chainEngine 2 chainStart, a.id = "fetch" := by decide +kernel
    rw [ids a member]
    decide
  clear := by
    rintro t ⟨decides,_⟩
    have level : (chain.runLevel chainEngine 2 chainStart).booked?.map (·.history.map fun a => (a.id,a.ending)) =
        some [("fetch",.failed)] := by decide +kernel
    rcases decides with booked | aborted
    · simp only [booked,LevelEnd.booked?,Option.map_some,Option.some.injEq] at level
      obtain ⟨a,history,same⟩ := List.map_eq_singleton_iff.mp level
      simp only [Prod.mk.injEq] at same
      have failed : Failed t.history "fetch" := ⟨.failed,by simp [history,same],by decide⟩
      right
      intro id known
      have keys : chain.nodes.keys = ["fetch","report"] := by decide +kernel
      simp only [keys,List.mem_cons,List.not_mem_nil,or_false] at known
      constructor
      · intro attempted
        simp only [history,List.map_cons,List.map_nil,List.mem_singleton,same.1] at attempted
        exact attempted ▸ failed
      · intro absent
        rcases known with rfl | rfl
        · simp [history,same.1] at absent
        · exact ⟨"fetch",(mem_dependencies chain "report" "fetch").mp (by decide +kernel),failed⟩
    · simp [aborted,LevelEnd.booked?] at level

/-- With the first node failing, the run ends before the second. -/
theorem chain_heeds_fetch : HeedsFailures chain chainEngine 2 ⟨openBudget,()⟩ := by
  apply failures_heeded chain (failing "fetch") (fun _ => none) (fun _ _ => false) 2 ⟨openBudget,()⟩
    (by decide +kernel) chain_acyclic (by decide +kernel)
  intro start reached _
  have levels : chain.levels = [["fetch"],["report"]] := by decide +kernel
  have stops : (chain.levelStep chainEngine 2 chainStart).stopped?.isSome = true := by decide +kernel
  obtain ⟨t,stopped⟩ := Option.isSome_iff_exists.mp stops
  have alone : chain.starts chainEngine 2 ⟨openBudget,()⟩ = [(chainStart,[["report"]])] := by
    rw [starts,levels]
    exact levelStarts_stopped (Flow.stopped?_eq_some.mp stopped) [["report"]]
  have only := List.mem_singleton.mp ((congrArg (start ∈ ·) alone).mp reached)
  exact only ▸ chainStart_contained

/-- The same with an independent node beside the first one. -/
def forked : Workflow :=
  .ofNodes {} [{ id := "fetch",type := .tool },{ id := "audit",type := .tool },
    { id := "report",type := .tool,dependencies := ["fetch"] }] (by decide +kernel)

theorem forked_acyclic : forked.graph.graph.Acyclic :=
  forked.graph.graph.acyclic_of_numbering (fun id => if id = "report" then 1 else 0) (by decide +kernel)

/-- The independent node has long run, but keeps the run going, and the dependent node, which
maps nothing in, is handed to its executor. -/
theorem forked_runs_report :
    ¬∀ (wf : Workflow) (x : Executors Unit) (limit : Nat) (world : Session Unit),
      wf.failurePolicy = .continuePossible → wf.graph.graph.Acyclic → wf.graph.graph.edges.length < limit →
        HeedsFailures wf (NodeExecutor.engine x wf.failurePolicy (fun _ => none) fun _ _ => false) limit world := by
  intro claim
  have spared := (claim forked (failing "fetch") 3 ⟨openBudget,()⟩ (by decide +kernel) forked_acyclic
    (by decide +kernel)).spares
  have history : ((forked.runAll (NodeExecutor.engine (failing "fetch") forked.failurePolicy (fun _ => none)
      fun _ _ => false) 3 ⟨openBudget,()⟩).state.history.map fun a => (a.id,a.ending)) =
      [("fetch",.failed),("audit",.succeeded),("report",.succeeded)] := by decide +kernel
  generalize (forked.runAll (NodeExecutor.engine (failing "fetch") forked.failurePolicy (fun _ => none)
      fun _ _ => false) 3 ⟨openBudget,()⟩).state.history = attempts at spared history
  obtain ⟨first,_,rfl,fetch,history⟩ := List.map_eq_cons_iff.mp history
  obtain ⟨second,_,rfl,audit,history⟩ := List.map_eq_cons_iff.mp history
  obtain ⟨third,rfl,report⟩ := List.map_eq_singleton_iff.mp history
  simp only [Prod.mk.injEq] at fetch audit report
  apply spared [first,second] third [] rfl
  · simp [Attempt.Dispatched,report]
  · rw [report.1]
    have failed : Failed [first,second] "fetch" := ⟨.failed,by simp [latest,fetch,audit],by decide⟩
    exact ⟨"fetch",.single ((mem_dependencies forked "report" "fetch").mp (by decide +kernel)),failed⟩

end IceOS
