import IceOS.Workflow

/-! What one turn of the level loop does to the run state: which attempts it adds, which
results it leaves behind, and when it can raise. -/
namespace IceOS

/-- How the last attempt at a node ended. -/
def latest (history : List Attempt) (id : String) : Option Ending :=
  (history.reverse.find? (·.id = id)).map (·.ending)

theorem latest_append (first second : List Attempt) (id : String) :
    latest (first ++ second) id = (latest second id).or (latest first id) := by
  simp only [latest,List.reverse_append,List.find?_append]
  cases second.reverse.find? (·.id = id) <;> rfl

theorem latest_eq_none (history : List Attempt) (id : String) :
    latest history id = none ↔ id ∉ history.map (·.id) := by
  simp [latest]

@[simp] theorem latest_singleton (a : Attempt) (id : String) :
    latest [a] id = if a.id = id then some a.ending else none := by
  by_cases same : a.id = id <;> simp [latest,same]

/-- Whether the recorded result of a node is a success. -/
def status (results : Results) (id : String) : Option Bool := (results.get? id).map (·.success)

/-- The recorded results tell of every node how its last attempt ended. -/
def Recorded (results : Results) (history : List Attempt) : Prop :=
  ∀ id, status results id = (latest history id).map (· == .succeeded)

theorem status_set (results : Results) (id other : String) (r : NodeExecutionResult) :
    status (results.set id r) other = if id = other then some r.success else status results other := by
  simp only [status,OrderedDict.get?_set]
  split <;> rfl

namespace Workflow

variable {σ : Type}

/-- `t` is `s` after the attempts `atts`; what only the bookkeeping writes is unchanged. -/
structure Attempts (s t : RunState σ) (atts : List Attempt) : Prop where
  history : t.history = s.history ++ atts
  errors : t.errors = s.errors
  cache : t.activeCache = s.activeCache

theorem Attempts.refl (s : RunState σ) : Attempts s s [] := ⟨by simp,rfl,rfl⟩

theorem Attempts.trans {s t u : RunState σ} (first : Attempts s t a) (second : Attempts t u b) :
    Attempts s u (a ++ b) :=
  ⟨by rw [second.history,first.history,List.append_assoc],second.errors.trans first.errors,
    second.cache.trans first.cache⟩

/-- How one coroutine went: its context failed, or `execute_node` was called and answered. -/
inductive Ran (eng : Engine σ) (results : Results) (node : NodeConfig) :
    Except Exn NodeExecutionResult → Ending → Prop where
  | unbuilt (e : Exn) (failed : ContextBuilder.buildNodeContext node results = .error e) :
      Ran eng results node (.error e) .unbuilt
  | built (ctx base : Context) (world : σ) (made : ContextBuilder.buildNodeContext node results = .ok base) :
      Ran eng results node (eng.executeNode node ctx world).1
        (endingOf (eng.executeNode node ctx world).1)

def successOf : Except Exn NodeExecutionResult → Bool
  | .ok r => r.success
  | .error _ => false

/-- An attempt succeeded exactly if it gave a successful result. -/
theorem Ran.succeeded {eng : Engine σ} {results : Results} {node : NodeConfig}
    {outcome : Except Exn NodeExecutionResult} {ending : Ending} (ran : Ran eng results node outcome ending) :
    (ending == .succeeded) = successOf outcome := by
  cases ran with
  | unbuilt e failed => rfl
  | built ctx base world made =>
    cases (eng.executeNode node ctx world).1 with
    | error e => rfl
    | ok r => cases success : r.success <;> simp [endingOf,successOf,success]

theorem processNode_ran (eng : Engine σ) (node : NodeConfig) (extra : List (String × Value))
    (s : RunState σ) :
    ∃ ending, Ran eng s.results node (processNode eng node extra s).1 ending ∧
      Attempts s (processNode eng node extra s).2 [⟨node.id,s.results,ending⟩] ∧
      (processNode eng node extra s).2.results = s.results := by
  simp only [processNode]
  cases built : buildNodeContext (eng.currentContext s.world) node s.results with
  | error e =>
    exact ⟨.unbuilt,.unbuilt e ((buildNodeContext_error_iff _ node s.results e).mp built),⟨rfl,rfl,rfl⟩,rfl⟩
  | ok ctx =>
    obtain ⟨base,made⟩ : ∃ base, ContextBuilder.buildNodeContext node s.results = .ok base := by
      cases made : ContextBuilder.buildNodeContext node s.results with
      | ok base => exact ⟨base,rfl⟩
      | error e => simp [buildNodeContext,made,Except.map] at built
    exact ⟨_,.built (ctx.update extra) base s.world made,⟨rfl,rfl,rfl⟩,rfl⟩

/-- One entry of a gather: the node, what came of it, and how the attempt is logged. -/
structure NodeRun where
  node : NodeConfig
  outcome : Except Exn NodeExecutionResult
  ending : Ending

def NodeRun.attempt (seen : Results) (r : NodeRun) : Attempt := ⟨r.node.id,seen,r.ending⟩

theorem gather_runs (eng : Engine σ) (nodes : List NodeConfig) (s : RunState σ) :
    ∃ runs : List NodeRun, runs.map (·.node) = nodes ∧
      (gather eng nodes s).1 = runs.map (fun r => (r.node.id,r.outcome)) ∧
      Attempts s (gather eng nodes s).2 (runs.map (·.attempt s.results)) ∧
      (gather eng nodes s).2.results = s.results ∧
      ∀ r ∈ runs, Ran eng s.results r.node r.outcome r.ending := by
  induction nodes generalizing s with
  | nil => exact ⟨[],rfl,rfl,.refl s,rfl,by simp⟩
  | cons node rest ih =>
    obtain ⟨ending,ran,attempt,results⟩ := processNode_ran eng node [] s
    obtain ⟨runs,nodes,outcomes,attempts,results',all⟩ := ih (processNode eng node [] s).2
    rw [results] at attempts results' all
    exact ⟨⟨node,(processNode eng node [] s).1,ending⟩ :: runs,by simp [nodes],
      by simp [gather,outcomes],attempt.trans attempts,results',
      List.forall_mem_cons.mpr ⟨ran,all⟩⟩

/-! ### Recursive flows -/

/-- Running attempts that record their own results: each node's status follows its last one. -/
def Recurses (s t : RunState σ) : Prop :=
  ∃ atts, Attempts s t atts ∧ ∀ id, status t.results id =
    ((latest atts id).map (· == .succeeded)).or (status s.results id)

theorem Recurses.refl (s : RunState σ) : Recurses s s := ⟨[],.refl s,fun _ => rfl⟩

theorem Recurses.trans {s t u : RunState σ} (first : Recurses s t) (second : Recurses t u) :
    Recurses s u := by
  obtain ⟨a,attempts,statuses⟩ := first
  obtain ⟨b,attempts',statuses'⟩ := second
  refine ⟨a ++ b,attempts.trans attempts',fun id => ?_⟩
  rw [statuses',statuses,latest_append]
  cases latest b id <;> rfl

/-- Recording what an attempt gave keeps the node's status in step with it. -/
theorem recurses_record {s t : RunState σ} {id : String} {seen : Results} {ending : Ending}
    {r : NodeExecutionResult} (attempt : Attempts s t [⟨id,seen,ending⟩]) (same : t.results = s.results)
    (ends : (ending == .succeeded) = r.success) : Recurses s (t.record id r) := by
  refine ⟨[⟨id,seen,ending⟩],⟨attempt.history,attempt.errors,attempt.cache⟩,fun other => ?_⟩
  rw [RunState.record_results,status_set,same,latest_singleton]
  split
  · simp [ends]
  · rfl

theorem foldlM_recurses {step : RunState σ → α → Except Exn (RunState σ)}
    (one : ∀ s a, ∃ t, step s a = .ok t ∧ Recurses s t) (todo : List α) (s : RunState σ) :
    ∃ t, todo.foldlM step s = .ok t ∧ Recurses s t := by
  induction todo generalizing s with
  | nil => exact ⟨s,rfl,.refl s⟩
  | cons a rest ih =>
    obtain ⟨t,did,first⟩ := one s a
    obtain ⟨u,done,later⟩ := ih t
    exact ⟨u,by simp [did,done,bind,Except.bind],first.trans later⟩

/-- A recursive execution never lets an exception out, unless there is no room for it at all. -/
theorem executeRecursiveNode_recurses (wf : Workflow) (eng : Engine σ) (limit : Nat) (s : RunState σ)
    (request : String × List (String × Value)) :
    ∃ t, wf.executeRecursiveNode eng (limit + 1) s request = .ok t ∧ Recurses s t := by
  obtain ⟨id,extra⟩ := request
  induction limit using Nat.strong_induction_on generalizing s id extra with
  | _ limit ih =>
    cases known : wf.nodes.get? id with
    | none =>
      exact ⟨(s.log id .unbuilt).record id (failedResult (keyError id)),
        by simp only [executeRecursiveNode,known],
        recurses_record (t := s.log id .unbuilt) ⟨rfl,rfl,rfl⟩ rfl rfl⟩
    | some node =>
      cases wf.own id node known
      obtain ⟨ending,ran,attempt,same⟩ := processNode_ran eng node extra s
      cases went : processNode eng node extra s with
      | mk outcome t =>
        rw [went] at ran attempt same
        cases outcome with
        | error e =>
          exact ⟨t.record node.id (failedResult e),by simp only [executeRecursiveNode,known,went],
            recurses_record attempt same ran.succeeded⟩
        | ok result =>
          have recorded : Recurses s (t.record node.id result) :=
            recurses_record attempt same ran.succeeded
          simp only [executeRecursiveNode,known,went]
          cases limit with
          | succ limit =>
            obtain ⟨u,did,further⟩ := foldlM_recurses
              (fun s (request : String × List (String × Value)) => ih limit (Nat.lt_succ_self _) s _ _)
              (wf.pendingRecursions [(node.id,result)]) (t.record node.id result)
            exact ⟨u,by rw [did],recorded.trans further⟩
          | zero =>
            cases pending : wf.pendingRecursions [(node.id,result)] with
            | nil => exact ⟨_,rfl,recorded⟩
            | cons request rest =>
              -- the stack is used up: the frame records the error under its own node
              exact ⟨_,rfl,recorded.trans (recurses_record
                (t := (t.record node.id result).log node.id .escaped) ⟨rfl,rfl,rfl⟩ rfl rfl)⟩

theorem handleRecursiveFlows_recurses (wf : Workflow) (eng : Engine σ) {limit : Nat} (room : 0 < limit)
    (levelResults : Results) (s : RunState σ) :
    ∃ t, wf.handleRecursiveFlows eng limit levelResults s = .ok t ∧ Recurses s t := by
  obtain ⟨n,rfl⟩ : ∃ n, limit = n + 1 := ⟨limit - 1,by omega⟩
  exact foldlM_recurses (executeRecursiveNode_recurses wf eng n) _ s

/-! ### Bookkeeping -/

/-- The results a token abort leaves unbooked. -/
def dropped (wf : Workflow) : List (String × NodeExecutionResult) → RunState σ →
    List (String × NodeExecutionResult)
  | [],_ => []
  | entry :: rest,s =>
    match wf.bookEntry s entry with
    | .next s => wf.dropped rest s
    | .aborted _ | .raised _ _ => rest

/-- The failure texts of a batch of results. -/
def failureTexts (entries : List (String × NodeExecutionResult)) : List String :=
  (entries.filter (!·.2.success)).map fun entry => failureText entry.1 entry.2.error

/-- `t` is `s` after the results `entries` were booked, with `extra` errors beside theirs. -/
structure Books (s t : RunState σ) (entries : List (String × NodeExecutionResult)) (extra : List String) :
    Prop where
  results : t.results = s.results.update entries
  history : t.history = s.history
  errors : t.errors = s.errors ++ failureTexts entries ++ extra
  cache : AllActive s.activeCache → AllActive t.activeCache

theorem Books.cons {s t u : RunState σ} {entry : String × NodeExecutionResult}
    (first : Books s t [entry] []) (later : Books t u rest extra) : Books s u (entry :: rest) extra where
  results := by rw [later.results,first.results]; rfl
  history := later.history.trans first.history
  errors := by
    rw [later.errors,first.errors]
    simp only [failureTexts,List.filter_cons,List.filter_nil]
    split <;> simp
  cache all := later.cache (first.cache all)

theorem recordDecision_same (node : NodeConfig) (id : String) (output : Value) (s : RunState σ) :
    (recordDecision node id output s).results = s.results ∧
      (recordDecision node id output s).history = s.history ∧
      (recordDecision node id output s).errors = s.errors ∧
      (AllActive s.activeCache → AllActive (recordDecision node id output s).activeCache) := by
  simp only [recordDecision]
  split
  · exact ⟨rfl,rfl,rfl,fun _ => allActive_empty⟩
  · exact ⟨rfl,rfl,rfl,fun all => all⟩

theorem bookOutcome_ne_aborted (wf : Workflow) (id : String) (result : NodeExecutionResult)
    (s t : RunState σ) : wf.bookOutcome id result s ≠ .aborted t := by
  simp only [bookOutcome]
  cases wf.nodes.get? id <;> simp

/-- Only a token stop aborts, and only an entry that is filed under no node's id raises. -/
theorem bookEntry_cases (wf : Workflow) (s : RunState σ) (entry : String × NodeExecutionResult) :
    (∃ t, wf.bookEntry s entry = .next t ∧ Books s t [entry] [] ∧ entry.1 ∈ wf.nodes.keys) ∨
      (∃ t text, wf.bookEntry s entry = .aborted t ∧ Books s t [entry] [text] ∧
        failedNodeId text = none ∧ entry.2.success = true) ∨
      ∃ e t, wf.bookEntry s entry = .raised e t ∧ t.history = s.history ∧ entry.1 ∉ wf.nodes.keys := by
  have outcome (u : RunState σ) (results : u.results = s.results.update [entry])
      (history : u.history = s.history) (errors : u.errors = s.errors)
      (cache : u.activeCache = s.activeCache) :
      (∃ t, wf.bookOutcome entry.1 entry.2 u = .next t ∧ Books s t [entry] [] ∧
        entry.1 ∈ wf.nodes.keys) ∨
        ∃ e t, wf.bookOutcome entry.1 entry.2 u = .raised e t ∧ t.history = s.history ∧
          entry.1 ∉ wf.nodes.keys := by
    simp only [bookOutcome]
    cases known : wf.nodes.get? entry.1 with
    | none => exact .inr ⟨_,_,rfl,history,(wf.nodes.get?_eq_none entry.1).mp known⟩
    | some node =>
      obtain ⟨results',history',errors',cache'⟩ := recordDecision_same node entry.1 entry.2.output u
      refine .inl ⟨_,rfl,?_,(wf.nodes.mem_keys entry.1).mpr (by simp [known])⟩
      cases success : entry.2.success with
      | true => exact ⟨results'.trans results,history'.trans history,
          by simp [failureTexts,success,errors',errors],fun all => cache' (cache ▸ all)⟩
      | false => exact ⟨results'.trans results,history'.trans history,
          by simp [failureTexts,success,errors',errors],fun all => cache' (cache ▸ all)⟩
  have stopped {total : Nat} {text : String} (stop : wf.tokenStop total = some text) :
      failedNodeId text = none := by
    simp only [tokenStop] at stop
    split at stop
    · cases stop; decide
    · split at stop
      · cases stop; decide
      · cases stop
  simp only [bookEntry]
  cases tokens : metered entry.2 with
  | none =>
    rcases outcome (s.record entry.1 entry.2) rfl rfl rfl rfl with next | raised
    · exact .inl next
    · exact .inr (.inr raised)
  | some n =>
    simp only
    cases stop : wf.tokenStop ((s.record entry.1 entry.2).totalTokens + n) with
    | some text =>
      have success : entry.2.success = true := by
        simp only [metered] at tokens
        split at tokens
        · assumption
        · cases tokens
      exact .inr (.inl ⟨_,text,rfl,⟨rfl,rfl,by simp [failureTexts,success],id⟩,stopped stop,success⟩)
    | none =>
      rcases outcome { s.record entry.1 entry.2 with
          totalTokens := (s.record entry.1 entry.2).totalTokens + n } rfl rfl rfl rfl with next | raised
      · exact .inl next
      · exact .inr (.inr raised)

/-- How the bookkeeping of a whole level ends. -/
theorem bookEntries_cases (wf : Workflow) (entries : List (String × NodeExecutionResult))
    (s : RunState σ) :
    (∃ t, wf.bookEntries entries s = .next t ∧ Books s t entries [] ∧ wf.dropped entries s = [] ∧
        ∀ entry ∈ entries, entry.1 ∈ wf.nodes.keys) ∨
      (∃ t text booked, wf.bookEntries entries s = .aborted t ∧ failedNodeId text = none ∧
        Books s t booked [text] ∧ entries = booked ++ wf.dropped entries s ∧
        ∀ entry ∈ booked, entry.1 ∈ wf.nodes.keys ∨ entry.2.success = true) ∨
      ∃ e t, wf.bookEntries entries s = .raised e t ∧ t.history = s.history ∧
        ∃ entry ∈ entries, entry.1 ∉ wf.nodes.keys := by
  induction entries generalizing s with
  | nil => exact .inl ⟨s,rfl,⟨rfl,rfl,by simp [failureTexts],id⟩,rfl,by simp⟩
  | cons entry rest ih =>
    simp only [bookEntries,dropped]
    rcases bookEntry_cases wf s entry with ⟨t,did,books,known⟩ | ⟨t,text,did,books,silent,success⟩ |
      ⟨e,t,did,history,unknown⟩
    · rw [did]
      rcases ih t with ⟨u,done,later,none,keys⟩ | ⟨u,text,booked,done,silent,later,parts,keys⟩ |
        ⟨e,u,done,history,bad,member,unknown⟩
      · exact .inl ⟨u,done,books.cons later,none,List.forall_mem_cons.mpr ⟨known,keys⟩⟩
      · exact .inr (.inl ⟨u,text,entry :: booked,done,silent,books.cons later,
          by rw [List.cons_append,← parts],List.forall_mem_cons.mpr ⟨.inl known,keys⟩⟩)
      · exact .inr (.inr ⟨e,u,done,history.trans books.history,bad,List.mem_cons_of_mem _ member,unknown⟩)
    · rw [did]
      exact .inr (.inl ⟨t,text,[entry],rfl,silent,books,rfl,by simp [success]⟩)
    · rw [did]
      exact .inr (.inr ⟨e,t,rfl,history,entry,List.mem_cons_self,unknown⟩)

/-! ### The decision to go on -/

/-- Every node is named by an error text or directly depends on a node that is. -/
def AllTouched (wf : Workflow) (errors : List String) : Prop :=
  ∀ id ∈ wf.levels.flatten, id ∈ failedNodes errors ∨
    ∃ dep ∈ ((wf.nodes.get? id).map (·.dependencies)).getD [], dep ∈ failedNodes errors

theorem goOn_cases (wf : Workflow) (s : RunState σ) : wf.goOn s = .next s ∨ wf.goOn s = .stop s := by
  simp only [goOn]
  split
  · exact .inr rfl
  · exact .inl rfl

/-- Under the default policy a run with errors ends exactly if they touch every node. -/
theorem shouldContinue_touched (wf : Workflow) {errors : List String} (some : errors ≠ []) :
    shouldContinue .continuePossible wf.levels wf.nodes errors = false ↔ AllTouched wf errors := by
  simp only [shouldContinue,List.isEmpty_iff,some,if_false,List.any_eq_false,AllTouched]
  refine forall₂_congr fun id _ => ?_
  simp only [Bool.and_eq_true,decide_eq_true_eq,List.all_eq_true,not_and,not_forall,not_not,exists_prop]
  exact or_iff_not_imp_left.symm

/-! ### Activity -/

theorem activeIds_acyclic (graph : DependencyGraph) (acyclic : graph.graph.Acyclic) {limit : Nat}
    (deep : graph.graph.edges.length < limit) (ids : List String) (cache : ActiveCache)
    (all : AllActive cache) :
    ∃ cache', activeIds graph limit ids cache = some (ids,cache') ∧ AllActive cache' := by
  induction ids generalizing cache with
  | nil => exact ⟨cache,rfl,all⟩
  | cons id rest ih =>
    have low := graph.graph.rank_le id
    obtain ⟨next,active,positive⟩ :=
      isNodeActive_acyclic graph acyclic (Nat.lt_of_le_of_lt low deep) cache all
    obtain ⟨last,done,positive'⟩ := ih next positive
    exact ⟨last,by simp [activeIds,active,done],positive'⟩

/-! ### A level as a whole -/

/-- The results of a level, the state after its gather and the state after its recursive flows. -/
def levelPhases (wf : Workflow) (eng : Engine σ) (limit : Nat) (b : LevelStart σ) :
    Option (Results × RunState σ × RunState σ) :=
  (activeIds wf.graph limit b.ids b.state.activeCache).bind fun (active,activeCache) =>
    let (outcomes,gathered) := gather eng (active.filterMap wf.nodes.get?) { b.state with activeCache }
    let levelResults := OrderedDict.ofList (outcomes.map fileOutcome)
    (wf.handleRecursiveFlows eng limit levelResults gathered).toOption.map (levelResults,gathered,·)

theorem levelPhases_eq_some {wf : Workflow} {eng : Engine σ} {limit : Nat} {b : LevelStart σ} {levelResults : Results}
    {gathered flowed : RunState σ} (phases : wf.levelPhases eng limit b = some (levelResults,gathered,flowed)) :
    ∃ ids activeCache, activeIds wf.graph limit b.ids b.state.activeCache = some (ids,activeCache) ∧
      gathered = (gather eng (ids.filterMap wf.nodes.get?) { b.state with activeCache }).2 ∧
      levelResults = OrderedDict.ofList
        ((gather eng (ids.filterMap wf.nodes.get?) { b.state with activeCache }).1.map fileOutcome) ∧
      wf.handleRecursiveFlows eng limit levelResults gathered = .ok flowed := by
  simp only [levelPhases] at phases
  obtain ⟨⟨ids,activeCache⟩,active,phases⟩ := Option.bind_eq_some_iff.mp phases
  obtain ⟨u,did,same⟩ := Option.map_eq_some_iff.mp phases
  cases same
  refine ⟨ids,activeCache,active,rfl,rfl,?_⟩
  cases went : wf.handleRecursiveFlows eng limit
      (OrderedDict.ofList ((gather eng (ids.filterMap wf.nodes.get?) { b.state with activeCache }).1.map fileOutcome))
      (gather eng (ids.filterMap wf.nodes.get?) { b.state with activeCache }).2 with
  | error e => simp [went,Except.toOption] at did
  | ok t =>
    rw [went] at did
    cases did
    rfl

/-- The history of a level start together with the attempts of the level's gather. -/
def gatheredAt (wf : Workflow) (eng : Engine σ) (limit : Nat) (b : LevelStart σ) : List Attempt :=
  match wf.levelPhases eng limit b with
  | none => b.state.history
  | some (_,gathered,_) => gathered.history

/-- The attempts made by the recursive flows of a level. -/
def flowsAt (wf : Workflow) (eng : Engine σ) (limit : Nat) (b : LevelStart σ) : List Attempt :=
  match wf.levelPhases eng limit b with
  | none => []
  | some (_,gathered,flowed) => flowed.history.drop gathered.history.length

/-- The results of a level that a token abort leaves unbooked. -/
def droppedAt (wf : Workflow) (eng : Engine σ) (limit : Nat) (b : LevelStart σ) :
    List (String × NodeExecutionResult) :=
  match wf.levelPhases eng limit b with
  | none => []
  | some (levelResults,_,flowed) => wf.dropped levelResults.items flowed

/-- A level that was run: its coroutines, the recursive flows after them, and the states between. -/
structure LevelRun (wf : Workflow) (eng : Engine σ) (limit : Nat) (b : LevelStart σ)
    (runs : List NodeRun) (levelResults : Results) (flows : List Attempt) (flowed : RunState σ) : Prop where
  nodes : runs.map (·.node) = b.nodes wf
  ran : ∀ r ∈ runs, Ran eng b.state.results r.node r.outcome r.ending
  filed : levelResults = OrderedDict.ofList (runs.map fun r => fileOutcome (r.node.id,r.outcome))
  history : flowed.history = b.state.history ++ runs.map (·.attempt b.state.results) ++ flows
  errors : flowed.errors = b.state.errors
  cache : AllActive flowed.activeCache
  statuses : ∀ id, status flowed.results id =
    ((latest flows id).map (· == .succeeded)).or (status b.state.results id)
  returns : eng.stalls (b.nodes wf) b.state.world = false
  phases : ∃ gathered, wf.levelPhases eng limit b = some (levelResults,gathered,flowed) ∧
    gathered.history = b.state.history ++ runs.map (·.attempt b.state.results)

section

variable {wf : Workflow} {eng : Engine σ} {limit : Nat} {b : LevelStart σ} {runs : List NodeRun}
  {levelResults : Results} {flows : List Attempt} {flowed : RunState σ}

theorem LevelRun.gatheredAt (level : LevelRun wf eng limit b runs levelResults flows flowed) :
    wf.gatheredAt eng limit b = b.state.history ++ runs.map (·.attempt b.state.results) := by
  obtain ⟨gathered,phases,history⟩ := level.phases
  simp [Workflow.gatheredAt,phases,history]

theorem LevelRun.flowsAt (level : LevelRun wf eng limit b runs levelResults flows flowed) :
    wf.flowsAt eng limit b = flows := by
  obtain ⟨gathered,phases,history⟩ := level.phases
  simp [Workflow.flowsAt,phases,history,level.history]

theorem LevelRun.droppedAt (level : LevelRun wf eng limit b runs levelResults flows flowed) :
    wf.droppedAt eng limit b = wf.dropped levelResults.items flowed := by
  obtain ⟨gathered,phases,_⟩ := level.phases
  simp [Workflow.droppedAt,phases]

end

/-- On an acyclic graph a level is cut off by its depth, hangs, or is run and booked. -/
theorem runLevel_cases (wf : Workflow) (eng : Engine σ) {limit : Nat} (acyclic : wf.graph.graph.Acyclic)
    (deep : wf.graph.graph.edges.length < limit) (b : LevelStart σ) (all : AllActive b.state.activeCache) :
    (∃ text, wf.depthStop b.index = some text ∧ wf.runLevel eng limit b = .tooDeep (b.state.addError text)) ∨
      wf.depthStop b.index = none ∧
        ((∃ s, s.history = b.state.history ∧ eng.stalls (b.nodes wf) b.state.world = true ∧
            wf.runLevel eng limit b = .stalled s) ∨
          ∃ runs levelResults flows flowed, LevelRun wf eng limit b runs levelResults flows flowed ∧
            wf.runLevel eng limit b = wf.bookLevel levelResults flowed) := by
  simp only [runLevel]
  cases depth : wf.depthStop b.index with
  | some text => exact .inl ⟨text,rfl,rfl⟩
  | none =>
    obtain ⟨cache,active,positive⟩ := activeIds_acyclic wf.graph acyclic deep b.ids b.state.activeCache all
    refine .inr ⟨rfl,?_⟩
    simp only [active]
    cases stalls : eng.stalls (b.ids.filterMap wf.nodes.get?) b.state.world with
    | true => exact .inl ⟨{ b.state with activeCache := cache },rfl,stalls,if_pos rfl⟩
    | false =>
      obtain ⟨runs,nodes,outcomes,attempts,results,ran⟩ :=
        gather_runs eng (b.ids.filterMap wf.nodes.get?) { b.state with activeCache := cache }
      obtain ⟨flowed,did,flows,further,statuses⟩ := handleRecursiveFlows_recurses wf eng
        (Nat.zero_lt_of_lt deep) (OrderedDict.ofList (runs.map fun r => fileOutcome (r.node.id,r.outcome)))
        (gather eng (b.ids.filterMap wf.nodes.get?) { b.state with activeCache := cache }).2
      have phases : wf.levelPhases eng limit b =
          some (OrderedDict.ofList (runs.map fun r => fileOutcome (r.node.id,r.outcome)),
            (gather eng (b.ids.filterMap wf.nodes.get?) { b.state with activeCache := cache }).2,flowed) := by
        simp [levelPhases,active,outcomes,Function.comp_def,did,Except.toOption]
      refine .inr ⟨runs,_,flows,flowed,⟨nodes,ran,rfl,?_,?_,?_,?_,stalls,_,phases,attempts.history⟩,?_⟩
      · rw [further.history,attempts.history]
      · rw [further.errors,attempts.errors]
      · rw [further.cache,attempts.cache]; exact positive
      · rw [← results]; exact statuses
      · simp [executeLevel,outcomes,Function.comp_def,did,Except.map]

theorem levelRun_ids {wf : Workflow} {eng : Engine σ} {limit : Nat} {b : LevelStart σ}
    {runs : List NodeRun} {levelResults : Results} {flows : List Attempt} {flowed : RunState σ}
    (level : LevelRun wf eng limit b runs levelResults flows flowed) (known : ∀ id ∈ b.ids, id ∈ wf.nodes.keys) :
    runs.map (·.node.id) = b.ids := by
  have ids (ids : List String) (known : ∀ id ∈ ids, id ∈ wf.nodes.keys) :
      (ids.filterMap wf.nodes.get?).map (·.id) = ids := by
    induction ids with
    | nil => rfl
    | cons id rest ih =>
      obtain ⟨node,found⟩ := Option.isSome_iff_exists.mp
        ((wf.nodes.mem_keys id).mp (known id List.mem_cons_self))
      simp [found,wf.own id node found,ih fun other member => known other (List.mem_cons_of_mem id member)]
  calc runs.map (·.node.id) = (runs.map (·.node)).map (·.id) := by simp
    _ = b.ids := by rw [level.nodes]; exact ids b.ids known

theorem levelNode_known {wf : Workflow} {b : LevelStart σ} {node : NodeConfig} (member : node ∈ b.nodes wf) :
    node.id ∈ wf.nodes.keys := by
  obtain ⟨id,_,found⟩ := List.mem_filterMap.mp member
  rw [wf.own id node found,OrderedDict.mem_keys]
  exact Option.isSome_iff_exists.mpr ⟨node,found⟩

/-- The entry a recorded result has in the workflow's output. -/
theorem finalEntries_lookup (s : RunState σ) {id : String} {result : NodeExecutionResult}
    (found : s.results.get? id = some result) :
    (s.results.items.map fun (id,result) => (id,serialize result)).lookup id = some (serialize result) := by
  have member := (s.results.get?_eq_some id result).mp found
  have serialized : (id,serialize result) ∈ s.results.items.map fun item => (item.1,serialize item.2) :=
    List.mem_map.mpr ⟨_,member,rfl⟩
  exact ((⟨_,by simpa [Function.comp_def] using s.results.nodup⟩ : OrderedDict String Value).get?_eq_some
    id (serialize result)).mpr serialized

end Workflow

end IceOS
