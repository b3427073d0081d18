import IceOS.WorkflowRuns

/-! How a workflow run ends, told from its level starts: with an exception, hanging, or with a
result, which is a success if nothing went wrong at any of them. -/
namespace IceOS

open Workflow

/-- Some node was handed to its executor. -/
def Dispatches (history : List Attempt) : Prop := ∃ a ∈ history, a.Dispatched

/-- The token totals that are held against the limits while results are booked. -/
def totals : List (String × NodeExecutionResult) → Nat → List Nat
  | [],_ => []
  | entry :: rest,total =>
    match metered entry.2 with
    | none => totals rest total
    | some tokens => (total + tokens) :: totals rest (total + tokens)

section

variable {σ : Type} (wf : Workflow) (eng : Engine σ) (limit : Nat)

/-- The coroutines of the level never finish. -/
def Hangs (b : LevelStart σ) : Prop :=
  wf.depthStop b.index = none ∧ ∃ active cache,
    activeIds wf.graph limit b.ids b.state.activeCache = some (active,cache) ∧
      eng.stalls (active.filterMap wf.nodes.get?) b.state.world = true

/-- One of the results is filed under no node's id, and no token total up to it is refused. -/
def Misfiled (entries : List (String × NodeExecutionResult)) (total : Nat) : Prop :=
  ∃ front entry back, entries = front ++ entry :: back ∧ entry.1 ∉ wf.nodes.keys ∧
    ∀ t ∈ totals (front ++ [entry]) total, wf.tokenStop t = none

/-- An exception gets out of the level: the frames do not suffice for its gating or its
recursive flows, or a result of it is misfiled. -/
def LetsOut (b : LevelStart σ) : Prop :=
  wf.depthStop b.index = none ∧ ¬Hangs wf eng limit b ∧
    match wf.levelPhases eng limit b with
    | none => True
    | some (levelResults,_,flowed) => Misfiled wf levelResults.items flowed.totalTokens

/-- Every result of the level is a success, and neither its depth nor its tokens stop the run. -/
structure Untroubled (b : LevelStart σ) : Prop where
  shallow : wf.depthStop b.index = none
  returns : ¬Hangs wf eng limit b
  succeeded : ∃ levelResults gathered flowed,
    wf.levelPhases eng limit b = some (levelResults,gathered,flowed) ∧
      (∀ entry ∈ levelResults.items, entry.2.success = true) ∧
      ∀ total ∈ totals levelResults.items flowed.totalTokens, wf.tokenStop total = none

/-- The level hands a node to its executor: it is run, and the context of one of its nodes can be built. -/
def Dispatching (b : LevelStart σ) : Prop :=
  wf.depthStop b.index = none ∧ ¬Hangs wf eng limit b ∧ ∃ active cache,
    activeIds wf.graph limit b.ids b.state.activeCache = some (active,cache) ∧
      ∃ node ∈ active.filterMap wf.nodes.get?, ∃ ctx, ContextBuilder.buildNodeContext node b.state.results = .ok ctx

/-- An exception comes out of the run, from a level or from looking for the last node. -/
def Breaks (world : σ) : Prop :=
  (∃ start ∈ wf.starts eng limit world, LetsOut wf eng limit start.1) ∨
    wf.graph.getLeafNodes = [] ∧ ¬∃ start ∈ wf.starts eng limit world, Hangs wf eng limit start.1

end

section

variable {σ : Type} {wf : Workflow} {eng : Engine σ} {limit : Nat} {b : LevelStart σ}

theorem bookOutcome_totalTokens {s t : RunState σ} {id : String} {result : NodeExecutionResult}
    (next : wf.bookOutcome id result s = .next t) : t.totalTokens = s.totalTokens := by
  simp only [bookOutcome] at next
  cases known : wf.nodes.get? id with
  | none => simp [known] at next
  | some node =>
    simp only [known,Booked.next.injEq] at next
    have same : (recordDecision node id result.output s).totalTokens = s.totalTokens := by
      simp only [recordDecision]
      split <;> rfl
    rw [← next]
    split
    · exact same
    · exact same

theorem totals_cons (entry : String × NodeExecutionResult) (rest : List (String × NodeExecutionResult))
    (total : Nat) : totals (entry :: rest) total =
      totals [entry] total ++ totals rest (total + (metered entry.2).getD 0) := by
  cases tokens : metered entry.2 <;> simp [totals,tokens]

/-- Booking one result: its tokens are refused, it has no node, or it is booked. -/
theorem bookEntry_spec (wf : Workflow) (s : RunState σ) (entry : String × NodeExecutionResult) :
    (∃ t, wf.bookEntry s entry = .aborted t ∧
        ∃ total ∈ totals [entry] s.totalTokens, wf.tokenStop total ≠ none) ∨
      (∀ total ∈ totals [entry] s.totalTokens, wf.tokenStop total = none) ∧
        ((∃ e t, wf.bookEntry s entry = .raised e t ∧ entry.1 ∉ wf.nodes.keys) ∨
          ∃ t, wf.bookEntry s entry = .next t ∧ entry.1 ∈ wf.nodes.keys ∧
            t.totalTokens = s.totalTokens + (metered entry.2).getD 0) := by
  have outcome (u : RunState σ) :
      (∃ e t, wf.bookOutcome entry.1 entry.2 u = .raised e t ∧ entry.1 ∉ wf.nodes.keys) ∨
        ∃ t, wf.bookOutcome entry.1 entry.2 u = .next t ∧ entry.1 ∈ wf.nodes.keys ∧
          t.totalTokens = u.totalTokens := by
    cases booked : wf.bookOutcome entry.1 entry.2 u with
    | next t =>
      refine .inr ⟨t,rfl,?_,bookOutcome_totalTokens booked⟩
      rw [OrderedDict.mem_keys]
      cases known : wf.nodes.get? entry.1 with
      | none => simp [bookOutcome,known] at booked
      | some node => rfl
    | aborted t => exact absurd booked (bookOutcome_ne_aborted wf _ _ _ t)
    | raised e t =>
      refine .inl ⟨e,t,rfl,?_⟩
      rw [← OrderedDict.get?_eq_none]
      cases known : wf.nodes.get? entry.1 with
      | none => rfl
      | some node => simp [bookOutcome,known] at booked
  simp only [bookEntry,totals]
  cases tokens : metered entry.2 with
  | none => exact .inr ⟨by simp,outcome (s.record entry.1 entry.2)⟩
  | some n =>
    simp only
    cases stop : wf.tokenStop ((s.record entry.1 entry.2).totalTokens + n) with
    | some text =>
      refine .inl ⟨_,rfl,s.totalTokens + n,List.mem_singleton_self _,?_⟩
      exact ne_of_eq_of_ne stop (Option.some_ne_none text)
    | none =>
      exact .inr ⟨List.forall_mem_singleton.mpr stop,outcome
        { s.record entry.1 entry.2 with totalTokens := (s.record entry.1 entry.2).totalTokens + n }⟩

/-- Bookkeeping is stopped by the first total that is refused. -/
theorem bookEntries_totals (wf : Workflow) (entries : List (String × NodeExecutionResult)) (s : RunState σ) :
    match wf.bookEntries entries s with
    | .next _ => ∀ total ∈ totals entries s.totalTokens, wf.tokenStop total = none
    | .aborted _ => ∃ total ∈ totals entries s.totalTokens, wf.tokenStop total ≠ none
    | .raised _ _ => True := by
  induction entries generalizing s with
  | nil => simp [bookEntries,totals]
  | cons entry rest ih =>
    rw [totals_cons]
    simp only [bookEntries]
    rcases bookEntry_spec wf s entry with ⟨t,did,total,member,refused⟩ | ⟨fine,⟨e,t,did,_⟩ | ⟨t,did,_,tokens⟩⟩
    · rw [did]
      exact ⟨total,List.mem_append_left _ member,refused⟩
    · rw [did]
      trivial
    · rw [did]
      have later := ih t
      rw [tokens] at later
      simp only
      cases ended : wf.bookEntries rest t with
      | next u =>
        rw [ended] at later
        exact List.forall_mem_append.mpr ⟨fine,later⟩
      | aborted u =>
        rw [ended] at later
        obtain ⟨total,member,refused⟩ := later
        exact ⟨total,List.mem_append_right _ member,refused⟩
      | raised e u => trivial

theorem misfiled_cons (entry : String × NodeExecutionResult) (rest : List (String × NodeExecutionResult))
    (total : Nat) : Misfiled wf (entry :: rest) total ↔
      (∀ t ∈ totals [entry] total, wf.tokenStop t = none) ∧
        (entry.1 ∉ wf.nodes.keys ∨ Misfiled wf rest (total + (metered entry.2).getD 0)) := by
  constructor
  · rintro ⟨front,bad,back,parts,unknown,fine⟩
    cases front with
    | nil =>
      cases parts
      exact ⟨fine,.inl unknown⟩
    | cons first front =>
      cases parts
      rw [List.cons_append,totals_cons,List.forall_mem_append] at fine
      exact ⟨fine.1,.inr ⟨front,bad,back,rfl,unknown,fine.2⟩⟩
  · rintro ⟨fine,unknown | ⟨front,bad,back,rfl,unknown,later⟩⟩
    · exact ⟨[],entry,rest,rfl,unknown,fine⟩
    · refine ⟨entry :: front,bad,back,rfl,unknown,?_⟩
      rw [List.cons_append,totals_cons,List.forall_mem_append]
      exact ⟨fine,later⟩

/-- Bookkeeping raises exactly if a result is misfiled. -/
theorem bookEntries_raised_iff (wf : Workflow) (entries : List (String × NodeExecutionResult))
    (s : RunState σ) :
    (∃ e t, wf.bookEntries entries s = .raised e t) ↔ Misfiled wf entries s.totalTokens := by
  induction entries generalizing s with
  | nil => simp [bookEntries,Misfiled]
  | cons entry rest ih =>
    rw [misfiled_cons]
    simp only [bookEntries]
    rcases bookEntry_spec wf s entry with ⟨t,did,total,member,refused⟩ |
      ⟨fine,⟨e,t,did,unknown⟩ | ⟨t,did,known,tokens⟩⟩
    · rw [did]
      constructor
      · simp
      · rintro ⟨fine,_⟩
        exact absurd (fine total member) refused
    · rw [did]
      exact ⟨fun _ => ⟨fine,.inl unknown⟩,fun _ => ⟨e,t,rfl⟩⟩
    · rw [did]
      simp only [ih t,tokens]
      exact ⟨fun bad => ⟨fine,.inr bad⟩,fun bad => bad.2.resolve_left (not_not_intro known)⟩

/-! ### One level -/

/-- A level is cut off by its depth, hangs, runs out of frames, or is run and booked. -/
theorem runLevel_phases (wf : Workflow) (eng : Engine σ) (limit : Nat) (b : LevelStart σ) :
    (∃ text, wf.depthStop b.index = some text ∧ wf.runLevel eng limit b = .tooDeep (b.state.addError text)) ∨
      wf.depthStop b.index = none ∧
        ((Hangs wf eng limit b ∧ ∃ s, s.history = b.state.history ∧ wf.runLevel eng limit b = .stalled s) ∨
          ¬Hangs wf eng limit b ∧
            ((wf.levelPhases eng limit b = none ∧
                ∃ e s, s.history = b.state.history ∧ wf.runLevel eng limit b = .raised e s) ∨
              ∃ levelResults gathered flowed,
                wf.levelPhases eng limit b = some (levelResults,gathered,flowed) ∧
                  wf.runLevel eng limit b = wf.bookLevel levelResults flowed)) := by
  simp only [runLevel,levelPhases,Hangs]
  cases depth : wf.depthStop b.index with
  | some text => exact .inl ⟨text,rfl,rfl⟩
  | none =>
    refine .inr ⟨rfl,?_⟩
    cases active : activeIds wf.graph limit b.ids b.state.activeCache with
    | none => exact .inr ⟨by simp,.inl ⟨rfl,_,_,rfl,rfl⟩⟩
    | some found =>
      obtain ⟨ids,cache⟩ := found
      cases stalls : eng.stalls (ids.filterMap wf.nodes.get?) b.state.world with
      | true => exact .inl ⟨⟨rfl,ids,cache,rfl,stalls⟩,{ b.state with activeCache := cache },rfl,if_pos stalls⟩
      | false =>
        refine .inr ⟨?_,?_⟩
        · rintro ⟨_,_,_,same,hangs⟩
          cases same
          simp [stalls] at hangs
        · simp only [Option.bind_some,executeLevel,stalls,Bool.false_eq_true,if_false]
          cases flowed : wf.handleRecursiveFlows eng limit
              (OrderedDict.ofList ((gather eng (ids.filterMap wf.nodes.get?)
                { b.state with activeCache := cache }).1.map fileOutcome))
              (gather eng (ids.filterMap wf.nodes.get?) { b.state with activeCache := cache }).2 with
          | error e => exact .inl ⟨rfl,e,{ b.state with activeCache := cache },rfl,rfl⟩
          | ok u => exact .inr ⟨_,_,u,rfl,rfl⟩

theorem handleRecursiveFlows_attempts {levelResults : Results} {s t : RunState σ}
    (went : wf.handleRecursiveFlows eng limit levelResults s = .ok t) : ∃ atts, Attempts s t atts := by
  cases limit with
  | zero =>
    simp only [handleRecursiveFlows] at went
    cases pending : wf.pendingRecursions levelResults.items with
    | nil =>
      rw [pending] at went
      cases went
      exact ⟨[],.refl s⟩
    | cons request rest =>
      -- without a frame the first flow raises
      simp [pending,executeRecursiveNode,bind,Except.bind] at went
  | succ limit =>
    obtain ⟨u,did,atts,further,_⟩ := handleRecursiveFlows_recurses wf eng (Nat.succ_pos limit) levelResults s
    rw [did] at went
    cases went
    exact ⟨atts,further⟩

/-- The flows of a level that has been run add no errors, and its successes are its nodes'. -/
theorem levelPhases_known {levelResults : Results} {gathered flowed : RunState σ}
    (phases : wf.levelPhases eng limit b = some (levelResults,gathered,flowed)) :
    flowed.errors = b.state.errors ∧
      ∀ entry ∈ levelResults.items, entry.2.success = true → entry.1 ∈ wf.nodes.keys := by
  obtain ⟨ids,cache,_,rfl,rfl,went⟩ := levelPhases_eq_some phases
  obtain ⟨runs,nodes,outcomes,attempts,_,_⟩ :=
    gather_runs eng (ids.filterMap wf.nodes.get?) { b.state with activeCache := cache }
  constructor
  · obtain ⟨_,further⟩ := handleRecursiveFlows_attempts went
    exact further.errors.trans attempts.errors
  · intro entry member success
    have found := (OrderedDict.get?_eq_some _ entry.1 entry.2).mpr member
    obtain ⟨filed,inside,same⟩ := List.mem_map.mp (OrderedDict.get?_ofList _ found)
    rw [outcomes] at inside
    obtain ⟨r,inRuns,rfl⟩ := List.mem_map.mp inside
    cases outcome : r.outcome with
    | ok result =>
      simp only [outcome,fileOutcome,Prod.ext_iff] at same
      rw [← same.1]
      have node : r.node ∈ ids.filterMap wf.nodes.get? := nodes ▸ List.mem_map_of_mem inRuns
      obtain ⟨id,_,known⟩ := List.mem_filterMap.mp node
      rw [wf.own id r.node known,OrderedDict.mem_keys,known]
      rfl
    | error e =>
      simp only [outcome,fileOutcome,Prod.ext_iff] at same
      simp [← same.2] at success

/-- An exception gets out of a turn of the loop exactly if it gets out of its level. -/
theorem levelStep_raised_iff : (∃ e t, wf.levelStep eng limit b = .raised e t) ↔ LetsOut wf eng limit b := by
  have asks (u : RunState σ) (e : Exn) (t : RunState σ) : wf.goOn u ≠ .raised e t := by
    rcases goOn_cases wf u with next | stop
    · simp [next]
    · simp [stop]
  simp only [LetsOut]
  rcases runLevel_phases wf eng limit b with ⟨text,cut,ended⟩ | ⟨shallow,⟨hangs,s,_,ended⟩ |
    ⟨returns,⟨none,e,s,_,ended⟩ | ⟨levelResults,gathered,flowed,phases,ended⟩⟩⟩
  · simp [levelStep,ended,cut]
  · simp [levelStep,ended,hangs]
  · simp [levelStep,ended,shallow,returns,none]
  · simp only [shallow,returns,phases,not_false_iff,true_and,← bookEntries_raised_iff]
    simp only [levelStep,ended,bookLevel]
    cases wf.bookEntries levelResults.items flowed with
    | next u => simp [asks]
    | aborted u => simp [asks]
    | raised e u => simp

theorem levelStep_stalled_iff : (∃ t, wf.levelStep eng limit b = .stalled t) ↔ Hangs wf eng limit b := by
  have asks (u t : RunState σ) : wf.goOn u ≠ .stalled t := by
    rcases goOn_cases wf u with next | stop
    · simp [next]
    · simp [stop]
  rcases runLevel_phases wf eng limit b with ⟨text,cut,ended⟩ | ⟨shallow,⟨hangs,s,_,ended⟩ |
    ⟨returns,⟨none,e,s,_,ended⟩ | ⟨levelResults,gathered,flowed,phases,ended⟩⟩⟩
  · simp [levelStep,ended,Hangs,cut]
  · simp [levelStep,ended,hangs]
  · simp [levelStep,ended,returns]
  · simp only [returns,iff_false,not_exists]
    intro t
    simp only [levelStep,ended,bookLevel]
    cases wf.bookEntries levelResults.items flowed with
    | next u => exact asks u t
    | aborted u => exact asks u t
    | raised e u => simp

theorem failureTexts_eq_nil (entries : List (String × NodeExecutionResult)) :
    failureTexts entries = [] ↔ ∀ entry ∈ entries, entry.2.success = true := by
  simp [failureTexts,List.filter_eq_nil_iff]

/-- The loop goes on without errors exactly if there were none and the level was untroubled. -/
theorem levelStep_untroubled_iff (wf : Workflow) (eng : Engine σ) (limit : Nat)
    (b : LevelStart σ) : (∃ t, wf.levelStep eng limit b = .next t ∧ t.errors = []) ↔
    b.state.errors = [] ∧ Untroubled wf eng limit b := by
  rcases runLevel_phases wf eng limit b with ⟨text,cut,ended⟩ | ⟨shallow,⟨hangs,s,_,ended⟩ |
    ⟨returns,⟨none,e,s,_,ended⟩ | ⟨levelResults,gathered,flowed,phases,ended⟩⟩⟩
  · constructor
    · simp [levelStep,ended]
    · rintro ⟨_,calm⟩
      simp [calm.shallow] at cut
  · constructor
    · simp [levelStep,ended]
    · rintro ⟨_,calm⟩
      exact absurd hangs calm.returns
  · constructor
    · simp [levelStep,ended]
    · rintro ⟨_,calm⟩
      obtain ⟨_,_,_,some,_⟩ := calm.succeeded
      simp [none] at some
  · obtain ⟨same,known⟩ := levelPhases_known phases
    have calm_iff : Untroubled wf eng limit b ↔ (∀ entry ∈ levelResults.items, entry.2.success = true) ∧
        ∀ total ∈ totals levelResults.items flowed.totalTokens, wf.tokenStop total = none := by
      constructor
      · intro calm
        obtain ⟨_,_,_,found,fine⟩ := calm.succeeded
        rw [phases] at found
        cases found
        exact fine
      · exact fun fine => ⟨shallow,returns,_,_,_,phases,fine⟩
    have booking := bookEntries_totals wf levelResults.items flowed
    rw [calm_iff,← failureTexts_eq_nil]
    simp only [levelStep,ended,bookLevel]
    rcases bookEntries_cases wf levelResults.items flowed with ⟨u,did,books,_,_⟩ |
      ⟨u,text,booked,did,_,books,_⟩ | ⟨e,u,did,_,entry,member,unknown⟩
    · simp only [did] at booking ⊢
      have errors := books.errors
      rw [same,List.append_nil] at errors
      constructor
      · rintro ⟨t,went,clear⟩
        rcases goOn_cases wf u with next | stop
        · rw [next] at went
          cases went
          rw [errors,List.append_eq_nil_iff] at clear
          exact ⟨clear.1,clear.2,booking⟩
        · rw [stop] at went
          cases went
      · rintro ⟨before,fine,_⟩
        rw [before,fine,List.append_nil] at errors
        exact ⟨u,by simp [goOn,errors],errors⟩
    · simp only [did] at booking ⊢
      obtain ⟨total,member,refused⟩ := booking
      constructor
      · rintro ⟨t,went,clear⟩
        rcases goOn_cases wf u with next | stop
        · rw [next] at went
          cases went
          simp [books.errors] at clear
        · rw [stop] at went
          cases went
      · rintro ⟨_,_,fine⟩
        exact absurd (fine total member) refused
    · simp only [did]
      constructor
      · simp
      · rintro ⟨_,fine,_⟩
        exact absurd (known entry member ((failureTexts_eq_nil _).mp fine entry member)) unknown

/-- A run that is stopped has an error. -/
theorem levelStep_stop {t : RunState σ} (went : wf.levelStep eng limit b = .stop t) : t.errors ≠ [] := by
  have asked {u : RunState σ} (stop : wf.goOn u = .stop t) : t.errors ≠ [] := by
    simp only [goOn] at stop
    split at stop
    · next some =>
      cases stop
      exact some.1
    · cases stop
  rcases runLevel_phases wf eng limit b with ⟨text,cut,ended⟩ | ⟨_,⟨_,s,_,ended⟩ |
    ⟨_,⟨_,e,s,_,ended⟩ | ⟨levelResults,gathered,flowed,phases,ended⟩⟩⟩
  · simp only [levelStep,ended,Flow.stop.injEq] at went
    simp [← went]
  · simp [levelStep,ended] at went
  · simp [levelStep,ended] at went
  · simp only [levelStep,ended,bookLevel] at went
    cases booked : wf.bookEntries levelResults.items flowed with
    | next u => exact asked (by simpa only [booked] using went)
    | aborted u => exact asked (by simpa only [booked] using went)
    | raised e u => simp [booked] at went

theorem dispatches_append (first second : List Attempt) :
    Dispatches (first ++ second) ↔ Dispatches first ∨ Dispatches second := by
  simp only [Dispatches,List.mem_append,or_and_right,exists_or]

theorem activeIds_frameless (graph : DependencyGraph) {ids active : List String} {cache cache' : ActiveCache}
    (answered : activeIds graph 0 ids cache = some (active,cache')) : active = [] := by
  cases ids with
  | nil =>
    cases answered
    rfl
  | cons id rest => simp [activeIds,isNodeActive] at answered

theorem Workflow.Ran.dispatched_iff {results : Results} {node : NodeConfig} {outcome : Except Exn NodeExecutionResult}
    {ending : Ending} (ran : Ran eng results node outcome ending) :
    ending ≠ .unbuilt ↔ ∃ ctx, ContextBuilder.buildNodeContext node results = .ok ctx := by
  cases ran with
  | unbuilt e failed => simp [failed]
  | built ctx base world made =>
    refine ⟨fun _ => ⟨base,made⟩,fun _ => ?_⟩
    cases (eng.executeNode node ctx world).1 with
    | error e => simp [endingOf]
    | ok r => cases success : r.success <;> simp [endingOf,success]

theorem Workflow.Ran.unbuilt_error {results : Results} {node : NodeConfig} {outcome : Except Exn NodeExecutionResult}
    {ending : Ending} (ran : Ran eng results node outcome ending) (unbuilt : ending = .unbuilt) :
    ∃ e, outcome = .error e := by
  cases ran with
  | unbuilt e failed => exact ⟨e,rfl⟩
  | built ctx base world made => exact absurd unbuilt ((Ran.built ctx base world made).dispatched_iff.mpr ⟨base,made⟩)

/-- Without a result there is nothing to recurse on. -/
theorem pendingRecursions_unbuilt (wf : Workflow) {results : Results} {runs : List NodeRun}
    (ran : ∀ r ∈ runs, Ran eng results r.node r.outcome r.ending) (unbuilt : ∀ r ∈ runs, r.ending = .unbuilt) :
    wf.pendingRecursions (OrderedDict.ofList (runs.map fun r => fileOutcome (r.node.id,r.outcome))).items = [] := by
  simp only [pendingRecursions,List.flatMap_eq_nil_iff]
  rintro ⟨id,result⟩ member
  have found := (OrderedDict.get?_eq_some _ id result).mpr member
  obtain ⟨r,inside,same⟩ := List.mem_map.mp (OrderedDict.get?_ofList _ found)
  obtain ⟨e,raised⟩ := (ran r inside).unbuilt_error (unbuilt r inside)
  rw [raised] at same
  cases same
  cases wf.nodes.get? e.text with
  | none => rfl
  | some node => simp [canRecurse,Value.isDict]

/-- A level that cannot be run for want of frames dispatches nothing. -/
theorem levelPhases_none (none : wf.levelPhases eng limit b = none) : ¬Dispatching wf eng limit b := by
  rintro ⟨_,_,active,cache,answered,node,member,_⟩
  cases limit with
  | zero =>
    rw [activeIds_frameless wf.graph answered] at member
    simp at member
  | succ limit =>
    simp only [levelPhases,answered,Option.bind_some] at none
    obtain ⟨u,did,_⟩ := handleRecursiveFlows_recurses wf eng (Nat.succ_pos limit)
      (OrderedDict.ofList ((gather eng (active.filterMap wf.nodes.get?)
        { b.state with activeCache := cache }).1.map fileOutcome))
      (gather eng (active.filterMap wf.nodes.get?) { b.state with activeCache := cache }).2
    simp [did,Except.toOption] at none

theorem levelPhases_dispatches (shallow : wf.depthStop b.index = none) (returns : ¬Hangs wf eng limit b)
    {levelResults : Results} {gathered flowed : RunState σ}
    (phases : wf.levelPhases eng limit b = some (levelResults,gathered,flowed)) :
    Dispatches flowed.history ↔ Dispatches b.state.history ∨ Dispatching wf eng limit b := by
  obtain ⟨ids,cache,active,rfl,rfl,went⟩ := levelPhases_eq_some phases
  obtain ⟨runs,nodes,outcomes,attempts,results,ran⟩ :=
    gather_runs eng (ids.filterMap wf.nodes.get?) { b.state with activeCache := cache }
  have level : Dispatching wf eng limit b ↔ ∃ r ∈ runs, r.ending ≠ .unbuilt := by
    have built : (∃ node ∈ ids.filterMap wf.nodes.get?,
        ∃ ctx, ContextBuilder.buildNodeContext node b.state.results = .ok ctx) ↔
          ∃ r ∈ runs, r.ending ≠ .unbuilt := by
      rw [← nodes]
      simp only [List.mem_map,exists_exists_and_eq_and]
      exact exists_congr fun r => and_congr_right fun member => ((ran r member).dispatched_iff).symm
    rw [← built]
    simp [Dispatching,shallow,returns,active]
  have gathers : Dispatches (runs.map (·.attempt b.state.results)) ↔ ∃ r ∈ runs, r.ending ≠ .unbuilt := by
    simp only [Dispatches,List.mem_map,exists_exists_and_eq_and]
    rfl
  have history := attempts.history
  rw [level,← gathers,← dispatches_append]
  by_cases quiet : ∀ r ∈ runs, r.ending = .unbuilt
  · rw [outcomes,List.map_map] at went
    have nothing := pendingRecursions_unbuilt wf ran quiet
    simp only [handleRecursiveFlows,Function.comp_def] at went
    rw [nothing] at went
    cases went
    rw [history]
  · obtain ⟨atts,further⟩ := handleRecursiveFlows_attempts went
    have sent : Dispatches (runs.map (·.attempt b.state.results)) := gathers.mpr (by simpa using quiet)
    rw [further.history,history,dispatches_append,dispatches_append]
    exact ⟨fun _ => .inr sent,fun _ => .inl (.inr sent)⟩

/-- A turn of the loop dispatches a node exactly if its level does. -/
theorem levelStep_dispatches (wf : Workflow) (eng : Engine σ) (limit : Nat) (b : LevelStart σ) :
    Dispatches (wf.levelStep eng limit b).state.history ↔
    Dispatches b.state.history ∨ Dispatching wf eng limit b := by
  have asked (u : RunState σ) : (wf.goOn u).state = u := by
    rcases goOn_cases wf u with next | stop
    · rw [next]; rfl
    · rw [stop]; rfl
  rcases runLevel_phases wf eng limit b with ⟨text,cut,ended⟩ | ⟨shallow,⟨hangs,s,same,ended⟩ |
    ⟨returns,⟨none,e,s,same,ended⟩ | ⟨levelResults,gathered,flowed,phases,ended⟩⟩⟩
  · simp [levelStep,ended,Flow.state,Dispatching,cut]
  · simp [levelStep,ended,Flow.state,Dispatching,hangs,same]
  · simp [levelStep,ended,Flow.state,levelPhases_none none,same]
  · rw [← levelPhases_dispatches shallow returns phases]
    simp only [levelStep,ended,bookLevel]
    rcases bookEntries_cases wf levelResults.items flowed with ⟨u,did,books,_⟩ |
      ⟨u,text,booked,did,_,books,_⟩ | ⟨e,u,did,history,_⟩
    · simp only [did,asked,books.history]
    · simp only [did,asked,books.history]
    · simp only [did,Flow.state,history]

/-! ### A whole run -/

/-- How a run ends before its last level is how one of its level starts ends. -/
theorem runLevels_ends (wf : Workflow) (eng : Engine σ) (limit : Nat)
    (P : Flow σ → Prop) (goes : ∀ t, ¬P (.next t)) (levels : List (List String))
    (index : Nat) (s : RunState σ) :
    P (wf.runLevels eng limit index levels s) ↔
      ∃ start ∈ wf.levelStarts eng limit index levels s, P (wf.levelStep eng limit start.1) := by
  induction levels generalizing index s with
  | nil => simp [runLevels,levelStarts,goes]
  | cons ids rest ih =>
    simp only [runLevels,levelStarts,List.exists_mem_cons_iff]
    cases went : wf.levelStep eng limit ⟨index,ids,s⟩ with
    | next t => simpa only [goes,false_or] using ih (index + 1) t
    | stop t => simp
    | raised e t => simp
    | stalled t => simp

theorem runLevels_dispatches_iff (wf : Workflow) (eng : Engine σ) (limit : Nat)
    (levels : List (List String)) (index : Nat) (s : RunState σ) :
    Dispatches (wf.runLevels eng limit index levels s).state.history ↔
      Dispatches s.history ∨ ∃ start ∈ wf.levelStarts eng limit index levels s, Dispatching wf eng limit start.1 := by
  induction levels generalizing index s with
  | nil => simp [runLevels,levelStarts,Flow.state]
  | cons ids rest ih =>
    have turn := levelStep_dispatches wf eng limit ⟨index,ids,s⟩
    simp only [runLevels,levelStarts,List.exists_mem_cons_iff,← or_assoc,← turn]
    cases went : wf.levelStep eng limit ⟨index,ids,s⟩ with
    | next t => exact ih (index + 1) t
    | stop t => simp
    | raised e t => simp
    | stalled t => simp

theorem runLevels_untroubled_iff (wf : Workflow) (eng : Engine σ) (limit : Nat)
    (levels : List (List String)) (index : Nat) (s : RunState σ) :
    (∃ t, wf.runLevels eng limit index levels s = .next t ∧ t.errors = []) ↔
      s.errors = [] ∧ ∀ start ∈ wf.levelStarts eng limit index levels s, Untroubled wf eng limit start.1 := by
  induction levels generalizing index s with
  | nil => simp [runLevels,levelStarts]
  | cons ids rest ih =>
    have turn := levelStep_untroubled_iff wf eng limit ⟨index,ids,s⟩
    simp only [runLevels,levelStarts,List.forall_mem_cons,← and_assoc,← turn]
    cases went : wf.levelStep eng limit ⟨index,ids,s⟩ with
    | next t => simpa using ih (index + 1) t
    | stop t => simp
    | raised e t => simp
    | stalled t => simp

/-- A run dispatches a node exactly if one of its levels does. -/
theorem runAll_dispatches_iff (wf : Workflow) (eng : Engine σ) (limit : Nat) (world : σ) :
    Dispatches (wf.runAll eng limit world).state.history ↔
      ∃ start ∈ wf.starts eng limit world, Dispatching wf eng limit start.1 := by
  have fresh : ¬Dispatches (initialState world).history := by simp [initialState,Dispatches]
  have sent := runLevels_dispatches_iff wf eng limit wf.levels 1 (initialState world)
  rwa [or_iff_right fresh] at sent

/-- An exception comes out of `execute` exactly if one gets out of a level or there is no last node. -/
theorem execute_raised_iff (wf : Workflow) (eng : Engine σ) (limit : Nat) (world : σ) :
    (∃ e, wf.execute eng limit world = .raised e) ↔ Breaks wf eng limit world := by
  have raised := runLevels_ends wf eng limit
    (fun flow => ∃ e t, flow = .raised e t) (by simp) wf.levels 1 (initialState world)
  have stalled := runLevels_ends wf eng limit
    (fun flow => ∃ t, flow = .stalled t) (by simp) wf.levels 1 (initialState world)
  simp only [levelStep_raised_iff] at raised
  simp only [levelStep_stalled_iff] at stalled
  simp only [Breaks,starts,← raised,← stalled,execute,runAll]
  cases wf.runLevels eng limit 1 wf.levels (initialState world) with
  | next t => cases leaves : wf.graph.getLeafNodes <;> simp [finish,leaves]
  | stop t => cases leaves : wf.graph.getLeafNodes <;> simp [finish,leaves]
  | raised e t => simp
  | stalled t => simp

theorem execute_stalled_iff (wf : Workflow) (eng : Engine σ) (limit : Nat) (world : σ) :
    wf.execute eng limit world = .stalled ↔ ∃ start ∈ wf.starts eng limit world, Hangs wf eng limit start.1 := by
  have stalled := runLevels_ends wf eng limit
    (fun flow => ∃ t, flow = .stalled t) (by simp) wf.levels 1 (initialState world)
  simp only [levelStep_stalled_iff] at stalled
  simp only [starts,← stalled,execute,runAll]
  cases wf.runLevels eng limit 1 wf.levels (initialState world) with
  | next t => cases leaves : wf.graph.getLeafNodes <;> simp [finish,leaves]
  | stop t => cases leaves : wf.graph.getLeafNodes <;> simp [finish,leaves]
  | raised e t => simp
  | stalled t => simp

/-- A run is a success exactly if there is a last node and all its levels are untroubled. -/
theorem execute_success_iff (wf : Workflow) (eng : Engine σ) (limit : Nat) (world : σ) :
    (∃ result, wf.execute eng limit world = .returned result ∧ result.success = true) ↔
      wf.graph.getLeafNodes ≠ [] ∧ ∀ start ∈ wf.starts eng limit world, Untroubled wf eng limit start.1 := by
  have calm := runLevels_untroubled_iff wf eng limit wf.levels 1 (initialState world)
  have noted : ∀ t, wf.runLevels eng limit 1 wf.levels (initialState world) = .stop t → t.errors ≠ [] := by
    intro t stop clear
    obtain ⟨start,_,u,went,clear⟩ := (runLevels_ends wf eng limit
      (fun flow => ∃ t, flow = .stop t ∧ t.errors = []) (by simp) wf.levels 1 (initialState world)).mp
        ⟨t,stop,clear⟩
    exact levelStep_stop went clear
  have fresh : (initialState world).errors = [] := rfl
  simp only [fresh,true_and] at calm
  simp only [starts,← calm,execute,runAll]
  cases went : wf.runLevels eng limit 1 wf.levels (initialState world) with
  | next t => cases leaves : wf.graph.getLeafNodes <;> simp [finish,leaves,finalResult]
  | stop t =>
    have some := noted t went
    cases leaves : wf.graph.getLeafNodes <;> simp [finish,leaves,finalResult,some]
  | raised e t => simp
  | stalled t => simp

end

end IceOS
