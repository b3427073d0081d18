import IceOS.WorkflowRuns

/-! What becomes of a run whose token limit is hit. The abort only leaves the loop over the
results of the current level: results behind it are lost, and whether the later levels run
is up to the failure policy. -/
namespace IceOS

open Workflow

section

variable {σ : Type}

/-- The limit is hit exactly by a successful result whose tokens are counted and refused. -/
theorem bookEntry_aborted_iff (wf : Workflow) (s : RunState σ) (entry : String × NodeExecutionResult) :
    (∃ t, wf.bookEntry s entry = .aborted t) ↔
      ∃ tokens, metered entry.2 = some tokens ∧ (wf.tokenStop (s.totalTokens + tokens)).isSome = true := by
  simp only [bookEntry]
  cases metered entry.2 with
  | none => simp [bookOutcome_ne_aborted]
  | some tokens =>
    simp only [Option.some.injEq,exists_eq_left']
    cases stop : wf.tokenStop ((s.record entry.1 entry.2).totalTokens + tokens) with
    | none =>
      have same : wf.tokenStop (s.totalTokens + tokens) = none := stop
      simp [bookOutcome_ne_aborted,same]
    | some text =>
      have same : wf.tokenStop (s.totalTokens + tokens) = some text := stop
      simp [same]

/-- After the abort that left the state `t`, no further node was run, and every result of the
level is in the output. -/
structure AbortHeeded (wf : Workflow) (eng : Engine σ) (limit : Nat) (world : σ) (b : LevelStart σ)
    (t : RunState σ) : Prop where
  quiet : (wf.runAll eng limit world).state.history = t.history
  present : ∃ result entries, wf.execute eng limit world = .returned result ∧
    result.output = .dict entries ∧
      ∀ levelResults gathered flowed, wf.levelPhases eng limit b = some (levelResults,gathered,flowed) →
        ∀ entry ∈ levelResults.items, entries.lookup entry.1 = some (serialize entry.2)

/-- In every run, once a level is aborted over its tokens. -/
def HeedsAborts (wf : Workflow) (eng : Engine σ) (limit : Nat) (world : σ) : Prop :=
  ∀ start ∈ wf.starts eng limit world, ∀ t, wf.runLevel eng limit start.1 = .aborted t →
    AbortHeeded wf eng limit world start.1 t

/-- The abort comes with the last result of its level, and something keeps the run from going on:
no level is left, the policy halts, every node is touched by failures, or the next level is
too deep. -/
structure AbortEndsRun (wf : Workflow) (eng : Engine σ) (limit : Nat)
    (start : LevelStart σ × List (List String)) (t : RunState σ) : Prop where
  last : wf.droppedAt eng limit start.1 = []
  ends : start.2 = [] ∨ wf.failurePolicy = .halt ∨
    (wf.failurePolicy = .continuePossible ∧ AllTouched wf t.errors) ∨
      (wf.depthStop (start.1.index + 1)).isSome = true

/-- Under the condition the level loop ends with the results and the history of the abort. -/
theorem runLevels_aborted (wf : Workflow) (eng : Engine σ) (limit : Nat) (b : LevelStart σ)
    (rest : List (List String)) (t : RunState σ) (errors : t.errors ≠ [])
    (aborted : wf.runLevel eng limit b = .aborted t) (ends : AbortEndsRun wf eng limit (b,rest) t)
    (levels : List (List String)) (index : Nat) (s : RunState σ)
    (reached : (b,rest) ∈ wf.levelStarts eng limit index levels s) :
    ∃ u, (wf.runLevels eng limit index levels s = .next u ∨ wf.runLevels eng limit index levels s = .stop u) ∧
      u.results = t.results ∧ u.history = t.history := by
  induction levels generalizing index s with
  | nil => simp [levelStarts] at reached
  | cons ids later ih =>
    simp only [levelStarts,List.mem_cons,Prod.mk.injEq] at reached
    rcases reached with ⟨rfl,rfl⟩ | further
    · have step : wf.levelStep eng limit ⟨index,ids,s⟩ = wf.goOn t := by simp only [levelStep,aborted]
      simp only [runLevels,step]
      by_cases stops : wf.goOn t = .stop t
      · exact ⟨t,.inr (by rw [stops]),rfl,rfl⟩
      have goes : wf.goOn t = .next t := (goOn_cases wf t).resolve_right stops
      rw [goes]
      rcases ends.ends with none | halts | ⟨possible,touched⟩ | deep
      · exact ⟨t,by simp only at none; simp [none,runLevels],rfl,rfl⟩
      · refine absurd ?_ stops
        simp [goOn,errors,halts,shouldContinue]
      · refine absurd ?_ stops
        simp [goOn,errors,possible,(shouldContinue_touched wf errors).mpr touched]
      · obtain ⟨text,deep⟩ := Option.isSome_iff_exists.mp deep
        cases rest with
        | nil => exact ⟨t,by simp [runLevels],rfl,rfl⟩
        | cons next more =>
          exact ⟨t.addError text,by simp only at deep; simp [runLevels,levelStep,runLevel,deep],rfl,rfl⟩
    · simp only [runLevels]
      cases went : wf.levelStep eng limit ⟨index,ids,s⟩ with
      | next u =>
        rw [went] at further
        exact ih (index + 1) u further
      | stop u => simp [went] at further
      | raised e u => simp [went] at further
      | stalled u => simp [went] at further

/-- An aborted level has run its phases and booked all but the dropped results. -/
theorem runLevel_aborted {wf : Workflow} {eng : Engine σ} {limit : Nat} {b : LevelStart σ} {t : RunState σ}
    (aborted : wf.runLevel eng limit b = .aborted t) :
    t.errors ≠ [] ∧ ∃ levelResults gathered flowed,
      wf.levelPhases eng limit b = some (levelResults,gathered,flowed) ∧
        ∃ booked, levelResults.items = booked ++ wf.droppedAt eng limit b ∧
          t.results = flowed.results.update booked := by
  simp only [runLevel] at aborted
  cases depth : wf.depthStop b.index with
  | some text => simp [depth] at aborted
  | none =>
    simp only [depth] at aborted
    cases active : activeIds wf.graph limit b.ids b.state.activeCache with
    | none => simp [active] at aborted
    | some found =>
      obtain ⟨ids,cache⟩ := found
      simp only [active] at aborted
      split at aborted
      · simp at aborted
      · simp only [executeLevel] at aborted
        cases gathered : gather eng (ids.filterMap wf.nodes.get?) { b.state with activeCache := cache } with
        | mk outcomes g =>
          simp only [gathered] at aborted
          cases did : wf.handleRecursiveFlows eng limit (OrderedDict.ofList (outcomes.map fileOutcome)) g with
          | error e => simp [did,Except.map] at aborted
          | ok flowed =>
            simp only [did,Except.map] at aborted
            have phases : wf.levelPhases eng limit b =
                some (OrderedDict.ofList (outcomes.map fileOutcome),g,flowed) := by
              simp [levelPhases,active,gathered,did,Except.toOption]
            rcases bookEntries_cases wf (OrderedDict.ofList (outcomes.map fileOutcome)).items flowed with
              ⟨u,booked,_,_,_⟩ | ⟨u,text,booked,ended,_,books,parts,_⟩ | ⟨e,u,raised,_⟩
            · simp [bookLevel,booked] at aborted
            · simp only [bookLevel,ended,LevelEnd.aborted.injEq] at aborted
              subst u
              refine ⟨by simp [books.errors],_,g,flowed,phases,booked,?_,books.results⟩
              simpa [droppedAt,phases] using parts
            · simp [bookLevel,raised] at aborted

/-- A token abort is heeded in every run in which it comes last in its level and the run has
no reason to go on. -/
theorem aborts_heeded (wf : Workflow) (eng : Engine σ) (limit : Nat) (world : σ)
    (leaves : wf.graph.getLeafNodes ≠ [])
    (ends : ∀ start ∈ wf.starts eng limit world, ∀ t, wf.runLevel eng limit start.1 = .aborted t →
      AbortEndsRun wf eng limit start t) : HeedsAborts wf eng limit world := by
  rintro ⟨b,rest⟩ reached t aborted
  have condition := ends (b,rest) reached t aborted
  obtain ⟨errors,levelResults,gathered,flowed,phases,booked,parts,results⟩ := runLevel_aborted aborted
  obtain ⟨u,ended,results',history⟩ := runLevels_aborted wf eng limit b rest t errors aborted condition
    wf.levels 1 (initialState world) reached
  obtain ⟨leaf,more,leafs⟩ := List.exists_cons_of_ne_nil leaves
  have executed : wf.execute eng limit world = .returned (finalResult u) ∧
      (wf.runAll eng limit world).state = u := by
    rcases ended with next | stop
    · simp [execute,runAll,next,finish,leafs,Flow.state]
    · simp [execute,runAll,stop,finish,leafs,Flow.state]
  refine ⟨by rw [executed.2,history],finalResult u,_,executed.1,rfl,?_⟩
  intro levelResults' gathered' flowed' phases' entry member
  rw [phases] at phases'
  cases phases'
  rw [condition.last,List.append_nil] at parts
  rw [← parts] at results
  have found : u.results.get? entry.1 = some entry.2 := by
    have own := (levelResults.get?_eq_some entry.1 entry.2).mpr member
    rw [results',results,OrderedDict.get?_update_items,own]
    rfl
  exact finalEntries_lookup u found

end

/-- Every node succeeds, and the node `draft` reports ten tokens. -/
def tokenEngine : Engine Unit where
  executeNode node _ w :=
    (.ok { output := .str "ok",usage := if node.id = "draft" then some { totalTokens := 10 } else none },w)
  currentContext _ := none
  stalls _ _ := false

def draftNode : NodeConfig := { id := "draft",type := .llm }
def auditNode : NodeConfig := { id := "audit",type := .tool }
def publishNode : NodeConfig := { id := "publish",type := .tool,dependencies := ["audit"] }

/-- A halting run in which the drafting node comes last in its level. -/
def draftLast : Workflow :=
  .ofNodes { tokenCeiling := some 5,failurePolicy := .halt } [auditNode,draftNode,publishNode]
    (by decide +kernel)

theorem draftLast_heeds : HeedsAborts draftLast tokenEngine 3 () := by
  have kept : ∀ start ∈ draftLast.starts tokenEngine 3 (),
      (draftLast.droppedAt tokenEngine 3 start.1).isEmpty = true := by decide +kernel
  exact aborts_heeded draftLast tokenEngine 3 () (by decide +kernel) fun start member t _ =>
    ⟨List.isEmpty_iff.mp (kept start member),.inr (.inl (by decide +kernel))⟩

/-- The same nodes with the drafting node first, under the default policy. -/
def draftFirst : Workflow :=
  .ofNodes { tokenCeiling := some 5 } [draftNode,auditNode,publishNode] (by decide +kernel)

def draftStart : LevelStart Unit := ⟨1,["draft","audit"],initialState ()⟩

/-- The abort loses the result of `audit`, and the run goes on to `publish`. -/
theorem draftFirst_goes_on :
    ¬∀ (wf : Workflow) (eng : Engine Unit) (limit : Nat), wf.graph.getLeafNodes ≠ [] →
      HeedsAborts wf eng limit () := by
  intro claim
  have levels : draftFirst.levels = [["draft","audit"],["publish"]] := by decide +kernel
  have started : (draftStart,[["publish"]]) ∈ draftFirst.starts tokenEngine 3 () := by
    simp only [starts,levels,levelStarts,draftStart]
    exact List.mem_cons_self
  have attempts : (draftFirst.runLevel tokenEngine 3 draftStart).aborted?.map (·.history.length) = some 2 := by
    decide +kernel
  cases ended : draftFirst.runLevel tokenEngine 3 draftStart with
  | aborted t =>
    have quiet := (claim draftFirst tokenEngine 3 (by decide +kernel) _ started t ended).quiet
    have all : (draftFirst.runAll tokenEngine 3 ()).state.history.length = 3 := by decide +kernel
    simp only [ended,LevelEnd.aborted?,Option.map_some,Option.some.injEq] at attempts
    rw [quiet,attempts] at all
    contradiction
  | booked t => simp [ended,LevelEnd.aborted?] at attempts
  | tooDeep t => simp [ended,LevelEnd.aborted?] at attempts
  | raised e t => simp [ended,LevelEnd.aborted?] at attempts
  | stalled t => simp [ended,LevelEnd.aborted?] at attempts

/-- Both parts fail in that run: `audit` was run and is not in the output. -/
example : (match draftFirst.execute tokenEngine 3 () with
    | .returned r => r.output.entries.map Prod.fst | _ => []) = ["draft","publish"] := by decide +kernel

end IceOS
