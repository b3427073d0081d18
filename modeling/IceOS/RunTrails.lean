import IceOS.ExceptRules
import IceOS.RunOutcomes
import Mathlib.Algebra.Ring.Int.Defs

/-! What a run adds to the history and does to the world, told from its calls of `execute_node`; and what of a level's
results and tokens is booked. -/
namespace IceOS

namespace Workflow

variable {σ : Type}

/-- The state in which the bookkeeping ends. -/
def Booked.state : Booked σ → RunState σ
  | .next s | .aborted s | .raised _ s => s

end Workflow

def RunState.past (s : RunState σ) : List Attempt × σ := (s.history,s.world)

def RunState.trail (s : RunState σ) : List Attempt × σ × Nat := (s.history,s.world,s.totalTokens)

@[simp] theorem RunState.record_trail (s : RunState σ) (id : String) (r : NodeExecutionResult) :
    (s.record id r).trail = s.trail := rfl
@[simp] theorem RunState.addError_trail (s : RunState σ) (text : String) : (s.addError text).trail = s.trail := rfl
@[simp] theorem RunState.log_trail (s : RunState σ) (id : String) (ending : Ending) :
    (s.log id ending).trail = (s.history ++ [⟨id,s.results,ending⟩],s.world,s.totalTokens) := rfl

namespace Workflow

/-- A relation that composes, and that every call of the engine and every attempt without one respects. -/
structure Respected (eng : Engine σ) (R : List Attempt × σ × Nat → List Attempt × σ × Nat → Prop) : Prop where
  refl : ∀ x, R x x
  trans : ∀ {x y z}, R x y → R y z → R x z
  calls : ∀ history world tokens seen node ctx,
    R (history,world,tokens) (history ++ [⟨node.id,seen,endingOf (eng.executeNode node ctx world).1⟩],
      (eng.executeNode node ctx world).2,tokens)
  misses : ∀ history world tokens id seen ending, ending ≠ .succeeded →
    R (history,world,tokens) (history ++ [⟨id,seen,ending⟩],world,tokens)

/-- The phases of a level, if it is run to its end. -/
def phasesRun (wf : Workflow) (eng : Engine σ) (limit : Nat) (b : LevelStart σ) :
    Option (Results × RunState σ × RunState σ) :=
  if (wf.depthStop b.index).isSome then none
  else (activeIds wf.graph limit b.ids b.state.activeCache).bind fun (active,_) =>
    if eng.stalls (active.filterMap wf.nodes.get?) b.state.world then none else wf.levelPhases eng limit b

/-- The failures of a level that leave no error: those of its recursive flows, and those of its nodes where
each was filed under a key under which a success was filed after it. -/
def overlooked (wf : Workflow) (eng : Engine σ) (limit : Nat) (b : LevelStart σ) : List String :=
  match wf.phasesRun eng limit b with
  | none => []
  | some (levelResults,gathered,flowed) =>
    let attempts := gathered.history.drop b.state.history.length
    let flows := flowed.history.drop gathered.history.length
    let hidden := if levelResults.items.all (·.2.success) then attempts else []
    ((hidden ++ flows).filter (·.ending ≠ .succeeded)).map (·.id)

/-- The tokens of a batch of results. -/
def meteredSum (entries : List (String × NodeExecutionResult)) : Nat :=
  (entries.map fun entry => (metered entry.2).getD 0).sum

section

variable {wf : Workflow} {eng : Engine σ} {limit : Nat} {R : List Attempt × σ × Nat → List Attempt × σ × Nat → Prop}

theorem processNode_respects (respected : Respected eng R) (node : NodeConfig) (extra : List (String × Value))
    (s : RunState σ) : R s.trail (processNode eng node extra s).2.trail := by
  simp only [processNode]
  cases buildNodeContext (eng.currentContext s.world) node s.results with
  | error e => exact respected.misses s.history s.world s.totalTokens node.id s.results .unbuilt (by decide)
  | ok base => exact respected.calls s.history s.world s.totalTokens s.results node (base.update extra)

theorem gather_respects (respected : Respected eng R) (nodes : List NodeConfig) (s : RunState σ) :
    R s.trail (gather eng nodes s).2.trail := by
  induction nodes generalizing s with
  | nil => exact respected.refl s.trail
  | cons node rest ih => exact respected.trans (processNode_respects respected node [] s) (ih _)

theorem foldlM_respects (respected : Respected eng R) {α : Type} {step : RunState σ → α → Except Exn (RunState σ)}
    (one : ∀ (s t : RunState σ) a, step s a = .ok t → R s.trail t.trail) (todo : List α) {s t : RunState σ}
    (ran : todo.foldlM step s = .ok t) : R s.trail t.trail := by
  induction todo generalizing s with
  | nil =>
    cases ran
    exact respected.refl _
  | cons a rest ih =>
    rw [List.foldlM_cons] at ran
    obtain ⟨u,first,ran⟩ := ExceptRules.bind_eq_ok.mp ran
    exact respected.trans (one s u a first) (ih ran)

theorem executeRecursiveNode_respects (respected : Respected eng R) (wf : Workflow) (limit : Nat) (s t : RunState σ)
    (request : String × List (String × Value)) (ran : wf.executeRecursiveNode eng limit s request = .ok t) :
    R s.trail t.trail := by
  induction limit generalizing s t request with
  | zero => cases ran
  | succ limit ih =>
    obtain ⟨id,extra⟩ := request
    simp only [executeRecursiveNode] at ran
    split at ran
    · cases ran
      exact respected.misses s.history s.world s.totalTokens id s.results .unbuilt (by decide)
    · next node _ =>
      have called := processNode_respects respected node extra s
      split at ran
      · next went =>
        rw [went] at called
        cases ran
        exact called
      · next result u went =>
        rw [went] at called
        split at ran
        · next flowed =>
          cases ran
          have further := foldlM_respects respected ih _ flowed
          exact respected.trans called further
        · cases ran
          exact respected.trans called (respected.misses u.history u.world u.totalTokens id _ .escaped (by decide))

theorem handleRecursiveFlows_respects (respected : Respected eng R) {levelResults : Results} {s t : RunState σ}
    (went : wf.handleRecursiveFlows eng limit levelResults s = .ok t) : R s.trail t.trail :=
  foldlM_respects respected (executeRecursiveNode_respects respected wf limit) _ went

theorem levelPhases_respects (respected : Respected eng R) {b : LevelStart σ} {levelResults : Results}
    {gathered flowed : RunState σ} (phases : wf.levelPhases eng limit b = some (levelResults,gathered,flowed)) :
    R b.state.trail gathered.trail ∧ R gathered.trail flowed.trail := by
  obtain ⟨ids,cache,_,rfl,_,went⟩ := levelPhases_eq_some phases
  have gathers := gather_respects respected (ids.filterMap wf.nodes.get?) { b.state with activeCache := cache }
  exact ⟨gathers,handleRecursiveFlows_respects respected went⟩

end

/-! ### Bookkeeping -/

theorem bookOutcome_trail (wf : Workflow) (id : String) (result : NodeExecutionResult) (s : RunState σ) :
    (wf.bookOutcome id result s).state.trail = s.trail := by
  simp only [bookOutcome]
  cases wf.nodes.get? id with
  | none => rfl
  | some node =>
    have decided : (recordDecision node id result.output s).trail = s.trail := by
      simp only [recordDecision]
      split
      · rfl
      · rfl
    cases result.success with
    | true => exact decided
    | false => exact decided

/-- The tokens of a result are counted before anything is decided about it. -/
theorem bookEntry_counts (wf : Workflow) (s : RunState σ) (entry : String × NodeExecutionResult) :
    (wf.bookEntry s entry).state.past = s.past ∧
      (wf.bookEntry s entry).state.totalTokens = s.totalTokens + (metered entry.2).getD 0 := by
  have outcome {t : RunState σ} {tokens : Nat} (same : t.trail = (s.history,s.world,tokens)) :
      (wf.bookOutcome entry.1 entry.2 t).state.past = s.past ∧
        (wf.bookOutcome entry.1 entry.2 t).state.totalTokens = tokens := by
    obtain ⟨history,rest⟩ := Prod.mk.inj ((bookOutcome_trail wf entry.1 entry.2 t).trans same)
    obtain ⟨world,total⟩ := Prod.mk.inj rest
    exact ⟨Prod.ext history world,total⟩
  simp only [bookEntry]
  cases metered entry.2 with
  | none => exact outcome rfl
  | some tokens =>
    simp only
    cases wf.tokenStop ((s.record entry.1 entry.2).totalTokens + tokens) with
    | some text => exact ⟨rfl,rfl⟩
    | none => exact outcome rfl

/-- The tokens of the results that are booked are counted, and nothing else. -/
theorem bookEntries_counts (wf : Workflow) (entries : List (String × NodeExecutionResult)) (s : RunState σ) :
    (wf.bookEntries entries s).state.past = s.past ∧
      (wf.bookEntries entries s).state.totalTokens + meteredSum (wf.dropped entries s) =
        s.totalTokens + meteredSum entries := by
  induction entries generalizing s with
  | nil => exact ⟨rfl,rfl⟩
  | cons entry rest ih =>
    obtain ⟨past,tokens⟩ := bookEntry_counts wf s entry
    simp only [bookEntries,dropped]
    cases booked : wf.bookEntry s entry with
    | next t =>
      rw [booked] at past tokens
      obtain ⟨past',tokens'⟩ := ih t
      simp only [Booked.state] at past tokens
      refine ⟨past'.trans past,?_⟩
      simp only [meteredSum,List.map_cons,List.sum_cons] at tokens' ⊢
      omega
    | aborted t =>
      rw [booked] at past tokens
      refine ⟨past,?_⟩
      simp only [Booked.state,meteredSum,List.map_cons,List.sum_cons] at tokens ⊢
      omega
    | raised e t =>
      rw [booked] at past tokens
      refine ⟨past,?_⟩
      simp only [Booked.state,meteredSum,List.map_cons,List.sum_cons] at tokens ⊢
      omega

/-! ### Levels and runs -/

theorem goOn_state (wf : Workflow) (s : RunState σ) : (wf.goOn s).state = s := by
  rcases goOn_cases wf s with next | stop
  · rw [next]; rfl
  · rw [stop]; rfl

/-- A turn of the loop leaves everything as it was, or ends with the bookkeeping of its level. -/
theorem levelStep_phasesRun (wf : Workflow) (eng : Engine σ) (limit : Nat) (b : LevelStart σ) :
    (wf.phasesRun eng limit b = none ∧ (wf.levelStep eng limit b).state.trail = b.state.trail ∧
        ¬Untroubled wf eng limit b) ∨
      ∃ levelResults gathered flowed, wf.phasesRun eng limit b = some (levelResults,gathered,flowed) ∧
        wf.levelPhases eng limit b = some (levelResults,gathered,flowed) ∧
        (wf.levelStep eng limit b).state = (wf.bookEntries levelResults.items flowed).state := by
  simp only [phasesRun,levelStep,runLevel]
  cases depth : wf.depthStop b.index with
  | some text =>
    refine .inl ⟨if_pos rfl,rfl,fun calm => ?_⟩
    have shallow := calm.shallow
    rw [depth] at shallow
    contradiction
  | none =>
    simp only [Option.isSome_none,Bool.false_eq_true,if_false]
    cases active : activeIds wf.graph limit b.ids b.state.activeCache with
    | none =>
      refine .inl ⟨rfl,rfl,fun calm => ?_⟩
      obtain ⟨_,_,_,phases,_⟩ := calm.succeeded
      simp [levelPhases,active] at phases
    | some found =>
      obtain ⟨ids,cache⟩ := found
      cases stalls : eng.stalls (ids.filterMap wf.nodes.get?) b.state.world with
      | true =>
        simp only [Option.bind_some,stalls,if_true]
        exact .inl ⟨trivial,rfl,fun calm => calm.returns ⟨depth,ids,cache,active,stalls⟩⟩
      | false =>
        simp only [Option.bind_some,stalls,Bool.false_eq_true,if_false,levelPhases,active,executeLevel]
        cases went : wf.handleRecursiveFlows eng limit
            (OrderedDict.ofList ((gather eng (ids.filterMap wf.nodes.get?)
              { b.state with activeCache := cache }).1.map fileOutcome))
            (gather eng (ids.filterMap wf.nodes.get?) { b.state with activeCache := cache }).2 with
        | error e =>
          refine .inl ⟨rfl,rfl,fun calm => ?_⟩
          obtain ⟨_,_,_,phases,_⟩ := calm.succeeded
          simp [levelPhases,active,went,Except.toOption] at phases
        | ok flowed =>
          refine .inr ⟨_,_,flowed,rfl,rfl,?_⟩
          simp only [Except.map,bookLevel]
          cases wf.bookEntries _ flowed with
          | next t => exact goOn_state wf t
          | aborted t => exact goOn_state wf t
          | raised e t => rfl

section

variable {wf : Workflow} {eng : Engine σ} {limit : Nat} {R : List Attempt × σ × Nat → List Attempt × σ × Nat → Prop}

theorem levelStep_respects (wf : Workflow) (limit : Nat) (respected : Respected eng R)
    (counts : ∀ history world before after, R (history,world,before) (history,world,after)) (b : LevelStart σ) :
    R b.state.trail (wf.levelStep eng limit b).state.trail := by
  rcases levelStep_phasesRun wf eng limit b with ⟨_,same,_⟩ | ⟨levelResults,gathered,flowed,_,phases,ended⟩
  · rw [same]
    exact respected.refl _
  · obtain ⟨first,second⟩ := levelPhases_respects respected phases
    obtain ⟨history,world⟩ := Prod.mk.inj (bookEntries_counts wf levelResults.items flowed).1
    have booked := counts flowed.history flowed.world flowed.totalTokens
      (wf.bookEntries levelResults.items flowed).state.totalTokens
    rw [ended]
    simp only [RunState.trail,history,world] at first second ⊢
    exact respected.trans first (respected.trans second booked)

/-- What every turn of the loop respects, the whole run respects, and every level start on the way. -/
theorem runLevels_respects (respected : Respected eng R)
    (counts : ∀ history world before after, R (history,world,before) (history,world,after))
    (levels : List (List String)) (index : Nat) (s : RunState σ) :
    R s.trail (wf.runLevels eng limit index levels s).state.trail ∧
      ∀ start ∈ wf.levelStarts eng limit index levels s,
        R s.trail start.1.state.trail ∧
          R (wf.levelStep eng limit start.1).state.trail (wf.runLevels eng limit index levels s).state.trail := by
  induction levels generalizing index s with
  | nil => exact ⟨respected.refl _,by simp [levelStarts]⟩
  | cons ids rest ih =>
    have turn := levelStep_respects wf limit respected counts ⟨index,ids,s⟩
    simp only [runLevels,levelStarts]
    cases went : wf.levelStep eng limit ⟨index,ids,s⟩ with
    | next t =>
      rw [went] at turn
      obtain ⟨later,starts⟩ := ih (index + 1) t
      refine ⟨respected.trans turn later,List.forall_mem_cons.mpr ⟨⟨respected.refl _,?_⟩,fun start member => ?_⟩⟩
      · rw [went]
        exact later
      · exact ⟨respected.trans turn (starts start member).1,(starts start member).2⟩
    | stop t =>
      rw [went] at turn
      exact ⟨turn,by simpa [went] using ⟨respected.refl _,respected.refl _⟩⟩
    | raised e t =>
      rw [went] at turn
      exact ⟨turn,by simpa [went] using ⟨respected.refl _,respected.refl _⟩⟩
    | stalled t =>
      rw [went] at turn
      exact ⟨turn,by simpa [went] using ⟨respected.refl _,respected.refl _⟩⟩

theorem runAll_respects (wf : Workflow) (limit : Nat) (respected : Respected eng R)
    (counts : ∀ history world before after, R (history,world,before) (history,world,after)) (world : σ) :
    R ([],world,0) (wf.runAll eng limit world).state.trail :=
  (runLevels_respects respected counts wf.levels 1 (initialState world)).1

theorem prefix_respected (eng : Engine σ) : Respected eng fun x y => x.1 <+: y.1 where
  refl _ := List.prefix_rfl
  trans := List.IsPrefix.trans
  calls _ _ _ _ _ _ := List.prefix_append _ _
  misses _ _ _ _ _ _ _ := List.prefix_append _ _

theorem overlooked_eq_nil {b : LevelStart σ} {levelResults : Results} {gathered flowed : RunState σ}
    (phases : wf.phasesRun eng limit b = some (levelResults,gathered,flowed)) :
    wf.overlooked eng limit b = [] ↔
      ((∀ entry ∈ levelResults.items, entry.2.success = true) →
        ∀ a ∈ gathered.history.drop b.state.history.length, a.ending = .succeeded) ∧
      ∀ a ∈ flowed.history.drop gathered.history.length, a.ending = .succeeded := by
  simp only [overlooked,phases,List.map_eq_nil_iff,List.filter_eq_nil_iff,decide_eq_true_eq,not_not,
    List.forall_mem_append]
  refine and_congr_left fun _ => ?_
  cases fine : levelResults.items.all (·.2.success) with
  | true =>
    have all : ∀ entry ∈ levelResults.items, entry.2.success = true := by simpa using fine
    simp only [if_true]
    exact ⟨fun succeeded _ => succeeded,fun succeeded => succeeded all⟩
  | false =>
    have some : ¬∀ entry ∈ levelResults.items, entry.2.success = true := by simpa using fine
    simp only [Bool.false_eq_true,if_false,List.not_mem_nil,false_imp_iff,imp_true_iff,some]

/-- In a run without trouble in which no failure is overlooked every attempt succeeded. -/
theorem runAll_succeeded (world : σ)
    (calm : ∀ start ∈ wf.starts eng limit world, Untroubled wf eng limit start.1)
    (seen : ∀ start ∈ wf.starts eng limit world, wf.overlooked eng limit start.1 = []) :
    ∀ a ∈ (wf.runAll eng limit world).state.history, a.ending = .succeeded := by
  refine (runLevels_rule (fun start => Untroubled wf eng limit start.1 ∧ wf.overlooked eng limit start.1 = [])
    (fun _ _ s => ∀ a ∈ s.history, a.ending = .succeeded) (fun flow => ∀ a ∈ flow.state.history, a.ending = .succeeded)
    (fun _ _ inv => inv) ?_ wf.levels 1 (initialState world) nofun
    fun start member => ⟨calm start member,seen start member⟩).1
  intro b rest ⟨calm,seen⟩ before
  have after : ∀ a ∈ (wf.levelStep eng limit b).state.history, a.ending = .succeeded := by
    rcases levelStep_phasesRun wf eng limit b with ⟨_,_,troubled⟩ | ⟨levelResults,gathered,flowed,ran,phases,ended⟩
    · exact absurd calm troubled
    · obtain ⟨_,_,_,same,successes,_⟩ := calm.succeeded
      cases phases.symm.trans same
      obtain ⟨own,flows⟩ := (overlooked_eq_nil ran).mp seen
      obtain ⟨first,second⟩ := levelPhases_respects (prefix_respected eng) phases
      have history : (wf.levelStep eng limit b).state.history = flowed.history := by
        rw [ended]
        exact congrArg Prod.fst (bookEntries_counts wf levelResults.items flowed).1
      have parts : flowed.history = b.state.history ++ gathered.history.drop b.state.history.length ++
          flowed.history.drop gathered.history.length :=
        (List.prefix_iff_eq_append.mp second).symm.trans
          (congrArg (· ++ flowed.history.drop gathered.history.length) (List.prefix_iff_eq_append.mp first).symm)
      rw [history,parts]
      simp only [List.forall_mem_append]
      exact ⟨⟨before,own successes⟩,flows⟩
  cases went : wf.levelStep eng limit b with
  | next s =>
    rw [went] at after
    exact after
  | stop s =>
    rw [went] at after
    exact after
  | raised e s =>
    rw [went] at after
    exact after
  | stalled s =>
    rw [went] at after
    exact after

/-- A failure that is overlooked is a failed attempt. -/
theorem overlooked_failed (world : σ)
    (succeeded : ∀ a ∈ (wf.runAll eng limit world).state.history, a.ending = .succeeded) :
    ∀ start ∈ wf.starts eng limit world, wf.overlooked eng limit start.1 = [] := by
  intro start member
  have later := ((runLevels_respects (prefix_respected eng) (fun _ _ _ _ => List.prefix_rfl) wf.levels 1
    (initialState world)).2 start member).2
  rcases levelStep_phasesRun wf eng limit start.1 with ⟨none,_⟩ | ⟨levelResults,gathered,flowed,ran,phases,ended⟩
  · simp [overlooked,none]
  · have history := congrArg Prod.fst (bookEntries_counts wf levelResults.items flowed).1
    simp only [ended,RunState.trail] at later
    rw [show (wf.bookEntries levelResults.items flowed).state.history = flowed.history from history] at later
    obtain ⟨_,second⟩ := levelPhases_respects (prefix_respected eng) phases
    rw [overlooked_eq_nil ran]
    exact ⟨fun _ a inside => succeeded a (later.subset (second.subset (List.mem_of_mem_drop inside))),
      fun a inside => succeeded a (later.subset (List.mem_of_mem_drop inside))⟩

end

end Workflow

end IceOS
