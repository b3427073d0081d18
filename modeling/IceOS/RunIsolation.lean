import IceOS.ContextManager
import Mathlib.Data.Fintype.EquivFin

/-! Two workflows that share the process-wide context manager. Each constructor makes its own
graph context the current one, and every node context reads whatever is current when it is
built. Construction and the building of a context contain no await, so they are single steps. -/
namespace IceOS

/-- The workflow that is observed, and the one beside it. -/
inductive Party where
  | observed | other
  deriving DecidableEq, Repr

/-- What a constructor hands to the context manager; `builtAt` is the time it stamps on. -/
structure Construction where
  sessionId : String
  initialContext : List (String × Value) := []
  builtAt : String

def Construction.graphContext (c : Construction) : GraphContext where
  sessionId := c.sessionId
  metadata := c.initialContext
  executionId := some (c.sessionId ++ "_" ++ c.builtAt)

inductive Event where
  | construct (w : Party)
  /-- A recursive flow passes on the output of its `source`. -/
  | build (w : Party) (node : NodeConfig) (source : Option String)
  | record (w : Party) (id : String)

abbrev Handed := List (String × Except Exn Context)

/-- Two workflows: their constructions, and what their nodes answer, given the contexts that
were handed out in the workflow so far. -/
structure Workflows where
  constructions : Party → Construction
  replies : Party → Handed → String → NodeExecutionResult

def Workflows.beside (x : Workflows) (c : Construction) : Workflows :=
  { x with constructions := Function.update x.constructions .other c }

@[simp] theorem Workflows.beside_replies (x : Workflows) (c : Construction) :
    (x.beside c).replies = x.replies := rfl
@[simp] theorem Workflows.beside_observed (x : Workflows) (c : Construction) :
    (x.beside c).constructions .observed = x.constructions .observed := by simp [beside]
@[simp] theorem Workflows.beside_other (x : Workflows) (c : Construction) :
    (x.beside c).constructions .other = c := by simp [beside]

structure Shared where
  manager : ContextManager
  results : Party → Results := fun _ => .empty
  handed : Party → Handed := fun _ => []

def passedOn (results : Results) (source : Option String) : List (String × Value) :=
  match source.bind results.get? with
  | some result => result.output.entries
  | none => []

/-- The context that a node is handed, from the manager's current graph context. -/
def handOut (m : ContextManager) (results : Results) (node : NodeConfig) (source : Option String) :
    Except Exn Context :=
  (buildNodeContext m.getContext.1 node results).map (·.update (passedOn results source))

def step (x : Workflows) (s : Shared) : Event → Shared
  | .construct w => { s with manager := s.manager.setContext (x.constructions w).graphContext }
  | .build w node source =>
    { s with handed := Function.update s.handed w
               (s.handed w ++ [(node.id,handOut s.manager (s.results w) node source)]) }
  | .record w id =>
    { s with results := Function.update s.results w ((s.results w).set id (x.replies w (s.handed w) id)) }

def interleave (x : Workflows) (schedule : List Event) (s : Shared) : Shared := schedule.foldl (step x) s

/-- The contexts of the observed workflow are the same whatever the other was built with. -/
def Isolated (x : Workflows) (schedule : List Event) (s : Shared) : Prop :=
  ∀ c d, (interleave (x.beside c) schedule s).handed .observed =
    (interleave (x.beside d) schedule s).handed .observed

def Event.constructs : Event → Option Party
  | .construct w => some w
  | _ => none

/-- The workflow that was constructed last. -/
def lastConstructed (schedule : List Event) : Option Party := (schedule.filterMap Event.constructs).getLast?

/-- The other workflow is not the last one constructed when a context of the observed one is
built, unless the build fails on its mappings. -/
def Undisturbed (x : Workflows) (schedule : List Event) (s : Shared) : Prop :=
  ∀ before node source after, schedule = before ++ .build .observed node source :: after →
    lastConstructed before = some .other → ∀ c, ∃ e,
      ContextBuilder.buildNodeContext node ((interleave (x.beside c) before s).results .observed) = .error e

theorem step_construct_results (x : Workflows) (s : Shared) (w : Party) :
    (step x s (.construct w)).results = s.results := rfl

theorem step_construct_handed (x : Workflows) (s : Shared) (w : Party) :
    (step x s (.construct w)).handed = s.handed := rfl

theorem step_build_results (x : Workflows) (s : Shared) (w : Party) (node : NodeConfig)
    (source : Option String) : (step x s (.build w node source)).results = s.results := rfl

theorem step_record_handed (x : Workflows) (s : Shared) (w : Party) (id : String) :
    (step x s (.record w id)).handed = s.handed := rfl

theorem interleave_snoc (x : Workflows) (before : List Event) (e : Event) (s : Shared) :
    interleave x (before ++ [e]) s = step x (interleave x before s) e := by
  simp [interleave]

theorem lastConstructed_snoc (before : List Event) (e : Event) :
    lastConstructed (before ++ [e]) = e.constructs.or (lastConstructed before) := by
  simp only [lastConstructed,List.filterMap_append,List.filterMap_cons,List.filterMap_nil]
  cases e.constructs <;> simp

/-- The current context is the one of the workflow constructed last. -/
theorem interleave_current (x : Workflows) (schedule : List Event) (s : Shared) :
    (interleave x schedule s).manager.current =
      match lastConstructed schedule with
      | none => s.manager.current
      | some w => some (x.constructions w).graphContext := by
  induction schedule using List.reverseRecOn with
  | nil => rfl
  | append_singleton before e ih =>
    rw [interleave_snoc,lastConstructed_snoc]
    cases e with
    | construct w => exact ContextManager.setContext_current _ _
    | build w node source => simpa [Event.constructs,step] using ih
    | record w id => simpa [Event.constructs,step] using ih

/-- A context depends on the manager only through its current graph context. -/
theorem handOut_current {m n : ContextManager} (same : m.current = n.current) (results : Results)
    (node : NodeConfig) (source : Option String) : handOut m results node source = handOut n results node source := by
  simp [handOut,ContextManager.getContext,same]

theorem handOut_error {m : ContextManager} {results : Results} {node : NodeConfig} {e : Exn}
    (failed : ContextBuilder.buildNodeContext node results = .error e) (source : Option String) :
    handOut m results node source = .error e := by
  rw [handOut,(buildNodeContext_error_iff _ node results e).mpr failed]
  rfl

/-- While nothing disturbs it, the observed workflow sees the same. -/
theorem interleave_agree (x : Workflows) (s : Shared) (c d : Construction) (schedule after : List Event)
    (undisturbed : Undisturbed x (schedule ++ after) s) :
    (interleave (x.beside c) schedule s).results .observed =
        (interleave (x.beside d) schedule s).results .observed ∧
      (interleave (x.beside c) schedule s).handed .observed =
        (interleave (x.beside d) schedule s).handed .observed := by
  induction schedule using List.reverseRecOn generalizing after with
  | nil =>
    constructor
    · rfl
    · rfl
  | append_singleton before e ih =>
    rw [List.append_assoc] at undisturbed
    obtain ⟨results,handed⟩ := ih _ undisturbed
    rw [interleave_snoc,interleave_snoc]
    cases e with
    | construct w =>
      rw [step_construct_results,step_construct_results,step_construct_handed,step_construct_handed]
      exact ⟨results,handed⟩
    | record w id =>
      cases w with
      | observed => simp [step,results,handed]
      | other => simp [step,results,handed]
    | build w node source =>
      cases w with
      | other => simp [step,results,handed]
      | observed =>
        rw [step_build_results,step_build_results]
        refine ⟨results,?_⟩
        simp only [step,Function.update_self,handed,results]
        congr 3
        by_cases last : lastConstructed before = some .other
        · obtain ⟨e,failed⟩ := undisturbed before node source after (by simp) last d
          rw [handOut_error failed,handOut_error failed]
        · apply handOut_current
          rw [interleave_current,interleave_current]
          cases constructed : lastConstructed before with
          | none => rfl
          | some w =>
            cases w with
            | observed => simp
            | other => exact absurd constructed last

/-- What was handed out tells what was handed out before the last event. -/
theorem handed_of_snoc {x : Workflows} {s : Shared} {c d : Construction} {before : List Event} {e : Event}
    (same : (interleave (x.beside c) (before ++ [e]) s).handed .observed =
      (interleave (x.beside d) (before ++ [e]) s).handed .observed) :
    (interleave (x.beside c) before s).handed .observed =
      (interleave (x.beside d) before s).handed .observed := by
  rw [interleave_snoc,interleave_snoc] at same
  cases e with
  | construct w => rwa [step_construct_handed,step_construct_handed] at same
  | record w id => rwa [step_record_handed,step_record_handed] at same
  | build w node source =>
    cases w with
    | other => simpa [step] using same
    | observed =>
      simp only [step,Function.update_self] at same
      exact (List.append_singleton_inj.mp same).1

/-- The results of the observed workflow are determined by what it was handed. -/
theorem results_of_handed {x : Workflows} {s : Shared} {c d : Construction} (schedule : List Event)
    (same : (interleave (x.beside c) schedule s).handed .observed =
      (interleave (x.beside d) schedule s).handed .observed) :
    (interleave (x.beside c) schedule s).results .observed =
      (interleave (x.beside d) schedule s).results .observed := by
  induction schedule using List.reverseRecOn with
  | nil => rfl
  | append_singleton before e ih =>
    have handed := handed_of_snoc same
    have results := ih handed
    rw [interleave_snoc,interleave_snoc]
    cases e with
    | construct w => rwa [step_construct_results,step_construct_results]
    | build w node source => rwa [step_build_results,step_build_results]
    | record w id =>
      cases w with
      | observed => simp [step,results,handed]
      | other => simp [step,results]

theorem handed_of_append {x : Workflows} {s : Shared} {c d : Construction} (before after : List Event)
    (same : (interleave (x.beside c) (before ++ after) s).handed .observed =
      (interleave (x.beside d) (before ++ after) s).handed .observed) :
    (interleave (x.beside c) before s).handed .observed =
      (interleave (x.beside d) before s).handed .observed := by
  induction after using List.reverseRecOn with
  | nil => simpa using same
  | append_singleton after e ih =>
    rw [← List.append_assoc] at same
    exact ih (handed_of_snoc same)

/-- A metadata key of the current graph context is a key of every context built from it. -/
theorem handOut_metadata {m : ContextManager} {results : Results} {node : NodeConfig} {source : Option String}
    {ctx base : Context} {current : GraphContext} {key : String} {value : Value} (own : m.current = some current)
    (metadata : current.metadata = [(key,value)]) (plain : key ≠ "inputs")
    (made : ContextBuilder.buildNodeContext node results = .ok base)
    (built : handOut m results node source = .ok ctx) : key ∈ ctx.keys := by
  obtain ⟨sessionId,_,executionId⟩ := current
  cases metadata
  simp only [handOut,ContextManager.getContext,own,buildNodeContext,made,Except.map,injectMetadata,
    OrderedDict.lookup_cons_other value [] plain.symm,List.lookup_nil,Except.ok.injEq] at built
  rw [← built,OrderedDict.mem_keys_update,OrderedDict.mem_keys_update,OrderedDict.mem_keys_ofList]
  exact .inl (.inl (by simp))

/-- Runs beside another workflow are isolated exactly when that workflow leaves them undisturbed. -/
theorem isolated_iff (x : Workflows) (schedule : List Event) (s : Shared) :
    Isolated x schedule s ↔ Undisturbed x schedule s := by
  constructor
  · intro isolated before node source after parts last c
    cases made : ContextBuilder.buildNodeContext node
        ((interleave (x.beside c) before s).results .observed) with
    | error e => exact ⟨e,rfl⟩
    | ok base =>
      exfalso
      obtain ⟨ctx,built⟩ : ∃ ctx, handOut (interleave (x.beside c) before s).manager
          ((interleave (x.beside c) before s).results .observed) node source = .ok ctx := by
        simp [handOut,buildNodeContext,made,Except.map]
      -- the other workflow might as well have been built with a key that is not in this context
      obtain ⟨key,fresh⟩ := Infinite.exists_notMem_finset ("inputs" :: ctx.keys).toFinset
      simp only [List.mem_toFinset,List.mem_cons,not_or] at fresh
      let d : Construction := { sessionId := "",initialContext := [(key,.none)],builtAt := "" }
      have same := isolated c d
      rw [parts,List.append_cons] at same
      have handed := handed_of_append _ after same
      have before' := handed_of_snoc handed
      have results := results_of_handed before before'
      rw [interleave_snoc,interleave_snoc] at handed
      simp only [step,Function.update_self] at handed
      have entry := (Prod.mk.inj (List.append_singleton_inj.mp handed).2).2
      rw [built] at entry
      rw [results] at made
      have current := interleave_current (x.beside d) before s
      simp only [last,Workflows.beside_other] at current
      exact fresh.2 (handOut_metadata current rfl fresh.1 made entry.symm)
  · intro undisturbed c d
    exact (interleave_agree x s c d schedule [] (by simpa using undisturbed)).2

/-- A workflow with one node, and another one constructed before it is run. -/
def twoChats : Workflows where
  constructions w := match w with
    | .observed => { sessionId := "alice",builtAt := "09:00",initialContext := [("topic",.str "tea")] }
    | .other => { sessionId := "bob",builtAt := "09:01" }
  replies _ _ _ := {}

def intrusion : List Event :=
  [.construct .observed,.construct .other,.build .observed { id := "draft",type := .llm } none]

/-- The node of the first workflow is handed the initial context of the second. -/
theorem intrusion_leaks : ¬∀ (x : Workflows) (schedule : List Event) (s : Shared), Isolated x schedule s := by
  intro claim
  have same := claim twoChats intrusion { manager := {} }
    { sessionId := "bob",builtAt := "09:01",initialContext := [("account",.str "7731")] }
    { sessionId := "bob",builtAt := "09:01" }
  have shown := congrArg (List.map fun entry => (Except.toOption entry.2).map OrderedDict.keys) same
  revert shown
  decide +kernel

/-- Without the intrusion it is handed its own. -/
example : ((interleave twoChats [.construct .other,.construct .observed,
      .build .observed { id := "draft",type := .llm } none] { manager := {} }).handed .observed).map
    (fun entry => (Except.toOption entry.2).map OrderedDict.keys) = [some ["topic"]] := by
  decide +kernel

end IceOS
