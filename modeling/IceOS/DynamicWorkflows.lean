import IceOS.ActionRuns
import IceOS.UnifiedRegistry

/-! Workflows that are registered through the API from their nodes. Each is published in a new module, which takes the
place of the one before it, and is imported when it is first asked for. -/
namespace IceOS

/-- The definition of a workflow component; `ν` are its node specifications. -/
structure WorkflowComponent (ν : Type) where
  name : String
  workflowNodes : List ν := []
  autoRegister : Bool := true
  validateOnly : Bool := false
  deriving DecidableEq, Repr

/-- A factory made of a definition, or one that some module has. -/
inductive WorkflowFactory (ν φ : Type) where
  | dynamic (definition : WorkflowComponent ν)
  | imported (factory : φ)

/-- `validBlueprint` is what the blueprint model and `validate_blueprint` say to the nodes, and `instantiate` makes a
workflow of a definition (with its nodes converted, constructed and validated). Of other modules, an attribute is `none`
if it cannot be called. -/
structure WorkflowRuntime (ν φ ω : Type) where
  validBlueprint : String → List ν → Bool
  instantiate : WorkflowComponent ν → Except Exn ω
  importAttribute : String → String → Except Exn (Option φ)
  call : φ → Except Exn ω
  autoregDisabled : Bool := false

/-- The factories of the registry, and the module `dynamic_workflows` where one has been published. -/
structure WorkflowRegistry (ν φ : Type) where
  factories : OrderedDict String String := .empty
  factoryCache : OrderedDict String (WorkflowFactory ν φ) := .empty
  dynamicWorkflows : Option (OrderedDict String (WorkflowComponent ν)) := none

open ActionRuns

variable {ν φ ω : Type}

/-- `re.match(r"^[a-zA-Z][a-zA-Z0-9_-]*$", name)`, whose end may also stand before a last line break. -/
def wellFormedName (name : String) : Bool :=
  match name.toList with
  | [] => false
  | first :: rest =>
    let letter (c : Char) : Bool := ('a' ≤ c && c ≤ 'z') || ('A' ≤ c && c ≤ 'Z')
    let body := if rest.getLast? = some '\n' then rest.dropLast else rest
    letter first && body.all fun c => letter c || ('0' ≤ c && c ≤ '9') || c == '_' || c == '-'

namespace WorkflowComponent

def factoryName (d : WorkflowComponent ν) : String := "create_" ++ d.name

def importPath (d : WorkflowComponent ν) : String := "dynamic_workflows" ++ ":" ++ d.factoryName

theorem factoryName_inj {d e : WorkflowComponent ν} (same : d.factoryName = e.factoryName) : d.name = e.name := by
  have texts := congrArg String.toList same
  simp only [factoryName,String.toList_append,List.append_cancel_left_eq] at texts
  exact String.toList_injective texts

theorem factoryName_congr {d e : WorkflowComponent ν} (same : d.name = e.name) : d.factoryName = e.factoryName :=
  congrArg ("create_" ++ ·) same

theorem importPath_congr {d e : WorkflowComponent ν} (same : d.name = e.name) : d.importPath = e.importPath :=
  congrArg ("dynamic_workflows" ++ ":" ++ ·) (factoryName_congr same)

theorem splitImportPath_importPath (d : WorkflowComponent ν) :
    splitImportPath d.importPath = some ("dynamic_workflows",d.factoryName) :=
  splitImportPath_append (by decide) d.factoryName

end WorkflowComponent

namespace WorkflowRegistry

/-- `validate_component` of a workflow. -/
def validateComponent (rt : WorkflowRuntime ν φ ω) (r : WorkflowRegistry ν φ) (d : WorkflowComponent ν) : Bool :=
  !(d.name.length < 2) && wellFormedName d.name && !(r.factories.get? d.name == some d.name) &&
    !d.workflowNodes.isEmpty && rt.validBlueprint ("validation_" ++ d.name) d.workflowNodes

/-- Whether a definition is not only checked. -/
def attempts (rt : WorkflowRuntime ν φ ω) (r : WorkflowRegistry ν φ) (d : WorkflowComponent ν) : Bool :=
  r.validateComponent rt d && d.autoRegister && !d.validateOnly && !rt.autoregDisabled

def registerWorkflowFactory (r : WorkflowRegistry ν φ) (name path : String) : Except Exn (WorkflowRegistry ν φ) :=
  (registerPath ("Workflow factory " ++ name ++ " already registered with different path") r.factories name path).map
    fun factories => { r with factories }

/-- A new module with one factory takes the place of the last one. -/
def publish (r : WorkflowRegistry ν φ) (d : WorkflowComponent ν) : WorkflowRegistry ν φ :=
  { r with dynamicWorkflows := some (OrderedDict.empty.set d.factoryName d) }

/-- `validate_component_definition` of a workflow; tells whether it has been registered. -/
def validateComponentDefinition (rt : WorkflowRuntime ν φ ω) (r : WorkflowRegistry ν φ) (d : WorkflowComponent ν) :
    Bool × WorkflowRegistry ν φ :=
  if r.attempts rt d then
    match (r.publish d).registerWorkflowFactory d.name d.importPath with
    | .ok registered => (true,registered)
    | .error _ => (false,r.publish d)
  else (false,r)

/-- The callable at an import path. -/
def importFactory (rt : WorkflowRuntime ν φ ω) (dynamicWorkflows : Option (OrderedDict String (WorkflowComponent ν)))
    (path : String) : Except Exn (WorkflowFactory ν φ) :=
  match splitImportPath path with
  | none => .error (valueError "not enough values to unpack (expected 2, got 1)")
  | some (module,attr) =>
    if module = "dynamic_workflows" then
      match dynamicWorkflows with
      | none => .error (moduleNotFound module)
      | some attributes =>
        match attributes.get? attr with
        | some d => .ok (.dynamic d)
        | none => .error (attributeError module attr)
    else
      match rt.importAttribute module attr with
      | .error e => .error e
      | .ok none => .error (typeError ("Workflow factory attribute is not callable: " ++ path))
      | .ok (some factory) => .ok (.imported factory)

def callFactory (rt : WorkflowRuntime ν φ ω) : WorkflowFactory ν φ → Except Exn ω
  | .dynamic d => rt.instantiate d
  | .imported factory => rt.call factory

def getWorkflowInstance (rt : WorkflowRuntime ν φ ω) (r : WorkflowRegistry ν φ) (name : String) :
    Except Exn ω × WorkflowRegistry ν φ :=
  match r.factories.get? name with
  | none => (.error (keyError ("Workflow factory not registered: " ++ name)),r)
  | some path =>
    match r.factoryCache.get? name with
    | some factory => (callFactory rt factory,r)
    | none =>
      match importFactory rt r.dynamicWorkflows path with
      | .error e => (.error e,r)
      | .ok factory => (callFactory rt factory,{ r with factoryCache := r.factoryCache.set name factory })

end WorkflowRegistry

/-! ### Runs -/

/-- A component is submitted, or a workflow is asked for by a name. -/
inductive WorkflowAction (ν : Type) where
  | register (definition : WorkflowComponent ν)
  | resolve (name : String)
  deriving DecidableEq, Repr

/-- `registered` are the components of which a reply has said that they are, the last one under each name. -/
structure ServedWorkflows (ν φ : Type) where
  registry : WorkflowRegistry ν φ := {}
  registered : OrderedDict String (WorkflowComponent ν) := .empty

namespace ServedWorkflows

variable {rt : WorkflowRuntime ν φ ω} {s t : ServedWorkflows ν φ}

def step (rt : WorkflowRuntime ν φ ω) (s : ServedWorkflows ν φ) : WorkflowAction ν → Option (ServedWorkflows ν φ)
  | .register d =>
    let (done,registry) := s.registry.validateComponentDefinition rt d
    some ⟨registry,if done then s.registered.set d.name d else s.registered⟩
  | .resolve name => some { s with registry := (s.registry.getWorkflowInstance rt name).2 }

/-- What `get_workflow_instance` answers. -/
def answer (rt : WorkflowRuntime ν φ ω) (s : ServedWorkflows ν φ) (name : String) : Except Exn ω :=
  (s.registry.getWorkflowInstance rt name).1

/-- Every registered name is instantiated from its own definition. -/
def Independent (rt : WorkflowRuntime ν φ ω) (s : ServedWorkflows ν φ) : Prop :=
  ∀ name d, s.registered.get? name = some d → ∃ w, rt.instantiate d = .ok w ∧ s.answer rt name = .ok w

/-- A submission that is not only checked comes after every other registered workflow has been asked for, as later ones
are cached; the new definition can be instantiated, and what is cached under its own name makes the same of it. -/
def Careful (rt : WorkflowRuntime ν φ ω) (s : ServedWorkflows ν φ) : WorkflowAction ν → Prop
  | .register d =>
    s.registry.attempts rt d = true →
      (∀ name other, s.registered.get? name = some other → name ≠ d.name →
        (s.registry.factoryCache.get? name).isSome = true) ∧
      (PathFree s.registry.factories d.name d.importPath → (∃ w, rt.instantiate d = .ok w) ∧
        ∀ factory, s.registry.factoryCache.get? d.name = some factory →
          WorkflowRegistry.callFactory rt factory = rt.instantiate d)
  | .resolve _ => True

/-- The registered components are in the registry under their own names. -/
def Consistent (s : ServedWorkflows ν φ) : Prop :=
  ∀ name d, s.registered.get? name = some d → d.name = name ∧ s.registry.factories.get? name = some d.importPath

theorem answer_eq (name : String) : s.answer rt name =
    match s.registry.factories.get? name with
    | none => .error (keyError ("Workflow factory not registered: " ++ name))
    | some path =>
      match s.registry.factoryCache.get? name with
      | some factory => WorkflowRegistry.callFactory rt factory
      | none =>
        (WorkflowRegistry.importFactory rt s.registry.dynamicWorkflows path).bind (WorkflowRegistry.callFactory rt) := by
  cases known : s.registry.factories.get? name with
  | none => simp only [answer,WorkflowRegistry.getWorkflowInstance,known]
  | some path =>
    cases cached : s.registry.factoryCache.get? name with
    | some factory => simp only [answer,WorkflowRegistry.getWorkflowInstance,known,cached]
    | none =>
      cases imported : WorkflowRegistry.importFactory rt s.registry.dynamicWorkflows path with
      | error e => simp only [answer,WorkflowRegistry.getWorkflowInstance,known,cached,imported,Except.bind]
      | ok factory => simp only [answer,WorkflowRegistry.getWorkflowInstance,known,cached,imported,Except.bind]

theorem answer_cached {name path : String} {factory : WorkflowFactory ν φ}
    (known : s.registry.factories.get? name = some path) (cached : s.registry.factoryCache.get? name = some factory) :
    s.answer rt name = WorkflowRegistry.callFactory rt factory := by
  simp only [answer_eq,known,cached]

/-- A name that is not cached is looked for in the module that was published last. -/
theorem answer_published {d other : WorkflowComponent ν} {name : String}
    (published : s.registry.dynamicWorkflows = some (OrderedDict.empty.set d.factoryName d))
    (known : s.registry.factories.get? name = some other.importPath) (own : other.name = name)
    (uncached : s.registry.factoryCache.get? name = none) :
    s.answer rt name = if d.name = name then rt.instantiate d
      else .error (attributeError "dynamic_workflows" other.factoryName) := by
  subst own
  simp only [answer_eq,known,uncached,WorkflowRegistry.importFactory,WorkflowComponent.splitImportPath_importPath,
    if_true,published]
  by_cases same : d.name = other.name
  · rw [WorkflowComponent.factoryName_congr same,OrderedDict.get?_set_same,if_pos same]
    rfl
  · have apart : d.factoryName ≠ other.factoryName := fun alike => same (WorkflowComponent.factoryName_inj alike)
    rw [OrderedDict.get?_set_other _ _ apart,OrderedDict.get?_empty,if_neg same]
    rfl

/-- Asking for a workflow caches at most what it is answered from. -/
theorem resolve_registry (rt : WorkflowRuntime ν φ ω) (name : String) (r : WorkflowRegistry ν φ) :
    (r.getWorkflowInstance rt name).2 = r ∨ ∃ path factory, r.factories.get? name = some path ∧
      r.factoryCache.get? name = none ∧ WorkflowRegistry.importFactory rt r.dynamicWorkflows path = .ok factory ∧
      (r.getWorkflowInstance rt name).2 = { r with factoryCache := r.factoryCache.set name factory } := by
  cases known : r.factories.get? name with
  | none => exact .inl (by simp only [WorkflowRegistry.getWorkflowInstance,known])
  | some path =>
    cases cached : r.factoryCache.get? name with
    | some factory => exact .inl (by simp only [WorkflowRegistry.getWorkflowInstance,known,cached])
    | none =>
      cases imported : WorkflowRegistry.importFactory rt r.dynamicWorkflows path with
      | error e => exact .inl (by simp only [WorkflowRegistry.getWorkflowInstance,known,cached,imported])
      | ok factory =>
        refine .inr ⟨path,factory,rfl,rfl,imported,?_⟩
        simp only [WorkflowRegistry.getWorkflowInstance,known,cached,imported]

/-- Asking for a workflow changes no answer. -/
theorem resolve_answer {name : String} (stepped : s.step rt (.resolve name) = some t) :
    (∀ j, t.answer rt j = s.answer rt j) ∧ t.registered = s.registered ∧
      t.registry.factories = s.registry.factories := by
  obtain rfl := Option.some.inj stepped
  rcases resolve_registry rt name s.registry with same | ⟨path,factory,known,uncached,imported,same⟩
  · rw [same]
    exact ⟨fun _ => rfl,rfl,rfl⟩
  · rw [same]
    refine ⟨fun j => ?_,rfl,rfl⟩
    rw [answer_eq,answer_eq]
    by_cases here : name = j
    · subst here
      simp only [known,uncached,imported,OrderedDict.get?_set_same]
      rfl
    · simp only [OrderedDict.get?_set_other _ _ here]

/-- What a submission does that is not only checked: the module is replaced in any case, and the component is registered
where its name is free. -/
theorem register_attempted {d : WorkflowComponent ν} (attempted : s.registry.attempts rt d = true)
    (stepped : s.step rt (.register d) = some t) :
    t.registry.dynamicWorkflows = some (OrderedDict.empty.set d.factoryName d) ∧
      t.registry.factoryCache = s.registry.factoryCache ∧
      (∀ j, d.name ≠ j → t.registry.factories.get? j = s.registry.factories.get? j) ∧
      ((PathFree s.registry.factories d.name d.importPath ∧ t.registered = s.registered.set d.name d ∧
          t.registry.factories.get? d.name = some d.importPath) ∨
        (¬PathFree s.registry.factories d.name d.importPath ∧ t.registered = s.registered ∧
          t.registry.factories = s.registry.factories)) := by
  have reply : s.registry.validateComponentDefinition rt d = _ := if_pos attempted
  rw [step,reply] at stepped
  cases done : registerPath ("Workflow factory " ++ d.name ++ " already registered with different path")
    s.registry.factories d.name d.importPath with
  | ok factories =>
    obtain ⟨free,own,others⟩ := registerPath_ok done
    simp only [WorkflowRegistry.registerWorkflowFactory,WorkflowRegistry.publish,done,Except.map,if_true] at stepped
    cases stepped
    exact ⟨rfl,rfl,others,.inl ⟨free,rfl,own⟩⟩
  | error e =>
    simp only [WorkflowRegistry.registerWorkflowFactory,WorkflowRegistry.publish,done,Except.map,Bool.false_eq_true,
      if_false] at stepped
    cases stepped
    refine ⟨rfl,rfl,fun _ _ => rfl,.inr ⟨fun free => ?_,rfl,rfl⟩⟩
    obtain ⟨factories,fine⟩ := registerPath_free
      ("Workflow factory " ++ d.name ++ " already registered with different path") free
    cases done.symm.trans fine

theorem step_enabled (rt : WorkflowRuntime ν φ ω) (s : ServedWorkflows ν φ) (a : WorkflowAction ν) :
    ∃ t, s.step rt a = some t := by
  cases a with
  | register d => exact ⟨_,rfl⟩
  | resolve name => exact ⟨_,rfl⟩

theorem unattempted {d : WorkflowComponent ν} (idle : ¬s.registry.attempts rt d = true)
    (stepped : s.step rt (.register d) = some t) : t = s := by
  have reply : s.registry.validateComponentDefinition rt d = _ := if_neg idle
  rw [step,reply] at stepped
  exact (Option.some.inj stepped).symm

theorem step_consistent (consistent : s.Consistent) {a : WorkflowAction ν} (stepped : s.step rt a = some t) :
    t.Consistent := by
  cases a with
  | resolve name =>
    obtain ⟨-,registered,factories⟩ := resolve_answer stepped
    intro j d found
    rw [registered] at found
    rw [factories]
    exact consistent j d found
  | register d =>
    by_cases attempted : s.registry.attempts rt d = true
    · obtain ⟨-,-,others,⟨-,registered,own⟩ | ⟨-,registered,factories⟩⟩ := register_attempted attempted stepped
      · intro j e found
        rw [registered,OrderedDict.get?_set] at found
        split at found
        · next same =>
          cases found
          exact ⟨same,same ▸ own⟩
        · next other =>
          rw [others j other]
          exact consistent j e found
      · intro j e found
        rw [registered] at found
        rw [factories]
        exact consistent j e found
    · rw [unattempted attempted stepped]
      exact consistent

/-- The name of a new definition is answered from its cached factory if it has one, and from the definition otherwise. -/
theorem registered_answer {d : WorkflowComponent ν}
    (published : t.registry.dynamicWorkflows = some (OrderedDict.empty.set d.factoryName d))
    (known : t.registry.factories.get? d.name = some d.importPath) {w : ω} (made : rt.instantiate d = .ok w) :
    t.answer rt d.name = .ok w ↔ ∀ factory, t.registry.factoryCache.get? d.name = some factory →
      WorkflowRegistry.callFactory rt factory = rt.instantiate d := by
  cases cached : t.registry.factoryCache.get? d.name with
  | none =>
    rw [answer_published published known rfl cached,if_pos rfl,made]
    exact ⟨fun _ factory found => (nomatch found),fun _ => rfl⟩
  | some factory =>
    rw [answer_cached known cached,made]
    constructor
    · intro same other found
      cases found
      exact same
    · intro same
      exact same factory rfl

/-- The answer to a name that is already registered survives a submission under another one where it is cached. -/
theorem others_answer {d other : WorkflowComponent ν} {name : String} (consistent : s.Consistent)
    (independent : s.Independent rt) (attempted : s.registry.attempts rt d = true)
    (stepped : s.step rt (.register d) = some t) (found : s.registered.get? name = some other) (apart : name ≠ d.name) :
    (∃ w, rt.instantiate other = .ok w ∧ t.answer rt name = .ok w) ↔
      (s.registry.factoryCache.get? name).isSome = true := by
  obtain ⟨published,cache,factories,-⟩ := register_attempted attempted stepped
  obtain ⟨own,known⟩ := consistent name other found
  have still := (factories name (Ne.symm apart)).trans known
  cases cached : s.registry.factoryCache.get? name with
  | none =>
    have uncached := (congrArg (OrderedDict.get? · name) cache).trans cached
    rw [answer_published published still own uncached,if_neg (Ne.symm apart)]
    constructor
    · rintro ⟨w,-,answered⟩
      cases answered
    · intro here
      cases here
  | some factory =>
    have kept := (congrArg (OrderedDict.get? · name) cache).trans cached
    refine ⟨fun _ => rfl,fun _ => ?_⟩
    obtain ⟨w,made,answered⟩ := independent name other found
    rw [answer_cached known cached] at answered
    exact ⟨w,made,(answer_cached still kept).trans answered⟩

theorem step_careful_iff (s : ServedWorkflows ν φ) (a : WorkflowAction ν) (t : ServedWorkflows ν φ)
    (strong : s.Consistent ∧ s.Independent rt) (stepped : s.step rt a = some t) :
    t.Independent rt ↔ s.Careful rt a := by
  obtain ⟨consistent,independent⟩ := strong
  cases a with
  | resolve name =>
    obtain ⟨answers,registered,-⟩ := resolve_answer stepped
    refine ⟨fun _ => trivial,fun _ j d found => ?_⟩
    rw [registered] at found
    rw [answers]
    exact independent j d found
  | register d =>
    by_cases attempted : s.registry.attempts rt d = true
    · obtain ⟨published,cache,-,outcome⟩ := register_attempted attempted stepped
      have others (name : String) (other : WorkflowComponent ν) (found : s.registered.get? name = some other)
          (apart : name ≠ d.name) := others_answer consistent independent attempted stepped found apart
      rcases outcome with ⟨free,registered,own⟩ | ⟨taken,registered,-⟩
      · have elsewhere (name : String) (apart : name ≠ d.name) : t.registered.get? name = s.registered.get? name := by
          rw [registered,OrderedDict.get?_set_other _ _ (Ne.symm apart)]
        have here : t.registered.get? d.name = some d := by
          rw [registered,OrderedDict.get?_set_same]
        constructor
        · intro fine _
          refine ⟨fun name other found apart => ?_,fun _ => ?_⟩
          · exact (others name other found apart).mp (fine name other ((elsewhere name apart).trans found))
          · obtain ⟨w,made,answered⟩ := fine d.name d here
            have cached := (registered_answer published own made).mp answered
            rw [cache] at cached
            exact ⟨⟨w,made⟩,cached⟩
        · intro careful name other found
          obtain ⟨asked,fresh⟩ := careful attempted
          by_cases apart : name = d.name
          · subst apart
            cases here.symm.trans found
            obtain ⟨⟨w,made⟩,cached⟩ := fresh free
            rw [← cache] at cached
            exact ⟨w,made,(registered_answer published own made).mpr cached⟩
          · rw [elsewhere name apart] at found
            exact (others name other found apart).mpr (asked name other found apart)
      · constructor
        · intro fine _
          refine ⟨fun name other found apart => ?_,fun free => absurd free taken⟩
          exact (others name other found apart).mp (fine name other (by rw [registered]; exact found))
        · intro careful name other found
          obtain ⟨asked,-⟩ := careful attempted
          rw [registered] at found
          have apart : name ≠ d.name := by
            intro same
            obtain ⟨own,known⟩ := consistent name other found
            refine taken fun old has => ?_
            have path := known.symm.trans ((congrArg s.registry.factories.get? same).trans has)
            exact (Option.some.inj path).symm.trans (WorkflowComponent.importPath_congr (own.trans same))
          exact (others name other found apart).mpr (asked name other found apart)
    · rw [unattempted attempted stepped]
      exact ⟨fun _ here => absurd here attempted,fun _ => independent⟩

theorem empty_strong (registry : WorkflowRegistry ν φ) :
    (⟨registry,.empty⟩ : ServedWorkflows ν φ).Consistent ∧ Independent rt ⟨registry,.empty⟩ := by
  constructor
  · intro name d found
    cases found
  · intro name d found
    cases found

theorem careful_strong (s : ServedWorkflows ν φ) (a : WorkflowAction ν) (t : ServedWorkflows ν φ)
    (strong : s.Consistent ∧ s.Independent rt) (careful : s.Careful rt a) (stepped : s.step rt a = some t) :
    t.Consistent ∧ t.Independent rt :=
  ⟨step_consistent strong.1 stepped,(step_careful_iff s a t strong stepped).mpr careful⟩

/-- Two instances of one definition are the same. -/
theorem Independent.unchanged {name : String} {d : WorkflowComponent ν} (before : s.Independent rt)
    (after : t.Independent rt) (found : s.registered.get? name = some d) (kept : t.registered.get? name = some d) :
    t.answer rt name = s.answer rt name := by
  obtain ⟨v,first,early⟩ := before name d found
  obtain ⟨w,second,late⟩ := after name d kept
  cases first.symm.trans second
  exact late.trans early.symm

/-- All along a sequence of submissions and uses every registered name is instantiated from its own definition exactly if
every submission is careful; and then none changes what is answered to the other names. -/
theorem dynamicWorkflows_independent_iff (rt : WorkflowRuntime ν φ ω) (registry : WorkflowRegistry ν φ)
    (actions : List (WorkflowAction ν)) :
    ((∀ first rest u, actions = first ++ rest → run (step rt) first ⟨registry,.empty⟩ = some u → u.Independent rt) ↔
      Throughout (step rt) (Careful rt) actions ⟨registry,.empty⟩) ∧
    (Throughout (step rt) (Careful rt) actions ⟨registry,.empty⟩ → ∀ first d rest u t,
      actions = first ++ .register d :: rest → run (step rt) first ⟨registry,.empty⟩ = some u →
        u.step rt (.register d) = some t → ∀ name other, u.registered.get? name = some other → name ≠ d.name →
          t.answer rt name = u.answer rt name) := by
  constructor
  · obtain ⟨t,ran⟩ := run_total (step_enabled rt) actions ⟨registry,.empty⟩
    exact throughout_iff_of_strong step_careful_iff careful_strong ran (empty_strong registry) (empty_strong registry).2
  · intro careful first d rest u t parts reached stepped name other found apart
    obtain ⟨early,late⟩ := throughout_append reached (parts ▸ careful)
    have before := run_invariant careful_strong reached (empty_strong registry) early
    have after := careful_strong u (.register d) t before late.1 stepped
    refine before.2.unchanged after.2 found ?_
    by_cases attempted : u.registry.attempts rt d = true
    · obtain ⟨-,-,-,⟨-,registered,-⟩ | ⟨-,registered,-⟩⟩ := register_attempted attempted stepped
      · rw [registered,OrderedDict.get?_set_other _ _ (Ne.symm apart)]
        exact found
      · rw [registered]
        exact found
    · rw [unattempted attempted stepped]
      exact found

/-- Instances are the names of their workflows. -/
def namingRuntime : WorkflowRuntime String Unit String where
  validBlueprint _ _ := true
  instantiate d := .ok d.name
  importAttribute module _ := .error (moduleNotFound module)
  call _ := .ok ""

/-- Two workflows are registered, the second before the first has been asked for. -/
def twoWorkflows : List (WorkflowAction String) :=
  [.register { name := "alpha",workflowNodes := ["fetch"] },.register { name := "beta",workflowNodes := ["send"] }]

/-- The module of the second workflow has no factory for the first. -/
theorem replaced_breaks :
    ¬∀ (rt : WorkflowRuntime String Unit String) (registry : WorkflowRegistry String Unit)
      (actions : List (WorkflowAction String)) (s : ServedWorkflows String Unit),
      run (step rt) actions ⟨registry,.empty⟩ = some s → s.Independent rt := by
  intro claim
  obtain ⟨s,ran⟩ := run_total (step_enabled namingRuntime) twoWorkflows ⟨{},.empty⟩
  have found : (run (step namingRuntime) twoWorkflows ⟨{},.empty⟩).map (·.registered.get? "alpha") =
      some (some { name := "alpha",workflowNodes := ["fetch"] }) := by decide +kernel
  have refused : (run (step namingRuntime) twoWorkflows ⟨{},.empty⟩).map
      (fun s => (s.answer namingRuntime "alpha").toOption) = some none := by decide +kernel
  rw [ran] at found refused
  obtain ⟨w,-,answered⟩ := claim namingRuntime {} twoWorkflows s ran "alpha" _ (Option.some.inj found)
  have nothing : (s.answer namingRuntime "alpha").toOption = none := Option.some.inj refused
  rw [answered] at nothing
  cases nothing

end ServedWorkflows

end IceOS
