import Mathlib.Data.List.Sort
import IceOS.ActionRuns
import IceOS.ExceptRules
import IceOS.ToolRegistry

/-! The ways to look a tool up: by its class, by making an instance, by asking whether there is one, and in the listing of
the factories. Each reads the three maps of the registry in its own way. -/
namespace IceOS

open ActionRuns

variable {ν : Type}

/-- What importing a path leads to (`none` if it cannot be called), which classes derive from `ToolBase`, which of them can
be instantiated, and of which class the tools are that a function makes. -/
structure ToolImports (ν : Type) where
  importFactory : String → Except Exn (Option (ToolFactory ν))
  isTool : ν → Bool
  construct : ν → Except Exn Unit
  make : ν → Except Exn (Option ν)

def toolFactoryResolutionError (name details : String) : Exn :=
  let text := "Failed to instantiate tool " ++ "'" ++ name ++ "': " ++ details
  ⟨text,"ToolFactoryResolutionError(" ++ PythonText.repr text ++ ")"⟩

/-- The registry, the modules that the loader has made for tool objects, by the paths of their factories, and the
implementation that was registered first under each name. -/
structure ToolCatalogue (ν : Type) where
  registry : ToolRegistry ν := {}
  dynamicTools : OrderedDict String (ToolFactory ν) := .empty
  first : OrderedDict String (Option ν) := .empty

namespace ToolImports

/-- The class of the tool that a factory makes. -/
def call (rt : ToolImports ν) (name : String) : ToolFactory ν → Except Exn ν
  | .construct cls =>
    match rt.construct cls with
    | .error e => .error e
    | .ok _ =>
      if rt.isTool cls then .ok cls
      else .error (toolFactoryResolutionError name "factory did not return a ToolBase instance")
  | .recreate cls _ => .ok cls
  | .function f =>
    match rt.make f with
    | .error e => .error e
    | .ok (some cls) => .ok cls
    | .ok none => .error (toolFactoryResolutionError name "factory did not return a ToolBase instance")

/-- The implementation behind a factory: the class of its tools, if it makes any. -/
def implementation (rt : ToolImports ν) (factory : ToolFactory ν) : Option ν := (rt.call "" factory).toOption

end ToolImports

namespace ToolCatalogue

/-! ### Looking up -/

def getClass (s : ToolCatalogue ν) (name : String) : Except Exn ν :=
  match s.registry.nodes.get? name with
  | some cls => .ok cls
  | none => .error (registryError ("Node class tool:" ++ name ++ " not found"))

def hasTool (s : ToolCatalogue ν) (name : String) : Bool :=
  (s.registry.toolFactories.get? name).isSome || (s.registry.toolFactoryCache.get? name).isSome ||
    (s.registry.nodes.get? name).isSome

/-- An import path leads into the modules that the loader has made or to others. -/
def importPath (rt : ToolImports ν) (s : ToolCatalogue ν) (path : String) : Except Exn (Option (ToolFactory ν)) :=
  match s.dynamicTools.get? path with
  | some factory => .ok (some factory)
  | none => rt.importFactory path

/-- The factory that `get_tool_instance` calls: the cached one, else the one at the registered path, else the class. -/
def resolve (rt : ToolImports ν) (s : ToolCatalogue ν) (name : String) : Except Exn (ToolFactory ν) :=
  match s.registry.toolFactoryCache.get? name with
  | some factory => .ok factory
  | none =>
    match s.registry.toolFactories.get? name with
    | some path =>
      match s.importPath rt path with
      | .error e => .error e
      | .ok none => .error (toolFactoryResolutionError name "factory attribute is not callable")
      | .ok (some factory) => .ok factory
    | none =>
      match s.registry.nodes.get? name with
      | some cls =>
        if rt.isTool cls then .ok (.construct cls) else .error (toolFactoryResolutionError name "factory not registered")
      | none => .error (toolFactoryResolutionError name "factory not registered")

/-- `get_tool_instance`; the answer is the class of the instance. A factory is cached once it is found. -/
def getToolInstance (rt : ToolImports ν) (s : ToolCatalogue ν) (name : String) : Except Exn ν × ToolCatalogue ν :=
  match s.resolve rt name with
  | .error e => (.error e,s)
  | .ok factory => (rt.call name factory,{ s with registry := s.registry.registerToolFactoryCallable name factory })

/-- The registered paths, and a placeholder for every other cached factory. -/
def availableToolFactories (s : ToolCatalogue ν) : List (String × String) :=
  (s.registry.toolFactories.items.insertionSort fun a b => a.1 ≤ b.1) ++
    ((s.registry.toolFactoryCache.keys.insertionSort fun a b => a ≤ b).filter fun name =>
      (s.registry.toolFactories.get? name).isNone).map fun name => (name,"<callable>")

/-! ### Registering -/

/-- A registration, or a lookup, which may cache a factory. `bound` is what an import path leads to at the moment of its
registration; decorators register the path of a function that is not yet bound. A manifest's tool comes with the object at
its import path. -/
inductive ToolAction (ν : Type) where
  | registerClass (name : String) (cls : ν)
  | registerToolFactory (name path : String) (bound : Option (ToolFactory ν))
  | registerToolFactoryCallable (name : String) (factory : ToolFactory ν)
  | loadTool (name path : String) (object : PyObject ν)
  | getToolInstance (name : String)
  deriving DecidableEq, Repr

/-- Enters the registry that a registration made, and the implementation if it is the first one of its name. -/
def enter (s : ToolCatalogue ν) (name : String) (implementation : Option ν) :
    Except Exn (ToolRegistry ν) → ToolCatalogue ν
  | .error _ => s
  | .ok registry => { s with registry,first := s.first.setDefault name implementation }

/-- The module that the loader makes for a tool object, before it registers the path of its factory. -/
def publish (s : ToolCatalogue ν) (name : String) : PyObject ν → ToolCatalogue ν
  | .toolObject cls object =>
    { s with dynamicTools := s.dynamicTools.set (ToolRegistry.dynamicToolPath name) (.recreate cls object) }
  | _ => s

def pathImplementation (rt : ToolImports ν) (s : ToolCatalogue ν) (path : String) : Option ν :=
  match s.importPath rt path with
  | .ok (some factory) => rt.implementation factory
  | _ => none

def objectImplementation (rt : ToolImports ν) : PyObject ν → Option ν
  | .toolClass cls => rt.implementation (.construct cls)
  | .toolObject cls object => rt.implementation (.recreate cls object)
  | _ => none

def step (rt : ToolImports ν) (s : ToolCatalogue ν) : ToolAction ν → Option (ToolCatalogue ν)
  | .registerClass name cls =>
    some (s.enter name (rt.implementation (.construct cls)) (s.registry.registerClass name cls))
  | .registerToolFactory name path bound =>
    some (s.enter name (s.pathImplementation rt path) (s.registry.registerToolFactory bound name path))
  | .registerToolFactoryCallable name factory =>
    some (s.enter name (rt.implementation factory) (.ok (s.registry.registerToolFactoryCallable name factory)))
  | .loadTool name path object =>
    some ((s.publish name object).enter name (objectImplementation rt object) (s.registry.loadTool name path object))
  | .getToolInstance name => some (s.getToolInstance rt name).2

/-! ### Agreement -/

variable {rt : ToolImports ν} {s t : ToolCatalogue ν} {name : String}

def Listed (s : ToolCatalogue ν) (name : String) : Prop := name ∈ s.availableToolFactories.map Prod.fst

/-- All ways to look a name up agree on whether there is such a tool, and that it is the one that was registered first. -/
structure OneImplementation (rt : ToolImports ν) (s : ToolCatalogue ν) : Prop where
  absent : ∀ name, s.first.get? name = none → (s.getClass name).toOption = none ∧
    (s.getToolInstance rt name).1.toOption = none ∧ s.hasTool name = false ∧ ¬s.Listed name
  present : ∀ name first, s.first.get? name = some first → ∃ cls, first = some cls ∧ s.getClass name = .ok cls ∧
    (s.getToolInstance rt name).1 = .ok cls ∧ s.hasTool name = true ∧ s.Listed name ∧
    ∀ path, s.registry.toolFactories.get? name = some path → s.pathImplementation rt path = some cls

/-- The maps hold nothing of a name, or its class with a cached factory of that class, and no path of another. -/
def TidyAt (rt : ToolImports ν) (s : ToolCatalogue ν) (name : String) : Prop :=
  match s.first.get? name with
  | none => s.registry.nodes.get? name = none ∧ s.registry.toolFactories.get? name = none ∧
    s.registry.toolFactoryCache.get? name = none
  | some first => ∃ cls factory, first = some cls ∧ s.registry.nodes.get? name = some cls ∧
    s.registry.toolFactoryCache.get? name = some factory ∧ rt.implementation factory = some cls ∧
    ∀ path, s.registry.toolFactories.get? name = some path → s.pathImplementation rt path = some cls

/-- A registration is refused, or it is the first of its name and the manifest's of a class that can be instantiated, or it
gives the class that the name has anyway. -/
def Careful (rt : ToolImports ν) (s : ToolCatalogue ν) : ToolAction ν → Prop
  | .registerClass name _ => s.registry.nodes.get? name ≠ none
  | .registerToolFactory name path bound =>
    s.registry.toolFactories.get? name = none → ∃ cls, s.registry.nodes.get? name = some cls ∧
      (∀ factory, bound = some factory → rt.implementation factory = some cls) ∧ s.pathImplementation rt path = some cls
  | .registerToolFactoryCallable name factory =>
    ∃ cls, s.registry.nodes.get? name = some cls ∧ rt.implementation factory = some cls
  | .loadTool name _ (.toolClass cls) =>
    rt.implementation (.construct cls) = some cls ∧ ∀ known, s.registry.nodes.get? name = some known → known = cls
  | .loadTool name _ (.toolObject cls _) =>
    (∀ j, s.registry.toolFactories.get? j = some (ToolRegistry.dynamicToolPath name) →
      s.registry.nodes.get? j = some cls) ∧
    (s.registry.toolFactories.get? name = none → s.registry.nodes.get? name = some cls)
  | .loadTool _ _ _ => True
  | .getToolInstance _ => True

theorem call_toOption (rt : ToolImports ν) (name : String) (factory : ToolFactory ν) :
    (rt.call name factory).toOption = rt.implementation factory := by
  cases factory with
  | construct cls =>
    simp only [ToolImports.implementation,ToolImports.call]
    cases rt.construct cls with
    | error e => rfl
    | ok u =>
      dsimp only
      split
      · rfl
      · rfl
  | recreate cls object => rfl
  | function f =>
    simp only [ToolImports.implementation,ToolImports.call]
    cases rt.make f with
    | error e => rfl
    | ok made =>
      cases made with
      | none => rfl
      | some cls => rfl

theorem implementation_construct {cls made : ν} (makes : rt.implementation (.construct cls) = some made) : made = cls := by
  simp only [ToolImports.implementation,ToolImports.call] at makes
  split at makes
  · cases makes
  · split at makes
    · cases makes
      rfl
    · cases makes

theorem listed_iff : s.Listed name ↔
    s.registry.toolFactories.get? name ≠ none ∨ s.registry.toolFactoryCache.get? name ≠ none := by
  have paths : name ∈ (s.registry.toolFactories.items.insertionSort fun a b => a.1 ≤ b.1).map Prod.fst ↔
      s.registry.toolFactories.get? name ≠ none := by
    rw [((List.perm_insertionSort _ s.registry.toolFactories.items).map Prod.fst).mem_iff,← Option.isSome_iff_ne_none]
    exact OrderedDict.mem_keys _ _
  have cached (j : String) : j ∈ s.registry.toolFactoryCache.keys.insertionSort (fun a b => a ≤ b) ↔
      s.registry.toolFactoryCache.get? j ≠ none := by
    rw [(List.perm_insertionSort _ s.registry.toolFactoryCache.keys).mem_iff,← Option.isSome_iff_ne_none]
    exact OrderedDict.mem_keys _ _
  simp only [Listed,availableToolFactories,List.map_append,List.mem_append,paths,List.map_map,List.mem_map,
    List.mem_filter,cached,Function.comp]
  constructor
  · rintro (here | ⟨j,⟨there,-⟩,rfl⟩)
    · exact .inl here
    · exact .inr there
  · rintro (here | there)
    · exact .inl here
    · by_cases here : s.registry.toolFactories.get? name = none
      · exact .inr ⟨name,⟨there,by rw [here]; rfl⟩,rfl⟩
      · exact .inl here

theorem instance_toOption :
    (s.getToolInstance rt name).1.toOption = (s.resolve rt name).toOption.bind rt.implementation := by
  cases resolved : s.resolve rt name with
  | error e =>
    simp only [getToolInstance,resolved]
    rfl
  | ok factory =>
    simp only [getToolInstance,resolved,call_toOption]
    rfl

theorem resolve_cached {factory : ToolFactory ν} (cached : s.registry.toolFactoryCache.get? name = some factory) :
    s.resolve rt name = .ok factory := by
  simp only [resolve,cached]

theorem resolve_absent (nodes : s.registry.nodes.get? name = none) (paths : s.registry.toolFactories.get? name = none)
    (cached : s.registry.toolFactoryCache.get? name = none) :
    s.resolve rt name = .error (toolFactoryResolutionError name "factory not registered") := by
  simp only [resolve,cached,paths,nodes]

theorem TidyAt.absent (tidy : s.TidyAt rt name) (unknown : s.first.get? name = none) :
    s.registry.nodes.get? name = none ∧ s.registry.toolFactories.get? name = none ∧
      s.registry.toolFactoryCache.get? name = none := by
  rw [TidyAt,unknown] at tidy
  exact tidy

theorem TidyAt.present {first : Option ν} (tidy : s.TidyAt rt name) (known : s.first.get? name = some first) :
    ∃ cls factory, first = some cls ∧ s.registry.nodes.get? name = some cls ∧
      s.registry.toolFactoryCache.get? name = some factory ∧ rt.implementation factory = some cls ∧
      ∀ path, s.registry.toolFactories.get? name = some path → s.pathImplementation rt path = some cls := by
  rw [TidyAt,known] at tidy
  exact tidy

theorem TidyAt.of_absent (unknown : s.first.get? name = none) (nodes : s.registry.nodes.get? name = none)
    (paths : s.registry.toolFactories.get? name = none) (cached : s.registry.toolFactoryCache.get? name = none) :
    s.TidyAt rt name := by
  rw [TidyAt,unknown]
  exact ⟨nodes,paths,cached⟩

theorem TidyAt.of_present {cls : ν} {factory : ToolFactory ν} (known : s.first.get? name = some (some cls))
    (nodes : s.registry.nodes.get? name = some cls) (cached : s.registry.toolFactoryCache.get? name = some factory)
    (makes : rt.implementation factory = some cls)
    (paths : ∀ path, s.registry.toolFactories.get? name = some path → s.pathImplementation rt path = some cls) :
    s.TidyAt rt name := by
  rw [TidyAt,known]
  exact ⟨cls,factory,rfl,nodes,cached,makes,paths⟩

/-- A class that is registered was registered first, and its name is known. -/
theorem TidyAt.of_class {cls : ν} (tidy : s.TidyAt rt name) (known : s.registry.nodes.get? name = some cls) :
    s.first.get? name = some (some cls) ∧ ∃ factory, s.registry.toolFactoryCache.get? name = some factory ∧
      rt.implementation factory = some cls ∧
      ∀ path, s.registry.toolFactories.get? name = some path → s.pathImplementation rt path = some cls := by
  cases first : s.first.get? name with
  | none => cases (tidy.absent first).1.symm.trans known
  | some implementation =>
    obtain ⟨other,factory,rfl,same,rest⟩ := tidy.present first
    cases same.symm.trans known
    exact ⟨rfl,factory,rest⟩

theorem tidy_agrees (tidy : ∀ name, s.TidyAt rt name) : s.OneImplementation rt := by
  constructor
  · intro name unknown
    obtain ⟨nodes,paths,cached⟩ := (tidy name).absent unknown
    refine ⟨?_,?_,?_,fun listed => ?_⟩
    · rw [getClass,nodes]
      rfl
    · rw [instance_toOption,resolve_absent nodes paths cached]
      rfl
    · rw [hasTool,nodes,paths,cached]
      rfl
    · rcases listed_iff.mp listed with here | here
      · exact here paths
      · exact here cached
  · intro name first known
    obtain ⟨cls,factory,rfl,nodes,cached,makes,paths⟩ := (tidy name).present known
    refine ⟨cls,rfl,?_,?_,?_,?_,paths⟩
    · rw [getClass,nodes]
    · refine ExceptRules.toOption_eq_some.mp ?_
      rw [instance_toOption,resolve_cached cached]
      exact makes
    · rw [hasTool,cached,Option.isSome_some,Bool.or_true,Bool.true_or]
    · refine listed_iff.mpr (.inr ?_)
      rw [cached]
      exact Option.some_ne_none factory

/-- What agreement says of a name that is known. -/
theorem OneImplementation.known {first : Option ν} (agrees : s.OneImplementation rt)
    (known : s.first.get? name = some first) : ∃ cls, s.registry.nodes.get? name = some cls ∧
      (∀ factory, s.registry.toolFactoryCache.get? name = some factory → rt.implementation factory = some cls) ∧
      (∀ path, s.registry.toolFactories.get? name = some path → s.pathImplementation rt path = some cls) ∧
      (s.registry.toolFactories.get? name ≠ none ∨ s.registry.toolFactoryCache.get? name ≠ none) := by
  obtain ⟨cls,-,classed,made,-,listed,paths⟩ := agrees.present name first known
  refine ⟨cls,?_,fun factory cached => ?_,paths,listed_iff.mp listed⟩
  · rw [getClass] at classed
    split at classed
    · next found =>
      cases classed
      exact found
    · cases classed
  · have option := ExceptRules.toOption_eq_some.mpr made
    rw [instance_toOption,resolve_cached cached] at option
    exact option

theorem pathImplementation_congr {path : String} (same : t.dynamicTools.get? path = s.dynamicTools.get? path) :
    t.pathImplementation rt path = s.pathImplementation rt path := by
  simp only [pathImplementation,importPath,same]

theorem TidyAt.congr (tidy : s.TidyAt rt name) (first : t.first.get? name = s.first.get? name)
    (nodes : t.registry.nodes.get? name = s.registry.nodes.get? name)
    (paths : t.registry.toolFactories.get? name = s.registry.toolFactories.get? name)
    (cached : t.registry.toolFactoryCache.get? name = s.registry.toolFactoryCache.get? name)
    (implementations : ∀ path, s.registry.toolFactories.get? name = some path →
      t.pathImplementation rt path = s.pathImplementation rt path) : t.TidyAt rt name := by
  cases known : s.first.get? name with
  | none =>
    obtain ⟨noClass,noPath,noCache⟩ := tidy.absent known
    exact .of_absent (first.trans known) (nodes.trans noClass) (paths.trans noPath) (cached.trans noCache)
  | some implementation =>
    obtain ⟨cls,factory,rfl,hasClass,hasCache,makes,leads⟩ := tidy.present known
    refine .of_present (first.trans known) (nodes.trans hasClass) (cached.trans hasCache) makes fun path found => ?_
    have before := paths.symm.trans found
    exact (implementations path before).trans (leads path before)

/-! ### One step -/

theorem enter_first (s : ToolCatalogue ν) (name : String) (implementation : Option ν) (registry : ToolRegistry ν)
    (j : String) : (s.enter name implementation (.ok registry)).first.get? j =
      (s.first.get? j).or (if name = j then some implementation else none) :=
  OrderedDict.get?_setDefault _ _ _ _

/-- The first registration of a name is remembered. -/
theorem enter_first_known {implementation first : Option ν} {registry : ToolRegistry ν} {j : String}
    (known : s.first.get? j = some first) :
    (s.enter name implementation (.ok registry)).first.get? j = s.first.get? j := by
  rw [enter_first,known]
  rfl

theorem enter_first_other {implementation : Option ν} {registry : ToolRegistry ν} {j : String} (other : name ≠ j) :
    (s.enter name implementation (.ok registry)).first.get? j = s.first.get? j := by
  rw [enter_first,if_neg other,Option.or_none]

/-- A registration that is not refused makes its name known. -/
theorem enter_known (s : ToolCatalogue ν) (name : String) (implementation : Option ν) (registry : ToolRegistry ν) :
    ∃ first, (s.enter name implementation (.ok registry)).first.get? name = some first := by
  rw [enter_first,if_pos rfl]
  cases s.first.get? name with
  | none => exact ⟨implementation,rfl⟩
  | some old => exact ⟨old,rfl⟩

/-- What loading a tool object leaves: the module of its factory, and every class and path that was there. -/
theorem loadObject_result {path : String} {cls object : ν}
    (stepped : s.step rt (.loadTool name path (.toolObject cls object)) = some t) :
    t.dynamicTools = (s.publish name (.toolObject cls object)).dynamicTools ∧ t.registry.nodes = s.registry.nodes ∧
      (∀ j first, s.first.get? j = some first → t.first.get? j = some first) ∧
      ∀ j path, s.registry.toolFactories.get? j = some path → t.registry.toolFactories.get? j = some path := by
  obtain rfl := Option.some.inj stepped
  simp only [ToolRegistry.loadTool]
  cases known : s.registry.toolFactories.get? name with
  | some old =>
    by_cases same : old = ToolRegistry.dynamicToolPath name
    · subst same
      rw [ToolRegistry.registerToolFactory_known known]
      exact ⟨rfl,rfl,fun j first found => OrderedDict.get?_setDefault_known found _ _,fun j path found => found⟩
    · rw [ToolRegistry.registerToolFactory_conflict known same]
      exact ⟨rfl,rfl,fun j first found => found,fun j path found => found⟩
  | none =>
    rw [ToolRegistry.registerToolFactory_fresh known]
    refine ⟨rfl,rfl,fun j first found => OrderedDict.get?_setDefault_known found _ _,fun j path found => ?_⟩
    refine (OrderedDict.get?_set_other _ _ ?_).trans found
    rintro rfl
    cases known.symm.trans found

/-- Looking a tool up changes nothing: its factory is cached already. -/
theorem getToolInstance_same (rt : ToolImports ν) (name : String) (known : s.TidyAt rt name) :
    (s.getToolInstance rt name).2 = s := by
  cases first : s.first.get? name with
  | none =>
    obtain ⟨nodes,paths,cached⟩ := known.absent first
    simp only [getToolInstance,resolve_absent nodes paths cached]
  | some implementation =>
    obtain ⟨cls,factory,-,-,cached,-⟩ := known.present first
    simp only [getToolInstance,resolve_cached cached,ToolRegistry.registerToolFactoryCallable,
      OrderedDict.set_eq_self cached]

section Steps

variable (tidy : ∀ name, s.TidyAt rt name)

include tidy

/-- Only known names have paths. -/
theorem path_known {path : String} (found : s.registry.toolFactories.get? name = some path) :
    ∃ first, s.first.get? name = some first := by
  cases known : s.first.get? name with
  | some first => exact ⟨first,rfl⟩
  | none => cases ((tidy name).absent known).2.1.symm.trans found

theorem unknown_of_class (none_ : s.registry.nodes.get? name = none) : s.first.get? name = none := by
  cases known : s.first.get? name with
  | none => rfl
  | some first =>
    obtain ⟨cls,-,-,hasClass,-⟩ := (tidy name).present known
    cases none_.symm.trans hasClass

theorem registerClass_careful {cls : ν} (stepped : s.step rt (.registerClass name cls) = some t) :
    (t.OneImplementation rt → s.Careful rt (.registerClass name cls)) ∧
      (s.Careful rt (.registerClass name cls) → ∀ j, t.TidyAt rt j) := by
  obtain rfl := Option.some.inj stepped
  cases known : s.registry.nodes.get? name with
  | some old =>
    rw [ToolRegistry.registerClass_known known]
    exact ⟨fun _ => by rw [Careful,known]; exact Option.some_ne_none old,fun _ => tidy⟩
  | none =>
    have unknown := unknown_of_class tidy known
    obtain ⟨-,noPath,noCache⟩ := (tidy name).absent unknown
    rw [ToolRegistry.registerClass_fresh known]
    constructor
    · intro agrees
      obtain ⟨implementation,first⟩ := enter_known s name (rt.implementation (.construct cls))
        { s.registry with nodes := s.registry.nodes.set name cls }
      obtain ⟨-,-,-,-,path | cached⟩ := agrees.known first
      · exact absurd noPath path
      · exact absurd noCache cached
    · intro careful
      exact absurd known careful

theorem registerToolFactory_careful {path : String} {bound : Option (ToolFactory ν)}
    (stepped : s.step rt (.registerToolFactory name path bound) = some t) :
    (t.OneImplementation rt → s.Careful rt (.registerToolFactory name path bound)) ∧
      (s.Careful rt (.registerToolFactory name path bound) → ∀ j, t.TidyAt rt j) := by
  obtain rfl := Option.some.inj stepped
  cases known : s.registry.toolFactories.get? name with
  | some old =>
    refine ⟨fun _ none_ => ?_,fun _ j => ?_⟩
    · cases known.symm.trans none_
    · by_cases same : old = path
      · subst same
        rw [ToolRegistry.registerToolFactory_known known]
        obtain ⟨first,found⟩ := path_known tidy known
        refine (tidy j).congr ?_ rfl rfl rfl fun _ _ => rfl
        by_cases here : name = j
        · subst here
          exact enter_first_known found
        · exact enter_first_other here
      · rw [ToolRegistry.registerToolFactory_conflict known same]
        exact tidy j
  | none =>
    rw [ToolRegistry.registerToolFactory_fresh known]
    constructor
    · intro agrees _
      obtain ⟨implementation,first⟩ := enter_known s name (s.pathImplementation rt path) { s.registry with
        toolFactories := s.registry.toolFactories.set name path
        toolFactoryCache := bound.elim s.registry.toolFactoryCache (s.registry.toolFactoryCache.set name) }
      obtain ⟨cls,hasClass,cached,leads,-⟩ := agrees.known first
      refine ⟨cls,hasClass,fun factory same => ?_,leads path (OrderedDict.get?_set_same _ _ _)⟩
      subst same
      exact cached factory (OrderedDict.get?_set_same _ _ _)
    · intro careful j
      obtain ⟨cls,hasClass,makes,leads⟩ := careful known
      by_cases here : name = j
      · subst here
        obtain ⟨first,factory,cached,makes',-⟩ := (tidy name).of_class hasClass
        cases bound with
        | none =>
          refine .of_present ((enter_first_known first).trans first) hasClass cached makes' fun other found => ?_
          cases (OrderedDict.get?_set_same s.registry.toolFactories name path).symm.trans found
          exact leads
        | some made =>
          refine .of_present ((enter_first_known first).trans first) hasClass (OrderedDict.get?_set_same _ _ _)
            (makes made rfl) fun other found => ?_
          cases (OrderedDict.get?_set_same s.registry.toolFactories name path).symm.trans found
          exact leads
      · refine (tidy j).congr (enter_first_other here) rfl (OrderedDict.get?_set_other _ _ here) ?_ fun _ _ => rfl
        cases bound with
        | none => rfl
        | some made => exact OrderedDict.get?_set_other _ _ here

theorem registerToolFactoryCallable_careful {factory : ToolFactory ν}
    (stepped : s.step rt (.registerToolFactoryCallable name factory) = some t) :
    (t.OneImplementation rt → s.Careful rt (.registerToolFactoryCallable name factory)) ∧
      (s.Careful rt (.registerToolFactoryCallable name factory) → ∀ j, t.TidyAt rt j) := by
  obtain rfl := Option.some.inj stepped
  constructor
  · intro agrees
    obtain ⟨implementation,first⟩ := enter_known s name (rt.implementation factory)
      (s.registry.registerToolFactoryCallable name factory)
    obtain ⟨cls,hasClass,cached,-,-⟩ := agrees.known first
    exact ⟨cls,hasClass,cached factory (OrderedDict.get?_set_same _ _ _)⟩
  · rintro ⟨cls,hasClass,makes⟩ j
    by_cases here : name = j
    · subst here
      obtain ⟨first,-,-,-,leads⟩ := (tidy name).of_class hasClass
      exact .of_present ((enter_first_known first).trans first) hasClass (OrderedDict.get?_set_same _ _ _) makes leads
    · exact (tidy j).congr (enter_first_other here) rfl rfl (OrderedDict.get?_set_other _ _ here) fun _ _ => rfl

theorem loadClass_careful {path : String} {cls : ν} (stepped : s.step rt (.loadTool name path (.toolClass cls)) = some t) :
    (t.OneImplementation rt → s.Careful rt (.loadTool name path (.toolClass cls))) ∧
      (s.Careful rt (.loadTool name path (.toolClass cls)) → ∀ j, t.TidyAt rt j) := by
  obtain rfl := Option.some.inj stepped
  constructor
  · intro agrees
    obtain ⟨implementation,first⟩ := enter_known (s.publish name (.toolClass cls)) name
      (objectImplementation rt (.toolClass cls)) { s.registry with
        nodes := if (s.registry.nodes.get? name).isSome then s.registry.nodes else s.registry.nodes.set name cls
        toolFactoryCache := s.registry.toolFactoryCache.set name (.construct cls) }
    obtain ⟨made,hasClass,cached,-,-⟩ := agrees.known first
    have makes := cached (.construct cls) (OrderedDict.get?_set_same _ _ _)
    obtain rfl := implementation_construct makes
    refine ⟨makes,fun known found => ?_⟩
    have kept : (if (s.registry.nodes.get? name).isSome then s.registry.nodes
        else s.registry.nodes.set name made).get? name = some made := hasClass
    rw [found] at kept
    cases found.symm.trans kept
    rfl
  · rintro ⟨makes,own⟩ j
    by_cases here : name = j
    · subst here
      cases known : s.registry.nodes.get? name with
      | none =>
        have unknown := unknown_of_class tidy known
        obtain ⟨-,noPath,-⟩ := (tidy name).absent unknown
        refine .of_present ?_ ?_ (OrderedDict.get?_set_same _ _ _) makes fun other found => ?_
        · refine (enter_first _ _ _ _ _).trans ?_
          have unknown' : (s.publish name (.toolClass cls)).first.get? name = none := unknown
          rw [unknown',if_pos rfl]
          exact congrArg some makes
        · refine (congrArg (OrderedDict.get? · name) (if_neg ?_)).trans (OrderedDict.get?_set_same _ _ _)
          rw [known]
          exact Bool.false_ne_true
        · cases noPath.symm.trans found
      | some old =>
        obtain rfl := own old known
        obtain ⟨first,-,-,-,leads⟩ := (tidy name).of_class known
        refine .of_present ((enter_first_known first).trans first) ?_
          (OrderedDict.get?_set_same _ _ _) makes leads
        refine (congrArg (OrderedDict.get? · name) (if_pos ?_)).trans known
        rw [known]
        rfl
    · have others : (if (s.registry.nodes.get? name).isSome then s.registry.nodes
          else s.registry.nodes.set name cls).get? j = s.registry.nodes.get? j := by
        split
        · rfl
        · exact OrderedDict.get?_set_other _ _ here
      exact (tidy j).congr (enter_first_other here) others rfl (OrderedDict.get?_set_other _ _ here) fun _ _ => rfl

/-- Only paths into the module of the object lead elsewhere than before. -/
theorem publish_tidy {cls object : ν} (own : ∀ j,
      s.registry.toolFactories.get? j = some (ToolRegistry.dynamicToolPath name) → s.registry.nodes.get? j = some cls)
    (j : String) : (s.publish name (.toolObject cls object)).TidyAt rt j := by
  cases known : s.first.get? j with
  | none =>
    obtain ⟨noClass,noPath,noCache⟩ := (tidy j).absent known
    exact .of_absent known noClass noPath noCache
  | some implementation =>
    obtain ⟨made,factory,rfl,hasClass,cached,makes,leads⟩ := (tidy j).present known
    refine .of_present known hasClass cached makes fun path found => ?_
    by_cases here : ToolRegistry.dynamicToolPath name = path
    · subst here
      cases hasClass.symm.trans (own j found)
      simp only [pathImplementation,importPath,publish,OrderedDict.get?_set_same]
      rfl
    · exact (pathImplementation_congr (OrderedDict.get?_set_other _ _ here)).trans (leads path found)

theorem loadObject_careful {path : String} {cls object : ν}
    (stepped : s.step rt (.loadTool name path (.toolObject cls object)) = some t) :
    (t.OneImplementation rt → s.Careful rt (.loadTool name path (.toolObject cls object))) ∧
      (s.Careful rt (.loadTool name path (.toolObject cls object)) → ∀ j, t.TidyAt rt j) := by
  have published : (s.publish name (.toolObject cls object)).pathImplementation rt (ToolRegistry.dynamicToolPath name) =
      some cls := by
    simp only [pathImplementation,importPath,publish,OrderedDict.get?_set_same]
    rfl
  -- loading an object is registering the path of its factory, once its module has been made
  have factory : (s.publish name (.toolObject cls object)).step rt
      (.registerToolFactory name (ToolRegistry.dynamicToolPath name) (some (.recreate cls object))) = some t := by
    rw [step,published]
    exact stepped
  have own_of (agrees : t.OneImplementation rt) : ∀ j,
      s.registry.toolFactories.get? j = some (ToolRegistry.dynamicToolPath name) →
        s.registry.nodes.get? j = some cls := by
    intro j found
    obtain ⟨first,known⟩ := path_known tidy found
    obtain ⟨dynamicTools,nodes,kept,paths⟩ := loadObject_result stepped
    obtain ⟨made,hasClass,-,leads,-⟩ := agrees.known (kept j first known)
    have same := (pathImplementation_congr (s := s.publish name (.toolObject cls object)) (t := t)
      (congrArg (OrderedDict.get? · (ToolRegistry.dynamicToolPath name)) dynamicTools)).symm.trans
        (leads _ (paths j _ found))
    cases published.symm.trans same
    rw [nodes] at hasClass
    exact hasClass
  constructor
  · intro agrees
    have own := own_of agrees
    refine ⟨own,fun fresh => ?_⟩
    obtain ⟨made,hasClass,makes,-⟩ := (registerToolFactory_careful (publish_tidy tidy own) factory).1 agrees fresh
    cases makes (.recreate cls object) rfl
    exact hasClass
  · rintro ⟨own,named⟩
    refine (registerToolFactory_careful (publish_tidy tidy own) factory).2 fun fresh => ?_
    refine ⟨cls,named fresh,fun made same => ?_,published⟩
    cases same
    rfl

end Steps

theorem step_careful (s : ToolCatalogue ν) (a : ToolAction ν) (t : ToolCatalogue ν) (tidy : ∀ name, s.TidyAt rt name)
    (stepped : s.step rt a = some t) :
    (t.OneImplementation rt → s.Careful rt a) ∧ (s.Careful rt a → ∀ name, t.TidyAt rt name) := by
  cases a with
  | registerClass name cls => exact registerClass_careful tidy stepped
  | registerToolFactory name path bound => exact registerToolFactory_careful tidy stepped
  | registerToolFactoryCallable name factory => exact registerToolFactoryCallable_careful tidy stepped
  | loadTool name path object =>
    cases object with
    | toolClass cls => exact loadClass_careful tidy stepped
    | toolObject cls object => exact loadObject_careful tidy stepped
    | otherClass cls =>
      obtain rfl := Option.some.inj stepped
      exact ⟨fun _ => trivial,fun _ => tidy⟩
    | function f =>
      obtain rfl := Option.some.inj stepped
      exact ⟨fun _ => trivial,fun _ => tidy⟩
    | other object =>
      obtain rfl := Option.some.inj stepped
      exact ⟨fun _ => trivial,fun _ => tidy⟩
  | getToolInstance name =>
    obtain rfl := Option.some.inj stepped
    refine ⟨fun _ => trivial,fun _ => ?_⟩
    rw [getToolInstance_same rt name (tidy name)]
    exact tidy

theorem step_careful_iff (s : ToolCatalogue ν) (a : ToolAction ν) (t : ToolCatalogue ν)
    (tidy : ∀ name, s.TidyAt rt name) (stepped : s.step rt a = some t) : t.OneImplementation rt ↔ s.Careful rt a := by
  obtain ⟨needed,enough⟩ := step_careful s a t tidy stepped
  exact ⟨needed,fun careful => tidy_agrees (enough careful)⟩

theorem careful_tidy (s : ToolCatalogue ν) (a : ToolAction ν) (t : ToolCatalogue ν) (tidy : ∀ name, s.TidyAt rt name)
    (careful : s.Careful rt a) (stepped : s.step rt a = some t) : ∀ name, t.TidyAt rt name :=
  (step_careful s a t tidy stepped).2 careful

theorem step_enabled (rt : ToolImports ν) (s : ToolCatalogue ν) (a : ToolAction ν) : ∃ t, s.step rt a = some t := by
  cases a with
  | registerClass name cls => exact ⟨_,rfl⟩
  | registerToolFactory name path bound => exact ⟨_,rfl⟩
  | registerToolFactoryCallable name factory => exact ⟨_,rfl⟩
  | loadTool name path object => exact ⟨_,rfl⟩
  | getToolInstance name => exact ⟨_,rfl⟩

theorem empty_tidy (rt : ToolImports ν) (name : String) : ({} : ToolCatalogue ν).TidyAt rt name :=
  .of_absent rfl rfl rfl rfl

/-- All along a sequence of registrations and lookups, all ways to look a tool up agree on the implementation that was
registered first, exactly if every registration is careful. -/
theorem oneImplementation_iff (rt : ToolImports ν) (actions : List (ToolAction ν)) :
    (∀ first rest u, actions = first ++ rest → run (step rt) first {} = some u → u.OneImplementation rt) ↔
      Throughout (step rt) (Careful rt) actions {} := by
  obtain ⟨t,ran⟩ := run_total (step_enabled rt) actions {}
  exact throughout_iff_of_strong step_careful_iff careful_tidy ran (empty_tidy rt) (tidy_agrees (empty_tidy rt))

/-- Classes are numbers, all of them tools. -/
def numberedTools : ToolImports Nat where
  importFactory path := .error (moduleNotFound path)
  isTool _ := true
  construct _ := .ok ()
  make _ := .ok none

/-- Two manifests have different classes for one name: the first stays the registered class, the second is instantiated. -/
theorem secondClass_instantiated :
    ¬∀ (rt : ToolImports Nat) (actions : List (ToolAction Nat)) (s : ToolCatalogue Nat),
      run (step rt) actions {} = some s → s.OneImplementation rt := by
  intro claim
  have agrees := claim numberedTools
    [.loadTool "writer" "pack.first:Writer" (.toolClass 1),.loadTool "writer" "pack.second:Writer" (.toolClass 2)] _ rfl
  obtain ⟨cls,first,-,made,-⟩ := agrees.present "writer" (some 1) rfl
  cases first
  cases made

end ToolCatalogue

end IceOS
