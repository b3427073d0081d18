import IceOS.ExceptRules
import IceOS.PluginLoading

/-! What registering a component, or importing a module, does to the registry: what it leaves behind under its own name,
and what it leaves alone under all others. -/
namespace IceOS

variable {ν : Type}

namespace Registry

variable {r s t : Registry ν} {c : ComponentEntry} {o : Option (PyObject ν)} {module : String}

/-! ### What one registration leaves alone -/

/-- The import paths that are registered stay. -/
structure Extends (r s : Registry ν) : Prop where
  factories : ∀ n x, r.tools.toolFactories.get? n = some x → s.tools.toolFactories.get? n = some x
  agents : ∀ n x, r.agents.get? n = some x → s.agents.get? n = some x

theorem Extends.refl (r : Registry ν) : r.Extends r := ⟨fun _ _ found => found,fun _ _ found => found⟩

theorem Extends.trans (first : r.Extends s) (second : s.Extends t) : r.Extends t where
  factories n x found := second.factories n x (first.factories n x found)
  agents n x found := second.agents n x (first.agents n x found)

/-- The entries of a name stay. Another factory is only cached when an import path is first registered for the name. -/
structure Keeps (name : String) (r s : Registry ν) : Prop where
  nodes : s.tools.nodes.get? name = r.tools.nodes.get? name
  instances : s.instances.get? name = r.instances.get? name
  chains : s.chains.get? name = r.chains.get? name
  cache : s.tools.toolFactoryCache.get? name = r.tools.toolFactoryCache.get? name ∨
    r.tools.toolFactories.get? name = none ∧ s.tools.toolFactories.get? name ≠ none

theorem Keeps.refl (name : String) (r : Registry ν) : Keeps name r r := ⟨rfl,rfl,rfl,.inl rfl⟩

theorem Keeps.trans {name : String} (first : Keeps name r s) (further : s.Extends t) (second : Keeps name s t)
    (early : r.Extends s) : Keeps name r t where
  nodes := second.nodes.trans first.nodes
  instances := second.instances.trans first.instances
  chains := second.chains.trans first.chains
  cache := by
    rcases first.cache with same | ⟨absent,present⟩
    · rcases second.cache with same' | ⟨absent',present'⟩
      · exact .inl (same'.trans same)
      · refine .inr ⟨?_,present'⟩
        cases found : r.tools.toolFactories.get? name with
        | none => rfl
        | some x => cases (early.factories name x found).symm.trans absent'
    · obtain ⟨x,found⟩ := Option.ne_none_iff_exists'.mp present
      refine .inr ⟨absent,?_⟩
      rw [further.factories name x found]
      exact Option.some_ne_none x

/-- What the top-level code of a module does: if it registers no new import path, it does nothing. -/
structure Grown (r s : Registry ν) : Prop extends Extends r s where
  keeps : ∀ name, Keeps name r s
  unchanged : (∀ n, r.tools.toolFactories.get? n = none → s.tools.toolFactories.get? n = none) →
    (∀ n, r.agents.get? n = none → s.agents.get? n = none) → s = r

theorem Grown.refl (r : Registry ν) : r.Grown r := ⟨.refl r,fun name => .refl name r,fun _ _ => rfl⟩

theorem Grown.trans (first : r.Grown s) (second : s.Grown t) : r.Grown t where
  toExtends := first.toExtends.trans second.toExtends
  keeps name := (first.keeps name).trans second.toExtends (second.keeps name) first.toExtends
  unchanged factories agents := by
    have middle : s = r := by
      refine first.unchanged (fun n absent => ?_) fun n absent => ?_
      · cases found : s.tools.toolFactories.get? n with
        | none => rfl
        | some x => cases (factories n absent).symm.trans (second.factories n x found)
      · cases found : s.agents.get? n with
        | none => rfl
        | some x => cases (agents n absent).symm.trans (second.agents n x found)
    subst middle
    exact second.unchanged factories agents

theorem registerAgent_ok {name path : String} (done : r.registerAgent name path = .ok s) :
    r.Grown s ∧ s.agents.get? name = some path := by
  cases found : r.agents.get? name with
  | some old =>
    by_cases same : old = path
    · subst same
      rw [registerAgent,registerPath_known found] at done
      cases done
      exact ⟨.refl r,found⟩
    · rw [registerAgent,registerPath_conflict found same] at done
      cases done
  | none =>
    rw [registerAgent,registerPath_fresh found] at done
    cases done
    refine ⟨⟨⟨fun _ _ known => known,fun n x known => ?_⟩,fun n => ⟨rfl,rfl,rfl,.inl rfl⟩,fun _ none => ?_⟩,
      OrderedDict.get?_set_same _ _ _⟩
    · refine (OrderedDict.get?_set_other _ _ ?_).trans known
      rintro rfl
      cases found.symm.trans known
    · have absent := none name found
      cases (OrderedDict.get?_set_same r.agents name path).symm.trans absent

theorem registerAgent_tools {name path : String} (done : r.registerAgent name path = .ok s) (j : String) :
    s.tools.toolFactories.get? j = r.tools.toolFactories.get? j := by
  obtain ⟨agents,-,rfl⟩ := ExceptRules.map_eq_ok.mp done
  rfl

theorem registerToolFactory_ok {preloaded : Option (ToolFactory ν)} {name path : String}
    (done : r.registerToolFactory preloaded name path = .ok s) :
    r.Grown s ∧ s.tools.toolFactories.get? name = some path ∧
      ∀ j, j ≠ name → s.tools.toolFactories.get? j = r.tools.toolFactories.get? j := by
  cases found : r.tools.toolFactories.get? name with
  | some old =>
    by_cases same : old = path
    · subst same
      rw [registerToolFactory,ToolRegistry.registerToolFactory_known found] at done
      cases done
      exact ⟨.refl r,found,fun _ _ => rfl⟩
    · rw [registerToolFactory,ToolRegistry.registerToolFactory_conflict found same] at done
      cases done
  | none =>
    rw [registerToolFactory,ToolRegistry.registerToolFactory_fresh found] at done
    cases done
    have own := OrderedDict.get?_set_same r.tools.toolFactories name path
    refine ⟨⟨⟨fun n x known => ?_,fun _ _ known => known⟩,fun n => ⟨rfl,rfl,rfl,?_⟩,fun none _ => ?_⟩,own,
      fun j other => OrderedDict.get?_set_other _ _ (Ne.symm other)⟩
    · refine (OrderedDict.get?_set_other _ _ ?_).trans known
      rintro rfl
      cases found.symm.trans known
    · by_cases same : name = n
      · subst same
        refine .inr ⟨found,?_⟩
        rw [own]
        exact Option.some_ne_none path
      · cases preloaded with
        | none => exact .inl rfl
        | some factory => exact .inl (OrderedDict.get?_set_other _ _ same)
    · cases own.symm.trans (none name found)

theorem topLevel_grown (module : String) (calls : List (TopLevelCall ν)) (r : Registry ν) :
    r.Grown (topLevel module calls r).2 := by
  induction calls generalizing r with
  | nil => exact .refl r
  | cons c rest ih =>
    cases called : r.call module c with
    | error e =>
      simp only [topLevel,called]
      exact .refl r
    | ok s =>
      simp only [topLevel,called]
      have grown : r.Grown s := by
        cases c with
        | toolFactory name attr bound => exact (registerToolFactory_ok called).1
        | agent name attr => exact (registerAgent_ok called).1
      exact grown.trans (ih s)

/-! ### What a component leaves behind -/

/-- The registry has of a component what loading it puts there. -/
def Holds (r : Registry ν) (c : ComponentEntry) (object : Option (PyObject ν)) : Prop :=
  match c.nodeType,object with
  | .tool,some (.toolClass cls) =>
    r.tools.nodes.get? c.name ≠ none ∧ r.tools.toolFactoryCache.get? c.name = some (.construct cls)
  | .tool,some (.toolObject _ _) => r.tools.toolFactories.get? c.name = some (ToolRegistry.dynamicToolPath c.name)
  | .tool,some _ => False
  | .tool,none => r.instances.get? c.name = some c.importPath
  | .agent,_ => r.agents.get? c.name = some c.importPath
  | .workflow,some object => r.chains.get? c.name = some (.loaded object)
  | .workflow,none => r.chains.get? c.name = some (.stub c.importPath)

/-- Whether a component can be registered. -/
def Admits (r : Registry ν) (c : ComponentEntry) (object : Option (PyObject ν)) : Prop :=
  match c.nodeType,object with
  | .tool,some (.toolClass _) => True
  | .tool,some (.toolObject _ _) => PathFree r.tools.toolFactories c.name (ToolRegistry.dynamicToolPath c.name)
  | .tool,some _ => False
  | .tool,none => True
  | .agent,_ => PathFree r.agents c.name c.importPath
  | .workflow,some _ => r.chains.get? c.name = none
  | .workflow,none => True

/-- A workflow that has been imported; a second one of its name is refused. -/
def LoadsWorkflow (c : ComponentEntry) (object : Option (PyObject ν)) : Prop := c.nodeType = .workflow ∧ object ≠ none

theorem registerAgent_admits {name path : String} (free : PathFree r.agents name path) :
    ∃ s, r.registerAgent name path = .ok s := by
  obtain ⟨agents,done⟩ := registerPath_free ("Agent " ++ name ++ " already registered with different path") free
  exact ⟨{ r with agents },by rw [registerAgent,done]; rfl⟩

theorem registerToolFactory_admits {preloaded : Option (ToolFactory ν)} {name path : String}
    (free : PathFree r.tools.toolFactories name path) : ∃ s, r.registerToolFactory preloaded name path = .ok s := by
  cases found : r.tools.toolFactories.get? name with
  | none => exact ⟨_,by rw [registerToolFactory,ToolRegistry.registerToolFactory_fresh found]; rfl⟩
  | some old =>
    obtain rfl := free old found
    exact ⟨_,by rw [registerToolFactory,ToolRegistry.registerToolFactory_known found]; rfl⟩

/-- A path that has been registered was free. -/
theorem pathFree_of_kept {paths registered : OrderedDict String String} {name path : String}
    (kept : ∀ n x, paths.get? n = some x → registered.get? n = some x) (own : registered.get? name = some path) :
    PathFree paths name path := by
  intro old known
  cases (kept name old known).symm.trans own
  rfl

theorem registerChain_ok {name : String} {chain : PyObject ν} (done : r.registerChain name chain = .ok s) :
    r.chains.get? name = none ∧ s = { r with chains := r.chains.set name (.loaded chain) } := by
  cases found : r.chains.get? name with
  | some old =>
    simp only [registerChain,found] at done
    cases done
  | none =>
    simp only [registerChain,found] at done
    cases done
    exact ⟨rfl,rfl⟩

/-- What registering a component does. -/
theorem enter_ok (done : r.enter c o = .ok s) :
    r.Admits c o ∧ r.Extends s ∧ s.Holds c o ∧ ∀ name, name ≠ c.name →
      Keeps name r s ∧ s.tools.toolFactories.get? name = r.tools.toolFactories.get? name := by
  obtain ⟨nodeType,own,path⟩ := c
  cases nodeType with
  | agent =>
    obtain ⟨grown,holds⟩ := registerAgent_ok done
    refine ⟨pathFree_of_kept grown.agents holds,grown.toExtends,holds,fun name _ => ⟨grown.keeps name,?_⟩⟩
    exact registerAgent_tools done name
  | workflow =>
    cases o with
    | none =>
      cases done
      refine ⟨trivial,⟨fun _ _ known => known,fun _ _ known => known⟩,OrderedDict.get?_set_same _ _ _,fun name other => ?_⟩
      exact ⟨⟨rfl,rfl,OrderedDict.get?_set_other _ _ (Ne.symm other),.inl rfl⟩,rfl⟩
    | some object =>
      obtain ⟨absent,rfl⟩ := registerChain_ok done
      refine ⟨absent,⟨fun _ _ known => known,fun _ _ known => known⟩,OrderedDict.get?_set_same _ _ _,fun name other => ?_⟩
      exact ⟨⟨rfl,rfl,OrderedDict.get?_set_other _ _ (Ne.symm other),.inl rfl⟩,rfl⟩
  | tool =>
    cases o with
    | none =>
      cases done
      refine ⟨trivial,⟨fun _ _ known => known,fun _ _ known => known⟩,OrderedDict.get?_set_same _ _ _,fun name other => ?_⟩
      exact ⟨⟨rfl,OrderedDict.get?_set_other _ _ (Ne.symm other),rfl,.inl rfl⟩,rfl⟩
    | some object =>
      cases object with
      | toolClass cls =>
        cases done
        refine ⟨trivial,⟨fun _ _ known => known,fun _ _ known => known⟩,⟨?_,OrderedDict.get?_set_same _ _ _⟩,
          fun name other => ⟨⟨?_,rfl,rfl,.inl (OrderedDict.get?_set_other _ _ (Ne.symm other))⟩,rfl⟩⟩
        · dsimp only
          split
          · next known => exact Option.isSome_iff_ne_none.mp known
          · rw [OrderedDict.get?_set_same]
            exact Option.some_ne_none cls
        · dsimp only
          split
          · rfl
          · exact OrderedDict.get?_set_other _ _ (Ne.symm other)
      | toolObject cls object =>
        have factory : r.registerToolFactory (some (.recreate cls object)) own (ToolRegistry.dynamicToolPath own) = .ok s :=
          done
        obtain ⟨grown,holds,others⟩ := registerToolFactory_ok factory
        exact ⟨pathFree_of_kept grown.factories holds,grown.toExtends,holds,fun name other =>
          ⟨grown.keeps name,others name other⟩⟩
      | otherClass cls => cases done
      | function f => cases done
      | other object => cases done

theorem enter_ok_iff : (∃ s, r.enter c o = .ok s) ↔ r.Admits c o := by
  refine ⟨fun ⟨s,done⟩ => (enter_ok done).1,fun admits => ?_⟩
  obtain ⟨nodeType,own,path⟩ := c
  cases nodeType with
  | agent => exact registerAgent_admits admits
  | workflow =>
    cases o with
    | none => exact ⟨_,rfl⟩
    | some object =>
      refine ⟨{ r with chains := r.chains.set own (.loaded object) },?_⟩
      have absent : r.chains.get? own = none := admits
      simp only [enter,registerChain,absent]
  | tool =>
    cases o with
    | none => exact ⟨_,rfl⟩
    | some object =>
      cases object with
      | toolClass cls => exact ⟨_,rfl⟩
      | toolObject cls object =>
        have factory : ∃ s, r.registerToolFactory (some (.recreate cls object)) own
            (ToolRegistry.dynamicToolPath own) = .ok s := registerToolFactory_admits admits
        exact factory
      | otherClass cls => exact admits.elim
      | function f => exact admits.elim
      | other object => exact admits.elim

/-- Registering a component again changes nothing, unless it is a workflow that has been imported. -/
theorem enter_again (holds : r.Holds c o) (single : ¬LoadsWorkflow c o) : r.enter c o = .ok r := by
  obtain ⟨nodeType,own,path⟩ := c
  cases nodeType with
  | agent =>
    have known : r.agents.get? own = some path := holds
    have agent : r.registerAgent own path = .ok r := by
      rw [registerAgent,registerPath_known known]
      rfl
    exact agent
  | workflow =>
    cases o with
    | none =>
      have known : r.chains.get? own = some (.stub path) := holds
      simp only [enter,OrderedDict.set_eq_self known]
    | some object => exact absurd ⟨rfl,Option.some_ne_none object⟩ single
  | tool =>
    cases o with
    | none =>
      have known : r.instances.get? own = some path := holds
      simp only [enter,OrderedDict.set_eq_self known]
    | some object =>
      cases object with
      | toolClass cls =>
        obtain ⟨present,cached⟩ := holds
        have known := Option.isSome_iff_ne_none.mpr present
        simp only [enter,ToolRegistry.loadTool,known,if_true,OrderedDict.set_eq_self cached,Except.map]
      | toolObject cls object =>
        have known : r.tools.toolFactories.get? own = some (ToolRegistry.dynamicToolPath own) := holds
        simp only [enter,ToolRegistry.loadTool,ToolRegistry.registerToolFactory_known known,Except.map]
      | otherClass cls => exact holds.elim
      | function f => exact holds.elim
      | other object => exact holds.elim

/-- What is left of a component survives unless another factory is registered for its class. -/
theorem Holds.keep (holds : r.Holds c o) (extended : r.Extends s) (kept : Keeps c.name r s) :
    s.Holds c o ∨ (∃ cls, c.nodeType = .tool ∧ o = some (.toolClass cls)) ∧
      r.tools.toolFactories.get? c.name = none ∧ s.tools.toolFactories.get? c.name ≠ none := by
  obtain ⟨nodeType,own,path⟩ := c
  cases nodeType with
  | agent => exact .inl (extended.agents own path holds)
  | workflow =>
    cases o with
    | none => exact .inl (kept.chains.trans holds)
    | some object => exact .inl (kept.chains.trans holds)
  | tool =>
    cases o with
    | none => exact .inl (kept.instances.trans holds)
    | some object =>
      cases object with
      | toolClass cls =>
        obtain ⟨present,cached⟩ := holds
        rcases kept.cache with same | grown
        · exact .inl ⟨kept.nodes ▸ present,same.trans cached⟩
        · exact .inr ⟨⟨cls,rfl,rfl⟩,grown⟩
      | toolObject cls object => exact .inl (extended.factories own _ holds)
      | otherClass cls => exact holds.elim
      | function f => exact holds.elim
      | other object => exact holds.elim

/-- No other factory is registered where nothing is registered at all. -/
theorem Holds.keep_within (holds : r.Holds c o) (extended : r.Extends s) (kept : Keeps c.name r s)
    (within : s.Extends r) : s.Holds c o := by
  obtain still | ⟨-,absent,present⟩ := holds.keep extended kept
  · exact still
  · obtain ⟨x,found⟩ := Option.ne_none_iff_exists'.mp present
    cases absent.symm.trans (within.factories c.name x found)

/-- A workflow that has been imported cannot be registered again. -/
theorem Holds.single (holds : r.Holds c o) (admits : r.Admits c o) : ¬LoadsWorkflow c o := by
  intro loads
  obtain ⟨nodeType,own,path⟩ := c
  obtain ⟨rfl,present⟩ := loads
  obtain ⟨object,rfl⟩ := Option.ne_none_iff_exists'.mp present
  cases admits.symm.trans holds

/-- The factory that has been cached for a class is another one, and it stays. -/
structure Displaced (r : Registry ν) (c : ComponentEntry) (o : Option (PyObject ν)) : Prop where
  isClass : ∃ cls, c.nodeType = .tool ∧ o = some (.toolClass cls)
  lost : ¬r.Holds c o
  taken : r.tools.toolFactories.get? c.name ≠ none

theorem Holds.displaced (holds : r.Holds c o) (extended : r.Extends s) (kept : Keeps c.name r s) :
    s.Holds c o ∨ s.Displaced c o := by
  by_cases still : s.Holds c o
  · exact .inl still
  · obtain gone | ⟨isClass,-,taken⟩ := holds.keep extended kept
    · exact absurd gone still
    · exact .inr ⟨isClass,still,taken⟩

theorem Displaced.keep (displaced : r.Displaced c o) (extended : r.Extends s) (kept : Keeps c.name r s) :
    s.Displaced c o := by
  obtain ⟨x,found⟩ := Option.ne_none_iff_exists'.mp displaced.taken
  refine ⟨displaced.isClass,fun holds => displaced.lost ?_,?_⟩
  · obtain ⟨nodeType,own,path⟩ := c
    obtain ⟨cls,rfl,rfl⟩ := displaced.isClass
    obtain ⟨present,cached⟩ := holds
    refine ⟨kept.nodes ▸ present,?_⟩
    rcases kept.cache with same | ⟨absent,-⟩
    · exact same.symm.trans cached
    · exact absurd absent displaced.taken
  · rw [extended.factories c.name x found]
    exact Option.some_ne_none x

end Registry

end IceOS
