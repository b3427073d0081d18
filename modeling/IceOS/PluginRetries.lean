import IceOS.PluginEffects

/-! When a manifest can be loaded again: what the first load put into the registry is left alone by the second, and a
load that fails has changed nothing. -/
namespace IceOS

variable {ν : Type}

/-- The object at an import path once its module has been imported. -/
def exported (modules : String → Option (PluginModule ν)) (path : String) : Option (PyObject ν) :=
  (splitImportPath path).bind fun place => (modules place.1).bind fun m => m.attributes place.2

namespace PluginProcess

variable {modules : String → Option (PluginModule ν)} {allowDynamic : Bool} {p q : PluginProcess ν} {c : ComponentEntry}

/-! ### Importing what a component needs -/

/-- The first half of `loadComponent`. -/
def fetch (modules : String → Option (PluginModule ν)) (allowDynamic : Bool) (p : PluginProcess ν) (c : ComponentEntry) :
    Except Exn (Option (PyObject ν)) × PluginProcess ν :=
  if c.imports allowDynamic then ((p.importObject modules c.importPath).1.map some,(p.importObject modules c.importPath).2)
  else (.ok none,p)

/-- The object that a component is registered with. -/
def object (modules : String → Option (PluginModule ν)) (allowDynamic : Bool) (c : ComponentEntry) : Option (PyObject ν) :=
  if c.imports allowDynamic then exported modules c.importPath else none

/-- The module of a component has been imported, if it has to be. -/
def Ready (allowDynamic : Bool) (p : PluginProcess ν) (c : ComponentEntry) : Prop :=
  c.imports allowDynamic = true → ∃ module attr, splitImportPath c.importPath = some (module,attr) ∧ module ∈ p.imported

theorem importModule_grown (modules : String → Option (PluginModule ν)) (p : PluginProcess ν) (name : String) :
    p.registry.Grown (p.importModule modules name).2.registry ∧ p.imported ⊆ (p.importModule modules name).2.imported := by
  cases found : modules name with
  | none =>
    simp only [importModule,found]
    exact ⟨.refl _,List.Subset.refl _⟩
  | some m =>
    by_cases known : name ∈ p.imported
    · simp only [importModule,found,known,if_true]
      exact ⟨.refl _,List.Subset.refl _⟩
    · have grown := Registry.topLevel_grown name m.calls p.registry
      simp only [importModule,found,known,if_false]
      split
      · next e registry ran =>
        rw [ran] at grown
        exact ⟨grown,List.Subset.refl _⟩
      · next registry ran =>
        rw [ran] at grown
        split
        · exact ⟨grown,List.Subset.refl _⟩
        · exact ⟨grown,List.subset_cons_self name p.imported⟩

theorem importModule_ok {name : String} {m : PluginModule ν} (done : (p.importModule modules name).1 = .ok m) :
    modules name = some m ∧ name ∈ (p.importModule modules name).2.imported := by
  cases found : modules name with
  | none =>
    simp only [importModule,found] at done
    cases done
  | some n =>
    by_cases known : name ∈ p.imported
    · simp only [importModule,found,known,if_true] at done ⊢
      cases done
      exact ⟨rfl,trivial⟩
    · cases ran : Registry.topLevel name n.calls p.registry with
      | mk raised registry =>
        cases raised with
        | some e =>
          simp only [importModule,found,known,if_false,ran] at done
          cases done
        | none =>
          cases fails : n.failure with
          | some e =>
            simp only [importModule,found,known,if_false,ran,fails] at done
            cases done
          | none =>
            simp only [importModule,found,known,if_false,ran,fails] at done ⊢
            cases done
            exact ⟨rfl,List.mem_cons_self⟩

theorem importModule_again {name : String} {m : PluginModule ν} (found : modules name = some m)
    (known : name ∈ p.imported) : p.importModule modules name = (.ok m,p) := by
  simp only [importModule,found,known,if_true]

theorem importObject_grown (modules : String → Option (PluginModule ν)) (p : PluginProcess ν)
    (path : String) : p.registry.Grown (p.importObject modules path).2.registry ∧
      p.imported ⊆ (p.importObject modules path).2.imported := by
  rw [importObject]
  split
  · exact ⟨.refl _,List.Subset.refl _⟩
  · next module attr _ =>
    have grown := importModule_grown modules p module
    split
    · next e q ran =>
      rw [ran] at grown
      exact grown
    · next m q ran =>
      rw [ran] at grown
      split
      · exact grown
      · exact grown

theorem importObject_ok {path : String} {obj : PyObject ν} (done : (p.importObject modules path).1 = .ok obj) :
    exported modules path = some obj ∧ ∃ module attr, splitImportPath path = some (module,attr) ∧
      module ∈ (p.importObject modules path).2.imported := by
  cases parts : splitImportPath path with
  | none =>
    simp only [importObject,parts] at done
    cases done
  | some place =>
    obtain ⟨module,attr⟩ := place
    cases ran : p.importModule modules module with
    | mk answer r =>
      cases answer with
      | error e =>
        simp only [importObject,parts,ran] at done
        cases done
      | ok m =>
        have fine : (p.importModule modules module).1 = .ok m := by
          rw [ran]
        obtain ⟨known,listed⟩ := importModule_ok fine
        rw [ran] at listed
        cases has : m.attributes attr with
        | none =>
          simp only [importObject,parts,ran,has] at done
          cases done
        | some found =>
          simp only [importObject,parts,ran,has] at done ⊢
          cases done
          refine ⟨?_,module,attr,rfl,listed⟩
          simp only [exported,parts,Option.bind_some,known,has]

theorem importObject_again {path module attr : String} {obj : PyObject ν}
    (parts : splitImportPath path = some (module,attr)) (known : module ∈ p.imported)
    (found : exported modules path = some obj) : p.importObject modules path = (.ok obj,p) := by
  simp only [exported,parts,Option.bind_some] at found
  obtain ⟨m,present,has⟩ := Option.bind_eq_some_iff.mp found
  simp only [importObject,parts,importModule_again present known,has]

theorem fetch_grown (modules : String → Option (PluginModule ν)) (allowDynamic : Bool) (p : PluginProcess ν)
    (c : ComponentEntry) : p.registry.Grown (p.fetch modules allowDynamic c).2.registry ∧
      p.imported ⊆ (p.fetch modules allowDynamic c).2.imported := by
  rw [fetch]
  split
  · exact importObject_grown modules p c.importPath
  · exact ⟨.refl _,List.Subset.refl _⟩

/-- A component has been imported if it has to be. -/
structure Fetched (modules : String → Option (PluginModule ν)) (allowDynamic : Bool) (p : PluginProcess ν)
    (c : ComponentEntry) : Prop where
  ready : Ready allowDynamic p c
  present : c.imports allowDynamic = true → object modules allowDynamic c ≠ none

theorem Fetched.mono (fetched : Fetched modules allowDynamic p c) (more : p.imported ⊆ q.imported) :
    Fetched modules allowDynamic q c where
  ready imports := by
    obtain ⟨module,attr,parts,known⟩ := fetched.ready imports
    exact ⟨module,attr,parts,more known⟩
  present := fetched.present

theorem fetch_ok {o : Option (PyObject ν)} (done : (p.fetch modules allowDynamic c).1 = .ok o) :
    o = object modules allowDynamic c ∧ Fetched modules allowDynamic (p.fetch modules allowDynamic c).2 c := by
  by_cases imports : c.imports allowDynamic = true
  · simp only [fetch,imports,if_true,object] at done ⊢
    cases answer : (p.importObject modules c.importPath).1 with
    | error e =>
      rw [answer] at done
      cases done
    | ok obj =>
      rw [answer] at done
      cases done
      obtain ⟨has,listed⟩ := importObject_ok answer
      refine ⟨has.symm,fun _ => listed,fun _ => ?_⟩
      rw [object,if_pos imports,has]
      exact Option.some_ne_none obj
  · simp only [fetch,imports,object] at done ⊢
    cases done
    exact ⟨rfl,fun needed => absurd needed imports,fun needed => absurd needed imports⟩

theorem fetch_again (fetched : Fetched modules allowDynamic p c) :
    p.fetch modules allowDynamic c = (.ok (object modules allowDynamic c),p) := by
  by_cases imports : c.imports allowDynamic = true
  · obtain ⟨module,attr,parts,known⟩ := fetched.ready imports
    obtain ⟨obj,has⟩ := Option.ne_none_iff_exists'.mp (fetched.present imports)
    have found : exported modules c.importPath = some obj := by
      rw [object,if_pos imports] at has
      exact has
    rw [fetch,if_pos imports,importObject_again parts known found,has]
    rfl
  · rw [fetch,if_neg imports,object,if_neg imports]

/-! ### One component -/

def refusal (allowDynamic : Bool) (c : ComponentEntry) (e : Exn) : Exn :=
  if c.imports allowDynamic then c.failedImport e else e

/-- A component is imported first and registered then. -/
theorem loadComponent_eq (p : PluginProcess ν) (c : ComponentEntry) : p.loadComponent modules allowDynamic c =
    match p.fetch modules allowDynamic c with
    | (.error e,r) => (.error (refusal allowDynamic c e),r)
    | (.ok o,r) =>
      match r.registry.enter c o with
      | .error e => (.error (refusal allowDynamic c e),r)
      | .ok registry => (.ok (),{ r with registry }) := by
  by_cases imports : c.imports allowDynamic = true
  · cases ran : p.importObject modules c.importPath with
    | mk answer r =>
      cases answer with
      | error e => simp only [loadComponent,fetch,refusal,imports,if_true,ran,Except.map]
      | ok obj =>
        cases entered : r.registry.enter c (some obj) with
        | error e => simp only [loadComponent,fetch,refusal,imports,if_true,ran,Except.map,entered]
        | ok registry => simp only [loadComponent,fetch,imports,if_true,ran,Except.map,entered]
  · simp only [loadComponent,fetch,refusal,imports]
    rfl

theorem loadComponent_ok {u : Unit} (done : p.loadComponent modules allowDynamic c = (.ok u,q)) :
    (p.fetch modules allowDynamic c).1 = .ok (object modules allowDynamic c) ∧
      (p.fetch modules allowDynamic c).2.registry.enter c (object modules allowDynamic c) = .ok q.registry ∧
      q.imported = (p.fetch modules allowDynamic c).2.imported := by
  rw [loadComponent_eq] at done
  cases ran : p.fetch modules allowDynamic c with
  | mk answer r =>
    rw [ran] at done
    cases answer with
    | error e => cases done
    | ok o =>
      have own : o = object modules allowDynamic c := (fetch_ok (congrArg Prod.fst ran)).1
      subst own
      dsimp only at done ⊢
      cases entered : r.registry.enter c (object modules allowDynamic c) with
      | error e =>
        rw [entered] at done
        cases done
      | ok registry =>
        rw [entered] at done
        cases done
        exact ⟨rfl,rfl,rfl⟩

theorem loadComponent_of {registry : Registry ν}
    (fetched : (p.fetch modules allowDynamic c).1 = .ok (object modules allowDynamic c))
    (entered : (p.fetch modules allowDynamic c).2.registry.enter c (object modules allowDynamic c) = .ok registry) :
    p.loadComponent modules allowDynamic c = (.ok (),{ (p.fetch modules allowDynamic c).2 with registry }) := by
  rw [loadComponent_eq]
  cases ran : p.fetch modules allowDynamic c with
  | mk answer r =>
    rw [ran] at fetched entered
    cases fetched
    simp only [entered]

theorem loadComponent_error {e : Exn} (failed : p.loadComponent modules allowDynamic c = (.error e,q)) :
    q = (p.fetch modules allowDynamic c).2 := by
  rw [loadComponent_eq] at failed
  cases ran : p.fetch modules allowDynamic c with
  | mk answer r =>
    rw [ran] at failed
    cases answer with
    | error e =>
      cases failed
      rfl
    | ok o =>
      dsimp only at failed
      cases entered : r.registry.enter c o with
      | error e =>
        rw [entered] at failed
        cases failed
        rfl
      | ok registry =>
        rw [entered] at failed
        cases failed

/-- A component can be imported, and registered with what has been imported. -/
def Registrable (modules : String → Option (PluginModule ν)) (allowDynamic : Bool) (p : PluginProcess ν)
    (c : ComponentEntry) : Prop :=
  (p.fetch modules allowDynamic c).1 = .ok (object modules allowDynamic c) ∧
    (p.fetch modules allowDynamic c).2.registry.Admits c (object modules allowDynamic c)

theorem registrable_iff :
    Registrable modules allowDynamic p c ↔ ∃ q, p.loadComponent modules allowDynamic c = (.ok (),q) := by
  constructor
  · rintro ⟨fetched,admits⟩
    obtain ⟨registry,entered⟩ := Registry.enter_ok_iff.mpr admits
    exact ⟨_,loadComponent_of fetched entered⟩
  · rintro ⟨q,done⟩
    obtain ⟨fetched,entered,-⟩ := loadComponent_ok done
    exact ⟨fetched,(Registry.enter_ok entered).1⟩

/-- Loading a component leaves alone what belongs to other names. -/
theorem loadComponent_keeps {answer : Except Exn Unit} (ran : p.loadComponent modules allowDynamic c = (answer,q)) :
    p.registry.Extends q.registry ∧ p.imported ⊆ q.imported ∧
      ∀ name, name ≠ c.name → Registry.Keeps name p.registry q.registry := by
  obtain ⟨grown,more⟩ := fetch_grown modules allowDynamic p c
  cases answer with
  | error e =>
    rw [loadComponent_error ran]
    exact ⟨grown.toExtends,more,fun name _ => grown.keeps name⟩
  | ok u =>
    obtain ⟨-,entered,listed⟩ := loadComponent_ok ran
    obtain ⟨-,further,-,keeps⟩ := Registry.enter_ok entered
    refine ⟨grown.toExtends.trans further,listed ▸ more,fun name other => ?_⟩
    exact (grown.keeps name).trans further (keeps name other).1 grown.toExtends

/-! ### All components -/

/-- Every component can be registered in its turn, none is an imported workflow, and importing the later ones leaves what
has been registered for those before (`done`). -/
def Settles (modules : String → Option (PluginModule ν)) (allowDynamic : Bool) :
    List ComponentEntry → List ComponentEntry → PluginProcess ν → Prop
  | _, [], _ => True
  | done, c :: rest, p =>
    Registrable modules allowDynamic p c ∧ ¬Registry.LoadsWorkflow c (object modules allowDynamic c) ∧
      (∀ d ∈ done, (p.fetch modules allowDynamic c).2.registry.Holds d (object modules allowDynamic d)) ∧
      Settles modules allowDynamic (c :: done) rest (p.loadComponent modules allowDynamic c).2

/-- Some component cannot be registered, and up to its import the registry has everything as the load puts it there. -/
def Stops (modules : String → Option (PluginModule ν)) (allowDynamic : Bool) :
    List ComponentEntry → PluginProcess ν → Prop
  | [], _ => False
  | c :: rest, p =>
    (p.fetch modules allowDynamic c).2.registry = p.registry ∧
      (¬Registrable modules allowDynamic p c ∨
        (Registrable modules allowDynamic p c ∧ ¬Registry.LoadsWorkflow c (object modules allowDynamic c) ∧
          p.registry.Holds c (object modules allowDynamic c) ∧
          Stops modules allowDynamic rest (p.fetch modules allowDynamic c).2))

theorem loadComponents_keeps (modules : String → Option (PluginModule ν)) (allowDynamic : Bool) (n : Nat)
    (cs : List ComponentEntry) (p : PluginProcess ν) :
    p.registry.Extends (loadComponents modules allowDynamic n cs p).2.registry ∧
      p.imported ⊆ (loadComponents modules allowDynamic n cs p).2.imported ∧
      ∀ name, name ∉ cs.map (·.name) → Registry.Keeps name p.registry (loadComponents modules allowDynamic n cs p).2.registry := by
  induction cs generalizing n p with
  | nil => exact ⟨.refl _,List.Subset.refl _,fun name _ => .refl name _⟩
  | cons c rest ih =>
    cases ran : p.loadComponent modules allowDynamic c with
    | mk answer q =>
      obtain ⟨extended,more,keeps⟩ := loadComponent_keeps ran
      cases answer with
      | error e =>
        simp only [loadComponents,ran]
        refine ⟨extended,more,fun name fresh => keeps name fun same => fresh ?_⟩
        rw [same]
        exact List.mem_cons_self
      | ok u =>
        simp only [loadComponents,ran]
        obtain ⟨further,later,others⟩ := ih (n + 1) q
        refine ⟨extended.trans further,List.Subset.trans more later,fun name fresh => ?_⟩
        obtain ⟨other,absent⟩ := not_or.mp (fun here => fresh (List.mem_cons.mpr here))
        exact (keeps name other).trans further (others name absent) extended

/-- What a load that succeeds has done for each component: it has been registered at some point, and has its entries to
itself from there on. -/
theorem loadComponents_ok {n m : Nat} {cs : List ComponentEntry} (distinct : (cs.map (·.name)).Nodup)
    (ran : loadComponents modules allowDynamic n cs p = (.ok m,q)) : ∀ c ∈ cs, Fetched modules allowDynamic q c ∧
      (Registry.LoadsWorkflow c (object modules allowDynamic c) → p.registry.chains.get? c.name = none) ∧
      ∃ r, p.registry.Extends r ∧ r.Extends q.registry ∧ Registry.Keeps c.name r q.registry ∧
        r.Holds c (object modules allowDynamic c) := by
  induction cs generalizing n p with
  | nil =>
    intro c inside
    cases inside
  | cons head rest ih =>
    obtain ⟨fresh,later⟩ := List.nodup_cons.mp distinct
    cases first : p.loadComponent modules allowDynamic head with
    | mk answer q' =>
      obtain ⟨extended,-,keeps⟩ := loadComponent_keeps first
      cases answer with
      | error e =>
        simp only [loadComponents,first] at ran
        cases ran
      | ok u =>
        simp only [loadComponents,first] at ran
        intro c inside
        rcases List.mem_cons.mp inside with rfl | inside
        · obtain ⟨fetched,entered,listed⟩ := loadComponent_ok first
          obtain ⟨admits,-,holds,-⟩ := Registry.enter_ok entered
          have grown := (fetch_grown modules allowDynamic p c).1
          obtain ⟨further,more,kept⟩ := loadComponents_keeps modules allowDynamic (n + 1) rest q'
          rw [ran] at further more kept
          refine ⟨((fetch_ok fetched).2.mono (listed ▸ List.Subset.refl _)).mono more,fun loads => ?_,q'.registry,extended,
            further,kept c.name fresh,holds⟩
          have absent : (p.fetch modules allowDynamic c).2.registry.chains.get? c.name = none := by
            obtain ⟨nodeType,own,path⟩ := c
            obtain ⟨rfl,present⟩ := loads
            obtain ⟨obj,has⟩ := Option.ne_none_iff_exists'.mp present
            rw [has] at admits
            exact admits
          rw [← (grown.keeps c.name).chains]
          exact absent
        · obtain ⟨fetched,chains,r,before,after,kept,holds⟩ := ih later ran c inside
          refine ⟨fetched,fun loads => ?_,r,extended.trans before,after,kept,holds⟩
          have other : c.name ≠ head.name := by
            intro same
            exact fresh (List.mem_map.mpr ⟨c,inside,same⟩)
          rw [← (keeps c.name other).chains]
          exact chains loads

/-- Where everything is registered already, a load changes nothing. -/
theorem loadComponents_held {cs : List ComponentEntry} (held : ∀ c ∈ cs, Fetched modules allowDynamic p c ∧
      p.registry.Holds c (object modules allowDynamic c) ∧ ¬Registry.LoadsWorkflow c (object modules allowDynamic c))
    (n : Nat) : loadComponents modules allowDynamic n cs p = (.ok (n + cs.length),p) := by
  induction cs generalizing n with
  | nil => rfl
  | cons c rest ih =>
    obtain ⟨fetched,holds,single⟩ := held c List.mem_cons_self
    have again := fetch_again fetched
    have loaded : p.loadComponent modules allowDynamic c = (.ok (),p) := by
      rw [loadComponent_eq,again]
      simp only [Registry.enter_again holds single]
    rw [loadComponents,loaded]
    refine (ih (fun d inside => held d (List.mem_cons_of_mem c inside)) (n + 1)).trans ?_
    rw [List.length_cons]
    congr 2
    omega

theorem loadComponents_count {n m : Nat} {cs : List ComponentEntry}
    (ran : loadComponents modules allowDynamic n cs p = (.ok m,q)) : m = n + cs.length := by
  induction cs generalizing n p with
  | nil =>
    cases ran
    rfl
  | cons c rest ih =>
    cases first : p.loadComponent modules allowDynamic c with
    | mk answer q' =>
      cases answer with
      | error e =>
        simp only [loadComponents,first] at ran
        cases ran
      | ok u =>
        simp only [loadComponents,first] at ran
        rw [ih ran,List.length_cons]
        omega

/-- A second load goes through without a change exactly if everything is still registered as the first one left it. -/
theorem reload_iff {m : Nat} {cs : List ComponentEntry} (distinct : (cs.map (·.name)).Nodup)
    (ran : loadComponents modules allowDynamic 0 cs p = (.ok m,q)) :
    loadComponents modules allowDynamic 0 cs q = (.ok m,q) ↔ ∀ c ∈ cs,
      q.registry.Holds c (object modules allowDynamic c) ∧ ¬Registry.LoadsWorkflow c (object modules allowDynamic c) := by
  constructor
  · intro again c inside
    obtain ⟨-,chains,r,before,after,kept,holds⟩ := loadComponents_ok distinct again c inside
    have still := holds.keep_within after kept before
    refine ⟨still,fun loads => ?_⟩
    have absent := chains loads
    obtain ⟨nodeType,own,path⟩ := c
    obtain ⟨rfl,present⟩ := loads
    obtain ⟨obj,has⟩ := Option.ne_none_iff_exists'.mp present
    rw [has] at still
    cases absent.symm.trans still
  · intro held
    rw [loadComponents_held (fun c inside => ⟨(loadComponents_ok distinct ran c inside).1,held c inside⟩),
      loadComponents_count ran]

/-- A component that was registered may be displaced by the import of another one, but not forgotten. -/
theorem fetch_spares (c d : ComponentEntry)
    (before : p.registry.Holds d (object modules allowDynamic d) ∨
      p.registry.Displaced d (object modules allowDynamic d)) :
    (p.fetch modules allowDynamic c).2.registry.Holds d (object modules allowDynamic d) ∨
      (p.fetch modules allowDynamic c).2.registry.Displaced d (object modules allowDynamic d) := by
  have grown := (fetch_grown modules allowDynamic p c).1
  rcases before with held | displaced
  · exact held.displaced grown.toExtends (grown.keeps d.name)
  · exact .inr (displaced.keep grown.toExtends (grown.keeps d.name))

/-- Registering a component does not matter to the others. -/
theorem loadComponent_spares {c d : ComponentEntry} (loaded : p.loadComponent modules allowDynamic c = (.ok (),q))
    (other : d.name ≠ c.name) :
    ((p.fetch modules allowDynamic c).2.registry.Holds d (object modules allowDynamic d) →
        q.registry.Holds d (object modules allowDynamic d)) ∧
      ((p.fetch modules allowDynamic c).2.registry.Displaced d (object modules allowDynamic d) →
        q.registry.Displaced d (object modules allowDynamic d)) := by
  obtain ⟨-,entered,-⟩ := loadComponent_ok loaded
  obtain ⟨-,extended,-,keeps⟩ := Registry.enter_ok entered
  obtain ⟨keep,same⟩ := keeps d.name other
  refine ⟨fun held => ?_,fun displaced => displaced.keep extended keep⟩
  obtain still | ⟨-,absent,present⟩ := held.keep extended keep
  · exact still
  · exact absurd (same.trans absent) present

/-- Everything is still registered after a load exactly if the imports of later components left it alone. -/
theorem settles_iff {n m : Nat} (done : List ComponentEntry) {cs : List ComponentEntry} (distinct : (cs.map (·.name)).Nodup)
    (apart : ∀ d ∈ done, d.name ∉ cs.map (·.name))
    (past : ∀ d ∈ done, ¬Registry.LoadsWorkflow d (object modules allowDynamic d) ∧
      (p.registry.Holds d (object modules allowDynamic d) ∨ p.registry.Displaced d (object modules allowDynamic d)))
    (ran : loadComponents modules allowDynamic n cs p = (.ok m,q)) :
    (Settles modules allowDynamic done cs p ∧ ∀ d ∈ done, p.registry.Holds d (object modules allowDynamic d)) ↔
      ∀ c, c ∈ done ∨ c ∈ cs → q.registry.Holds c (object modules allowDynamic c) ∧
        ¬Registry.LoadsWorkflow c (object modules allowDynamic c) := by
  induction cs generalizing n p done with
  | nil =>
    cases ran
    constructor
    · rintro ⟨-,held⟩ c (inside | inside)
      · exact ⟨held c inside,(past c inside).1⟩
      · cases inside
    · intro held
      exact ⟨trivial,fun d inside => (held d (.inl inside)).1⟩
  | cons c rest ih =>
    obtain ⟨fresh,later⟩ := List.nodup_cons.mp distinct
    cases first : p.loadComponent modules allowDynamic c with
    | mk answer q' =>
      cases answer with
      | error e =>
        simp only [loadComponents,first] at ran
        cases ran
      | ok u =>
        by_cases loads : Registry.LoadsWorkflow c (object modules allowDynamic c)
        · constructor
          · rintro ⟨settles,-⟩
            exact absurd loads settles.2.1
          · intro held
            exact absurd loads (held c (.inr List.mem_cons_self)).2
        simp only [loadComponents,first] at ran
        obtain ⟨-,entered,-⟩ := loadComponent_ok first
        obtain ⟨-,-,holds,-⟩ := Registry.enter_ok entered
        have moved (d : ComponentEntry) : d ∈ c :: done ∨ d ∈ rest ↔ d ∈ done ∨ d ∈ c :: rest := by
          simp only [List.mem_cons,or_assoc,or_left_comm]
        have spares (d : ComponentEntry) (inside : d ∈ done) := loadComponent_spares first (d := d)
          fun same => apart d inside (List.mem_cons.mpr (.inl same))
        have fetched (d : ComponentEntry) (inside : d ∈ done) := fetch_spares c d (past d inside).2
        have rest_iff : (Settles modules allowDynamic (c :: done) rest q' ∧
              ∀ d ∈ c :: done, q'.registry.Holds d (object modules allowDynamic d)) ↔
            ∀ d, d ∈ c :: done ∨ d ∈ rest → q.registry.Holds d (object modules allowDynamic d) ∧
              ¬Registry.LoadsWorkflow d (object modules allowDynamic d) := by
          refine ih (c :: done) later (fun d inside listed => ?_) (fun d inside => ?_) ran
          · rcases List.mem_cons.mp inside with rfl | inside
            · exact fresh listed
            · exact apart d inside (List.mem_cons_of_mem c.name listed)
          · rcases List.mem_cons.mp inside with rfl | inside
            · exact ⟨loads,.inl holds⟩
            · refine ⟨(past d inside).1,?_⟩
              rcases fetched d inside with held | displaced
              · exact .inl ((spares d inside).1 held)
              · exact .inr ((spares d inside).2 displaced)
        constructor
        · rintro ⟨⟨-,-,held,settles⟩,-⟩ d inside
          rw [first] at settles
          refine rest_iff.mp ⟨settles,fun e listed => ?_⟩ d ((moved d).mpr inside)
          rcases List.mem_cons.mp listed with rfl | listed
          · exact holds
          · exact (spares e listed).1 (held e listed)
        · intro held
          obtain ⟨settles,still⟩ := rest_iff.mpr fun d inside => held d ((moved d).mp inside)
          have before (d : ComponentEntry) (inside : d ∈ done) := still d (List.mem_cons_of_mem c inside)
          refine ⟨⟨registrable_iff.mpr ⟨q',first⟩,loads,fun d inside => ?_,?_⟩,fun d inside => ?_⟩
          · rcases fetched d inside with held | displaced
            · exact held
            · exact absurd (before d inside) ((spares d inside).2 displaced).lost
          · rw [first]
            exact settles
          · rcases (past d inside).2 with held | displaced
            · exact held
            · have grown := (fetch_grown modules allowDynamic p c).1
              exact absurd (before d inside)
                ((spares d inside).2 (displaced.keep grown.toExtends (grown.keeps d.name))).lost

theorem settles_loads {done cs : List ComponentEntry} (settles : Settles modules allowDynamic done cs p) (n : Nat)
    (e : Exn) (q : PluginProcess ν) : loadComponents modules allowDynamic n cs p ≠ (.error e,q) := by
  induction cs generalizing n p done with
  | nil =>
    intro failed
    cases failed
  | cons c rest ih =>
    obtain ⟨registrable,-,-,later⟩ := settles
    obtain ⟨q',first⟩ := registrable_iff.mp registrable
    rw [first] at later
    simp only [loadComponents,first]
    exact ih later (n + 1)

/-- A load fails without having changed the registry exactly if it stops before it changes anything. -/
theorem stops_iff {n : Nat} {cs : List ComponentEntry} (distinct : (cs.map (·.name)).Nodup) :
    Stops modules allowDynamic cs p ↔
      ∃ e q, loadComponents modules allowDynamic n cs p = (.error e,q) ∧ q.registry = p.registry := by
  induction cs generalizing n p with
  | nil =>
    constructor
    · intro stops
      exact stops.elim
    · rintro ⟨e,q,ran,-⟩
      cases ran
  | cons c rest ih =>
    obtain ⟨fresh,later⟩ := List.nodup_cons.mp distinct
    cases first : p.loadComponent modules allowDynamic c with
    | mk answer q' =>
      cases answer with
      | error e =>
        have refused : ¬Registrable modules allowDynamic p c := by
          intro registrable
          obtain ⟨q,done⟩ := registrable_iff.mp registrable
          cases first.symm.trans done
        simp only [loadComponents,first]
        constructor
        · rintro ⟨same,-⟩
          exact ⟨e,q',rfl,(congrArg PluginProcess.registry (loadComponent_error first)).trans same⟩
        · rintro ⟨e',q,ran,same⟩
          cases ran
          rw [loadComponent_error first] at same
          exact ⟨same,.inl refused⟩
      | ok u =>
        have registrable := registrable_iff.mpr ⟨q',first⟩
        obtain ⟨-,entered,listed⟩ := loadComponent_ok first
        simp only [loadComponents,first]
        constructor
        · rintro ⟨same,refused | ⟨-,single,holds,stops⟩⟩
          · exact absurd registrable refused
          · rw [same,Registry.enter_again holds single] at entered
            have unchanged : q' = (p.fetch modules allowDynamic c).2 :=
              PluginProcess.ext ((Except.ok.inj entered).symm.trans same.symm) listed
            subst unchanged
            obtain ⟨e,q,ran,kept⟩ := (ih later).mp stops
            exact ⟨e,q,ran,kept.trans same⟩
        · rintro ⟨e,q,ran,same⟩
          obtain ⟨admits,extended,holds,-⟩ := Registry.enter_ok entered
          have grown := (fetch_grown modules allowDynamic p c).1
          obtain ⟨further,-,keeps⟩ := loadComponents_keeps modules allowDynamic (n + 1) rest q'
          have kept := keeps c.name fresh
          rw [ran,same] at further kept
          -- what is new stays, so nothing is
          have quiet : (p.fetch modules allowDynamic c).2.registry = p.registry := by
            refine grown.unchanged (fun j absent => ?_) fun j absent => ?_
            · cases found : (p.fetch modules allowDynamic c).2.registry.tools.toolFactories.get? j with
              | none => rfl
              | some x => cases absent.symm.trans (further.factories j x (extended.factories j x found))
            · cases found : (p.fetch modules allowDynamic c).2.registry.agents.get? j with
              | none => rfl
              | some x => cases absent.symm.trans (further.agents j x (extended.agents j x found))
          rw [quiet] at entered admits extended
          have before := holds.keep_within further kept extended
          have single := before.single admits
          rw [Registry.enter_again before single] at entered
          have unchanged : q' = (p.fetch modules allowDynamic c).2 :=
            PluginProcess.ext ((Except.ok.inj entered).symm.trans quiet.symm) listed
          subst unchanged
          refine ⟨quiet,.inr ⟨registrable,single,before,(ih later).mpr ⟨e,q,ran,?_⟩⟩⟩
          exact same.trans quiet.symm

/-- A second load changes nothing and is not refused, and a load that is refused has not changed the registry. -/
structure Retryable (modules : String → Option (PluginModule ν)) (manifest : Except Exn PluginsManifest)
    (allowDynamic : Bool) (p : PluginProcess ν) : Prop where
  idempotent : ∀ n q, loadPlugins modules manifest allowDynamic p = (.ok n,q) →
    loadPlugins modules manifest allowDynamic q = (.ok n,q)
  atomic : ∀ e q, loadPlugins modules manifest allowDynamic p = (.error e,q) → q.registry = p.registry

/-- A manifest can be loaded again exactly if the load settles or stops before it has changed anything. -/
theorem loadPlugins_retryable_iff (modules : String → Option (PluginModule ν)) (manifest : Except Exn PluginsManifest)
    (allowDynamic : Bool) (p : PluginProcess ν) : Retryable modules manifest allowDynamic p ↔
      ∀ m, manifest = .ok m →
        Settles modules allowDynamic [] m.components p ∨ Stops modules allowDynamic m.components p := by
  cases manifest with
  | error e =>
    refine ⟨fun _ m found => (nomatch found),fun _ => ⟨fun n q loaded => ?_,fun e' q failed => ?_⟩⟩
    · cases loaded
    · cases failed
      rfl
  | ok m =>
    have loads (q : PluginProcess ν) :
        loadPlugins modules (.ok m) allowDynamic q = loadComponents modules allowDynamic 0 m.components q := rfl
    cases ran : loadComponents modules allowDynamic 0 m.components p with
    | mk answer q =>
      cases answer with
      | ok n =>
        have settled := settles_iff [] m.distinct (fun d inside => (nomatch inside)) (fun d inside => (nomatch inside)) ran
        constructor
        · intro retryable m' same
          cases same
          have again := (reload_iff m.distinct ran).mp (retryable.idempotent n q ran)
          refine .inl (settled.mpr fun c inside => ?_).1
          rcases inside with inside | inside
          · cases inside
          · exact again c inside
        · intro condition
          have held : ∀ c ∈ m.components, q.registry.Holds c (object modules allowDynamic c) ∧
              ¬Registry.LoadsWorkflow c (object modules allowDynamic c) := by
            rcases condition m rfl with settles | stops
            · intro c inside
              exact settled.mp ⟨settles,fun d inside => (nomatch inside)⟩ c (.inr inside)
            · obtain ⟨e,q',failed,-⟩ := (stops_iff (n := 0) m.distinct).mp stops
              cases ran.symm.trans failed
          refine ⟨fun n' q' loaded => ?_,fun e q' failed => ?_⟩
          · cases ran.symm.trans loaded
            exact (reload_iff m.distinct ran).mpr held
          · cases ran.symm.trans failed
      | error e =>
        constructor
        · intro retryable m' same
          cases same
          exact .inr ((stops_iff m.distinct).mpr ⟨e,q,ran,retryable.atomic e q ran⟩)
        · intro condition
          refine ⟨fun n' q' loaded => ?_,fun e' q' failed => ?_⟩
          · cases ran.symm.trans loaded
          · rcases condition m rfl with settles | stops
            · exact absurd ran (settles_loads settles 0 e q)
            · obtain ⟨e'',q'',failed',same⟩ := (stops_iff (n := 0) m.distinct).mp stops
              cases failed'.symm.trans failed
              exact same

/-- A package with one module, in which there is one workflow. -/
def flowPackage : String → Option (PluginModule Nat)
  | "pack.flows" => some { attributes := fun attr => if attr = "main" then some (.other 0) else none }
  | _ => none

def flowManifest : PluginsManifest where
  components := [⟨.workflow,"flow","pack.flows:main"⟩]
  distinct := by decide
  nonempty := by decide

/-- The workflow of the second component does not exist. -/
def brokenManifest : PluginsManifest where
  components := [⟨.agent,"helper","pack.agents:create_helper"⟩,⟨.workflow,"lost","pack.flows:lost"⟩]
  distinct := by decide
  nonempty := by decide

/-- A workflow that has been imported is refused the second time; and what precedes a component that cannot be imported
stays registered. -/
theorem flows_not_retryable :
    (¬∀ (modules : String → Option (PluginModule Nat)) (m : PluginsManifest) (p q : PluginProcess Nat) (n : Nat),
      loadPlugins modules (.ok m) true p = (.ok n,q) → (loadPlugins modules (.ok m) true q).1.toOption.isSome = true) ∧
    ¬∀ (modules : String → Option (PluginModule Nat)) (m : PluginsManifest) (p q : PluginProcess Nat) (e : Exn),
      loadPlugins modules (.ok m) true p = (.error e,q) → q.registry = p.registry := by
  constructor
  · intro claim
    have again := claim flowPackage flowManifest {} _ 1 rfl
    exact absurd again (by decide +kernel)
  · intro claim
    have same := claim flowPackage brokenManifest {} _ _ rfl
    exact absurd (congrArg (fun r => (Registry.agents r).keys) same) (by decide +kernel)

end PluginProcess

end IceOS
