import IceOS.ToolRegistry

/-! Loading the components of a plugin manifest into the registry, one after the other. The modules of plugins may
themselves register factories when they are first imported. -/
namespace IceOS

inductive ComponentKind where
  | tool
  | agent
  | workflow
  deriving DecidableEq, Repr

structure ComponentEntry where
  nodeType : ComponentKind
  name : String
  importPath : String
  deriving DecidableEq, Repr

/-- A validated manifest. -/
structure PluginsManifest where
  components : List ComponentEntry
  distinct : (components.map (·.name)).Nodup
  nonempty : components ≠ []

/-- A registered workflow, or the placeholder that stands for it when nothing is imported. -/
inductive ChainEntry (ν : Type) where
  | loaded (object : PyObject ν)
  | stub (importPath : String)
  deriving DecidableEq, Repr

/-- `instances` are the import paths of the placeholders for tools. -/
structure Registry (ν : Type) where
  tools : ToolRegistry ν := {}
  instances : OrderedDict String String := .empty
  chains : OrderedDict String (ChainEntry ν) := .empty
  agents : OrderedDict String String := .empty

/-- A registration by the top-level code of a module, of one of its own attributes; `bound` is the factory that the
attribute is at that moment. -/
inductive TopLevelCall (ν : Type) where
  | toolFactory (name attr : String) (bound : Option (ToolFactory ν))
  | agent (name attr : String)

/-- The registrations of a module, the exception that the rest of its code raises, and what it has afterwards. -/
structure PluginModule (ν : Type) where
  calls : List (TopLevelCall ν) := []
  failure : Option Exn := none
  attributes : String → Option (PyObject ν)

/-- The registry and the modules that have been imported. -/
@[ext] structure PluginProcess (ν : Type) where
  registry : Registry ν := {}
  imported : List String := []

variable {ν : Type}

namespace Registry

def registerAgent (r : Registry ν) (name path : String) : Except Exn (Registry ν) :=
  (registerPath ("Agent " ++ name ++ " already registered with different path") r.agents name path).map
    fun agents => { r with agents }

def registerChain (r : Registry ν) (name : String) (chain : PyObject ν) : Except Exn (Registry ν) :=
  match r.chains.get? name with
  | some _ => .error (registryError ("Chain " ++ name ++ " already registered"))
  | none => .ok { r with chains := r.chains.set name (.loaded chain) }

def registerToolFactory (preloaded : Option (ToolFactory ν)) (r : Registry ν) (name path : String) :
    Except Exn (Registry ν) :=
  (ToolRegistry.registerToolFactory preloaded r.tools name path).map fun tools => { r with tools }

def call (module : String) (r : Registry ν) : TopLevelCall ν → Except Exn (Registry ν)
  | .toolFactory name attr bound => r.registerToolFactory bound name (module ++ ":" ++ attr)
  | .agent name attr => r.registerAgent name (module ++ ":" ++ attr)

/-- The top-level code of a module, up to the first exception. -/
def topLevel (module : String) : List (TopLevelCall ν) → Registry ν → Option Exn × Registry ν
  | [], r => (none,r)
  | c :: rest, r =>
    match r.call module c with
    | .ok r => topLevel module rest r
    | .error e => (some e,r)

/-- What becomes of a component, with the object that has been imported for it if one has. -/
def enter (r : Registry ν) (c : ComponentEntry) (object : Option (PyObject ν)) : Except Exn (Registry ν) :=
  match c.nodeType,object with
  | .tool,some object => (r.tools.loadTool c.name c.importPath object).map fun tools => { r with tools }
  | .tool,none => .ok { r with instances := r.instances.set c.name c.importPath }
  | .agent,_ => r.registerAgent c.name c.importPath
  | .workflow,some object => r.registerChain c.name object
  | .workflow,none => .ok { r with chains := r.chains.set c.name (.stub c.importPath) }

end Registry

namespace ComponentEntry

/-- Only tools and workflows are imported. -/
def imports (c : ComponentEntry) (allowDynamic : Bool) : Bool := allowDynamic && c.nodeType != .agent

def failedImport (c : ComponentEntry) (e : Exn) : Exn :=
  registryError ("Failed to import " ++ (if c.nodeType = .tool then "tool " else "workflow ") ++ c.name ++ ": " ++ e.text)

end ComponentEntry

namespace PluginProcess

def importModule (modules : String → Option (PluginModule ν)) (p : PluginProcess ν) (name : String) :
    Except Exn (PluginModule ν) × PluginProcess ν :=
  match modules name with
  | none => (.error (moduleNotFound name),p)
  | some m =>
    if name ∈ p.imported then (.ok m,p)
    else
      match Registry.topLevel name m.calls p.registry with
      | (some e,registry) => (.error e,{ p with registry })
      | (none,registry) =>
        match m.failure with
        | some e => (.error e,{ p with registry })
        | none => (.ok m,⟨registry,name :: p.imported⟩)

/-- The object at an import path. -/
def importObject (modules : String → Option (PluginModule ν)) (p : PluginProcess ν) (path : String) :
    Except Exn (PyObject ν) × PluginProcess ν :=
  match splitImportPath path with
  | none => (.error (valueError "not enough values to unpack (expected 2, got 1)"),p)
  | some (module,attr) =>
    match p.importModule modules module with
    | (.error e,q) => (.error e,q)
    | (.ok m,q) =>
      match m.attributes attr with
      | some object => (.ok object,q)
      | none => (.error (attributeError module attr),q)

def loadComponent (modules : String → Option (PluginModule ν)) (allowDynamic : Bool) (p : PluginProcess ν)
    (c : ComponentEntry) : Except Exn Unit × PluginProcess ν :=
  if c.imports allowDynamic then
    match p.importObject modules c.importPath with
    | (.error e,q) => (.error (c.failedImport e),q)
    | (.ok object,q) =>
      match q.registry.enter c (some object) with
      | .error e => (.error (c.failedImport e),q)
      | .ok registry => (.ok (),{ q with registry })
  else
    match p.registry.enter c none with
    | .error e => (.error e,p)
    | .ok registry => (.ok (),{ p with registry })

/-- The loop of `load_plugins`; the answer is the number of components. -/
def loadComponents (modules : String → Option (PluginModule ν)) (allowDynamic : Bool) :
    Nat → List ComponentEntry → PluginProcess ν → Except Exn Nat × PluginProcess ν
  | count, [], p => (.ok count,p)
  | count, c :: rest, p =>
    match p.loadComponent modules allowDynamic c with
    | (.ok _,q) => loadComponents modules allowDynamic (count + 1) rest q
    | (.error e,q) => (.error e,q)

/-- `manifest` is what reading and validating the file gives. -/
def loadPlugins (modules : String → Option (PluginModule ν)) (manifest : Except Exn PluginsManifest) (allowDynamic : Bool)
    (p : PluginProcess ν) : Except Exn Nat × PluginProcess ν :=
  match manifest with
  | .error e => (.error e,p)
  | .ok manifest => loadComponents modules allowDynamic 0 manifest.components p

end PluginProcess

end IceOS
