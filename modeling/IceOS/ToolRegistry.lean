import IceOS.UnifiedRegistry

/-! The part of the registry that knows the tools: their classes, the import paths of their factories and the factories
that have been imported. The three are filled independently of each other. -/
namespace IceOS

/-- What a module has under a name. `ν` are the identities of objects; a tool object comes with its class. -/
inductive PyObject (ν : Type) where
  | toolClass (cls : ν)
  | otherClass (cls : ν)
  | toolObject (cls object : ν)
  | function (f : ν)
  | other (object : ν)
  deriving DecidableEq, Repr

/-- A factory calls a class, makes another object of the class of a given one, or is a function of some module. -/
inductive ToolFactory (ν : Type) where
  | construct (cls : ν)
  | recreate (cls object : ν)
  | function (f : ν)
  deriving DecidableEq, Repr

/-- What can be called may serve as a factory. -/
def PyObject.factory? {ν : Type} : PyObject ν → Option (ToolFactory ν)
  | .toolClass cls => some (.construct cls)
  | .otherClass cls => some (.construct cls)
  | .function f => some (.function f)
  | .toolObject _ _ => none
  | .other _ => none

/-- `nodes` are the classes that are registered as tools. -/
structure ToolRegistry (ν : Type) where
  nodes : OrderedDict String ν := .empty
  toolFactories : OrderedDict String String := .empty
  toolFactoryCache : OrderedDict String (ToolFactory ν) := .empty

namespace ToolRegistry

variable {ν : Type}

def registerClass (r : ToolRegistry ν) (name : String) (cls : ν) : Except Exn (ToolRegistry ν) :=
  match r.nodes.get? name with
  | some _ => .error (registryError ("Node tool:" ++ name ++ " already registered"))
  | none => .ok { r with nodes := r.nodes.set name cls }

def factoryConflict (name : String) : Exn :=
  registryError ("Tool factory " ++ name ++ " already registered with different path")

/-- The factory is cached if it can be imported right away (`preloaded`). -/
def registerToolFactory (preloaded : Option (ToolFactory ν)) (r : ToolRegistry ν) (name path : String) :
    Except Exn (ToolRegistry ν) :=
  match r.toolFactories.get? name with
  | some old => if old = path then .ok r else .error (factoryConflict name)
  | none =>
    let r := { r with toolFactories := r.toolFactories.set name path }
    match preloaded with
    | some factory => .ok { r with toolFactoryCache := r.toolFactoryCache.set name factory }
    | none => .ok r

def registerToolFactoryCallable (r : ToolRegistry ν) (name : String) (factory : ToolFactory ν) : ToolRegistry ν :=
  { r with toolFactoryCache := r.toolFactoryCache.set name factory }

/-- Where the loader puts the factory of a tool object. -/
def dynamicToolPath (name : String) : String := "_dyn_tools_" ++ name ++ ":create"

/-- What the loader does with a tool that it has imported: the first class of a name stays, but the factory of the
latest is cached. -/
def loadTool (r : ToolRegistry ν) (name path : String) : PyObject ν → Except Exn (ToolRegistry ν)
  | .toolClass cls =>
    let nodes := if (r.nodes.get? name).isSome then r.nodes else r.nodes.set name cls
    .ok { r with nodes,toolFactoryCache := r.toolFactoryCache.set name (.construct cls) }
  | .otherClass _ => .error (registryError ("Tool class " ++ path ++ " is not a subclass of ToolBase"))
  | .toolObject cls object => registerToolFactory (some (.recreate cls object)) r name (dynamicToolPath name)
  | .function _ => .error (registryError ("Tool instance " ++ path ++ " does not inherit ToolBase"))
  | .other _ => .error (registryError ("Tool instance " ++ path ++ " does not inherit ToolBase"))

theorem registerClass_known {r : ToolRegistry ν} {name : String} {old : ν} (known : r.nodes.get? name = some old) (cls : ν) :
    r.registerClass name cls = .error (registryError ("Node tool:" ++ name ++ " already registered")) := by
  simp only [registerClass,known]

theorem registerClass_fresh {r : ToolRegistry ν} {name : String} (fresh : r.nodes.get? name = none) (cls : ν) :
    r.registerClass name cls = .ok { r with nodes := r.nodes.set name cls } := by
  simp only [registerClass,fresh]

section RegisterToolFactory

variable {preloaded : Option (ToolFactory ν)} {r : ToolRegistry ν} {name path : String}

theorem registerToolFactory_known (known : r.toolFactories.get? name = some path) :
    registerToolFactory preloaded r name path = .ok r := by
  simp only [registerToolFactory,known,if_true]

theorem registerToolFactory_conflict {old : String} (known : r.toolFactories.get? name = some old) (other : old ≠ path) :
    registerToolFactory preloaded r name path = .error (factoryConflict name) := by
  simp only [registerToolFactory,known,other,if_false]

theorem registerToolFactory_fresh (fresh : r.toolFactories.get? name = none) :
    registerToolFactory preloaded r name path = .ok { r with
      toolFactories := r.toolFactories.set name path
      toolFactoryCache := preloaded.elim r.toolFactoryCache (r.toolFactoryCache.set name) } := by
  cases preloaded with
  | none => simp only [registerToolFactory,fresh,Option.elim_none]
  | some factory => simp only [registerToolFactory,fresh,Option.elim_some]

end RegisterToolFactory

end ToolRegistry

end IceOS
