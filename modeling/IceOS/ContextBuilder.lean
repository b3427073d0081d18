import IceOS.NodeModels

/-! The input context of a node: values read from the results of other nodes along output
paths, the outputs of its dependencies, and the metadata of the current graph context. -/
namespace IceOS

abbrev Context := OrderedDict String Value
abbrev Results := OrderedDict String NodeExecutionResult

/-- The part of the context manager's `GraphContext` that contexts are built from. -/
structure GraphContext where
  sessionId : String
  metadata : List (String × Value) := []
  executionId : Option String := none

/-- The builder collects lookup failures; a `ValueError` goes past it. -/
inductive PathError where
  | lookup (e : Exn)
  | value (e : Exn)

namespace ContextBuilder

/-- `items[n]` with Python's negative indices. -/
def index? (items : List Value) (n : Int) : Option Value :=
  let position := if n < 0 then n + items.length else n
  if position < 0 then none else items[position.toNat]?

def resolveKey (path : String) (data : Value) (key : String) : Except PathError Value :=
  match data with
  | .dict entries =>
    match entries.lookup key with
    | some value => .ok value
    | none => .error (.lookup (keyError key))
  | .list items =>
    match PythonText.int? key with
    | none =>
      let text := "invalid literal for int() with base 10: " ++ PythonText.repr key
      .error (.value ⟨text,"ValueError(" ++ PythonText.repr text ++ ")"⟩)
    | some n =>
      match index? items n with
      | some value => .ok value
      | none => .error (.lookup indexError)
  | other =>
    let text := s!"Cannot resolve path '{path}' in " ++ other.typeText
    .error (.lookup ⟨text,"TypeError(" ++ PythonText.repr text ++ ")"⟩)

def resolveNestedPath (data : Value) (path : String) : Except PathError Value :=
  if path = "" ∨ path = "." then .ok data
  else (PythonText.split "." path).foldlM (resolveKey path) data

/-- The context so far and the validation errors so far. -/
abbrev Draft := Context × List String

def placeReference (results : Results) (draft : Draft) (placeholder : String)
    (sourceNodeId sourceOutputKey : Option String) : Except Exn Draft :=
  let (context,errors) := draft
  match sourceNodeId,sourceOutputKey with
  | some dep,some key =>
    match results.get? dep with
    | some { success := true,output,.. } =>
      match resolveNestedPath output key with
      | .ok value => .ok (context.set placeholder value,errors)
      | .error (.lookup e) =>
        let message := s!"Failed to resolve path '{key}' in dependency '{dep}': " ++ e.text
        .ok (context,errors ++ [message])
      | .error (.value e) => .error e
    | _ => .ok (context,errors ++ [s!"Dependency '{dep}' failed or did not run."])
  | _,_ => .ok (context,errors ++ [s!"Invalid input mapping for placeholder '{placeholder}'"])

def placeMapping (results : Results) (draft : Draft) (entry : String × InputMapping) :
    Except Exn Draft :=
  match entry.2 with
  | .reference dep key => placeReference results draft entry.1 dep key
  | .literal value => .ok (draft.1.set entry.1 value,draft.2)

def contextError (id : String) (errors : List String) : Exn :=
  let text := s!"Node '{id}' context validation failed:\n" ++ "\n".intercalate errors
  ⟨text,"CoreError(" ++ PythonText.repr text ++ ")"⟩

def buildNodeContext (node : NodeConfig) (results : Results) : Except Exn Context := do
  let (context,errors) ← node.inputMappings.foldlM (placeMapping results) (.empty,[])
  if errors.isEmpty then return context else throw (contextError node.id errors)

end ContextBuilder

/-- Successful dependencies are visible under their ids unless a mapping took the name. -/
def exposeDependency (results : Results) (context : Context) (dep : String) : Context :=
  match results.get? dep with
  | some { success := true,output,.. } => if output.isNone then context else context.setDefault dep output
  | _ => context

/-- Metadata goes below everything else; a nested `inputs` dict is also flattened. -/
def injectMetadata (current : Option GraphContext) (context : Context) : Context :=
  match current with
  | none => context
  | some { metadata := [],.. } => context
  | some { metadata,.. } =>
    match metadata.lookup "inputs" with
    | some (.dict inputs) =>
      (((OrderedDict.empty.set "inputs" (.dict inputs)).update inputs).update metadata).update context.items
    | _ => (OrderedDict.ofList metadata).update context.items

/-- `Workflow._build_node_context` with the current context of the manager. -/
def buildNodeContext (current : Option GraphContext) (node : NodeConfig) (results : Results) :
    Except Exn Context :=
  (ContextBuilder.buildNodeContext node results).map fun context =>
    injectMetadata current (node.dependencies.foldl (exposeDependency results) context)

/-- Only the mappings can make a context fail. -/
theorem buildNodeContext_error_iff (current : Option GraphContext) (node : NodeConfig)
    (results : Results) (e : Exn) :
    buildNodeContext current node results = .error e ↔
      ContextBuilder.buildNodeContext node results = .error e := by
  simp only [buildNodeContext]
  cases ContextBuilder.buildNodeContext node results <;> simp [Except.map]

end IceOS
