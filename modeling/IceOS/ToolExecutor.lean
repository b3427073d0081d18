import IceOS.Workflow

/-! The built-in executor of tool nodes: the node's arguments with their templates rendered, merged with
the context of the node, flattened and cut down to what the tool's signature takes. No value of a context
is a result object, so contexts are clean as they are. -/
namespace IceOS

/-- A registered tool: the names in the signature of `_execute_impl`, and what a call of it does. -/
structure Tool (ω : Type) where
  parameters : List String
  execute : Context → ω → Reply × ω

structure ToolSettings where
  toolName : String
  toolArgs : Context := .empty

/-- The tool registry, the template engine (`none` where it is not installed) and the settings of the
tool nodes. -/
structure ToolRuntime (ω : Type) where
  tool : String → Except Exn (Tool ω)
  render : Option (String → Context → Except Exn String)
  settings : NodeConfig → ToolSettings

/-- A result-like dict stands for its output in templates. -/
def unwrapOutput : Value → Value
  | .dict entries =>
    if (entries.lookup "success").isSome ∧ ((entries.lookup "output").isSome ∨ (entries.lookup "error").isSome) then
      (entries.lookup "output").getD (.dict entries)
    else .dict entries
  | value => value

mutual

/-- The templates in a value, rendered. -/
def resolveTemplates (render : String → Except Exn String) : Value → Except Exn Value
  | .str text =>
    if PythonText.contains "\x7b\x7b" text && PythonText.contains "\x7d\x7d" text then (render text).map .str
    else .ok (.str text)
  | .dict entries => (resolveEntries render entries).map .dict
  | .list items => (resolveItems render items).map .list
  | value => .ok value

def resolveEntries (render : String → Except Exn String) :
    List (String × Value) → Except Exn (List (String × Value))
  | [] => .ok []
  | (key,value) :: rest => do
    let value ← resolveTemplates render value
    let rest ← resolveEntries render rest
    return (key,value) :: rest

def resolveItems (render : String → Except Exn String) : List Value → Except Exn (List Value)
  | [] => .ok []
  | value :: rest => do
    let value ← resolveTemplates render value
    let rest ← resolveItems render rest
    return value :: rest

end

/-- `resolve_jinja_templates` of a dict. -/
def resolveJinjaTemplates (render : Option (String → Context → Except Exn String)) (data ctx : Context) :
    Except Exn Context :=
  match render with
  | none => .ok data
  | some render =>
    let base := ctx.mapValues unwrapOutput
    (resolveEntries (render · base) data.items).map .ofList

/-- Parameters that the inputs leave open are looked for inside the dicts among them. -/
def flattenDependencyOutputs (expected : List String) (merged : Context) : Context :=
  merged.items.foldl (fun flattened entry =>
    if entry.2.isDict ∧ entry.1 ∉ expected then
      expected.foldl (fun flattened param =>
        match entry.2.entries.lookup param with
        | some value => flattened.setDefault param value
        | none => flattened) flattened
    else flattened) merged

namespace Tool

variable {ω : Type}

/-- The parameters that are passed by name. -/
def accepted (tool : Tool ω) : List String := tool.parameters.filter fun name => name ≠ "self" ∧ name ≠ "kwargs"

/-- A signature without names of its own takes everything. -/
def Accepts (tool : Tool ω) (key : String) : Prop := tool.accepted = [] ∨ key ∈ tool.accepted

instance (tool : Tool ω) (key : String) : Decidable (tool.Accepts key) :=
  inferInstanceAs (Decidable (tool.accepted = [] ∨ key ∈ tool.accepted))

/-- What the tool is called with. -/
def safeInputs (tool : Tool ω) (resolvedToolArgs ctx : Context) : Context :=
  let mergedInputs := resolvedToolArgs.update ctx.items
  let flattenedInputs := flattenDependencyOutputs tool.accepted mergedInputs
  if tool.accepted = [] then flattenedInputs else flattenedInputs.restrict (· ∈ tool.accepted)

end Tool

namespace ToolRuntime

variable {ω : Type}

/-- The arguments that the tool of a node receives in a context. -/
def arguments (rt : ToolRuntime ω) (node : NodeConfig) (ctx : Context) : Except Exn (Tool ω × Context) := do
  let tool ← rt.tool (rt.settings node).toolName
  let resolvedToolArgs ← resolveJinjaTemplates rt.render (rt.settings node).toolArgs ctx
  return (tool,tool.safeInputs resolvedToolArgs ctx)

/-- A dict is passed on, a result object unpacked, anything else put under `result`. -/
def normalise : Reply → Except Exn Value
  | .raised e => .error e
  | .result r =>
    .ok (if r.output.truthy then r.output else
      match r.error with | none | some "" => .dict [] | some text => .dict [("error",.str text)])
  | .value (.dict entries) => .ok (.dict entries)
  | .value value => .ok (.dict [("result",value)])

/-- Every exception becomes a failed result. -/
def run (rt : ToolRuntime ω) (node : NodeConfig) (ctx : Context) (w : ω) : NodeExecutionResult × ω :=
  match rt.arguments node ctx with
  | .error e => ({ success := false,error := some e.text,output := .dict [] },w)
  | .ok (tool,safeInputs) =>
    let (reply,w) := tool.execute safeInputs w
    match normalise reply with
    | .error e => ({ success := false,error := some e.text,output := .dict [] },w)
    | .ok output => ({ output },w)

end ToolRuntime

end IceOS
