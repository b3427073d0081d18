import IceOS.ApiSecurity
import IceOS.ExceptRules

/-! The `tools/call` method of the MCP server: from the parameters of a request to the node
that is run for it, with the identity that memory tools act under. -/
namespace IceOS.McpToolCalls

open ApiSecurity (TokenStore RequestHeaders BoundTo NamesIdentity getRequestIdentity getRequestIdentity_in_loop)

abbrev Entries := OrderedDict String Value

/-- The part of a tool name before the colon. -/
inductive ToolKind where
  | tool | agent | workflow | chain | human | monitor | swarm
  deriving DecidableEq, Repr

def ToolKind.text : ToolKind → String
  | .tool => "tool"
  | .agent => "agent"
  | .workflow => "workflow"
  | .chain => "chain"
  | .human => "human"
  | .monitor => "monitor"
  | .swarm => "swarm"

def validTypes : List ToolKind := [.tool,.agent,.workflow,.chain,.human,.monitor,.swarm]

/-- The registries, how a set of texts prints, what a name that is no text and `dict` of something else
than pairs raise, and what the node classes, the blueprint checks and the budget preflight say beyond
the checks written out here. -/
structure ToolServer where
  env : Environ
  db : TokenStore
  tools : List String
  agents : List String
  workflows : List String
  shownTypes : String
  badName : Value → Exn
  badDict : Value → Exn
  refusal : NodeType → Entries → Option Exn

/-- What a request brings: its headers, unless no request is at hand, and the parameters. -/
structure ToolRequest where
  headers : Option RequestHeaders
  params : Entries
  suffix : String

def typeName : Value → String
  | .none => "NoneType"
  | .bool _ => "bool"
  | .int _ => "int"
  | .str _ => "str"
  | .list _ => "list"
  | .dict _ => "dict"
  | .other name _ => name

def attributeError (text : String) : Exn := ⟨text,"AttributeError(" ++ PythonText.repr text ++ ")"⟩

def dict? : Value → Option Entries
  | .dict entries => some (.ofList entries)
  | _ => none

/-- A value on which `get` is called. -/
def asDict (v : Value) : Except Exn Entries :=
  match dict? v with
  | some entries => .ok entries
  | none => .error (attributeError ("'" ++ typeName v ++ "' object has no attribute 'get'"))

def getD (entries : Entries) (key : String) (default : Value) : Value := (entries.get? key).getD default

/-- `text.split(":", 1)` of a text with a colon. -/
def splitColon (text : String) : Option (String × String) :=
  match text.toList.dropWhile (· ≠ ':') with
  | [] => none
  | _ :: name => some (String.ofList (text.toList.takeWhile (· ≠ ':')),String.ofList name)

def parseName (s : ToolServer) (toolName : Value) : Except Exn (ToolKind × String) :=
  if !toolName.truthy then .error (valueError "Tool name is required")
  else match toolName with
    | .str text =>
      match splitColon text with
      | none => .error (valueError
          ("Invalid tool name format: " ++ text ++ ". Expected format: 'type:name'"))
      | some (toolType,name) =>
        if PythonText.strip name = "" then .error (valueError ("Empty tool name for type: " ++ toolType))
        else match validTypes.find? (·.text == toolType) with
          | some kind => .ok (kind,name)
          | none => .error (valueError
              ("Unsupported tool type: " ++ toolType ++ ". Valid types: " ++ s.shownTypes))
    | v => .error (s.badName v)

/-- The tools that act for an organisation and a user. -/
def memoryTools : List String :=
  ["memory_write_tool","memory_search_tool","ingestion_tool","recent_session_tool","memory_summarize_tool"]

def isMemoryTool (kind : ToolKind) (name : String) : Bool := kind == .tool && memoryTools.contains name

/-- The handler is a coroutine, so an event loop is running. -/
def requestIdentity (s : ToolServer) (r : ToolRequest) : Option String × Option String :=
  match r.headers with
  | some headers => getRequestIdentity s.env s.db true headers
  | none => (none,none)

/-- The same request with other identity headers. -/
def ToolRequest.withIdentity (r : ToolRequest) (orgId userId : Option String) : ToolRequest :=
  { r with headers := r.headers.map fun headers => { headers with orgId := orgId,userId := userId } }

/-- A stored token of an organisation and a user comes with the request. -/
def Bears (s : ToolServer) (r : ToolRequest) (org user : String) : Prop :=
  ∃ headers ∈ r.headers, ∃ auth ∈ headers.authorization, BoundTo s.db auth org user

/-- A request acts for the owner of its token, and so it does under other identity headers. -/
def ActsForOwner (s : ToolServer) (r : ToolRequest) (orgId userId : Option String) : Prop :=
  ∀ org user, Bears s r org user →
    requestIdentity s r = (some org,some user) ∧ requestIdentity s (r.withIdentity orgId userId) = requestIdentity s r

/-- The identity headers before and after the change both name the owner of the token. -/
def HeadersNameOwner (s : ToolServer) (r : ToolRequest) (orgId userId : Option String) : Prop :=
  ∀ org user, Bears s r org user → (∀ headers ∈ r.headers, NamesIdentity s.env headers.orgId headers.userId org user) ∧
    NamesIdentity s.env orgId userId org user

theorem requestIdentity_eq_iff (s : ToolServer) (r : ToolRequest) (headers : RequestHeaders)
    (present : r.headers = some headers) (org user : String) :
    requestIdentity s r = (some org,some user) ↔ NamesIdentity s.env headers.orgId headers.userId org user := by
  simp only [requestIdentity,present,getRequestIdentity_in_loop,NamesIdentity,Prod.mk.injEq]

/-- A tool call acts for the owner of its token just if the identity headers say so themselves. -/
theorem actsForOwner_iff (s : ToolServer) (r : ToolRequest) (orgId userId : Option String) :
    ActsForOwner s r orgId userId ↔ HeadersNameOwner s r orgId userId := by
  refine forall₃_congr fun org user bears => ?_
  obtain ⟨headers,present,-⟩ := bears
  have own := requestIdentity_eq_iff s r headers present org user
  have replaced : (r.withIdentity orgId userId).headers = some { headers with orgId := orgId,userId := userId } := by
    rw [ToolRequest.withIdentity,Option.mem_def.mp present,Option.map_some]
  have changed := requestIdentity_eq_iff s (r.withIdentity orgId userId) _ replaced org user
  simp only [Option.mem_def.mp present,Option.mem_def,Option.some.injEq,forall_eq']
  rw [← own,← changed]
  constructor
  · rintro ⟨first,second⟩
    exact ⟨first,second.trans first⟩
  · rintro ⟨first,second⟩
    exact ⟨first,second.trans first.symm⟩

/-- `inputs[key] = part` where the identity has that part. -/
def setPart (key : String) (part : Option String) (inputs : Value) : Except Exn Value :=
  match part with
  | none => .ok inputs
  | some text =>
    match inputs with
    | .dict entries => .ok (.dict ((OrderedDict.ofList entries).set key (.str text)).items)
    | .list _ => .error (typeError "list indices must be integers or slices, not str")
    | v => .error (typeError ("'" ++ typeName v ++ "' object does not support item assignment"))

def injectIdentity (identity : Option String × Option String) (arguments : Entries) : Except Exn Entries := do
  let inputs ← setPart "org_id" identity.1 (getD arguments "inputs" (.dict []))
  let inputs ← setPart "user_id" identity.2 inputs
  return arguments.set "inputs" inputs

def validateToolExists (s : ToolServer) (kind : ToolKind) (name : String) : Except Exn Unit :=
  match kind with
  | .tool => if name ∈ s.tools then .ok () else .error (valueError ("Tool '" ++ name ++ "' not found"))
  | .agent => if name ∈ s.agents then .ok () else .error (valueError ("Agent '" ++ name ++ "' not found"))
  | .workflow =>
    if name ∈ s.workflows then .ok () else .error (valueError ("Workflow '" ++ name ++ "' not found"))
  | .chain | .human | .monitor | .swarm => .ok ()

/-- An item of a list that `dict` takes. A key that is no text is refused by the node model later. -/
def pairOf? : Value → Option (String × Value)
  | .list [.str key,v] => some (key,v)
  | .str text =>
    match text.toList with
    | [key,v] => some (String.ofList [key],.str (String.ofList [v]))
    | _ => none
  | .dict [(key,_),(v,_)] => some (key,.str v)
  | _ => none

/-- `dict(value or {})` -/
def dictOf (s : ToolServer) (v : Value) : Except Exn Entries :=
  if !v.truthy then .ok .empty
  else match v with
    | .dict entries => .ok (.ofList entries)
    | .list items => ((items.mapM pairOf?).map .ofList).elim (.error (s.badDict v)) .ok
    | v => .error (s.badDict v)

/-- `**value` in a dictionary display. -/
def mappingOf (v : Value) : Except Exn Entries :=
  match dict? v with
  | some entries => .ok entries
  | none => .error (typeError ("'" ++ typeName v ++ "' object is not a mapping"))

def envInt (s : ToolServer) (name : String) (default : Int) : Int :=
  ((s.env name).bind PythonText.int?).getD default

/-- Later entries win: what is spread stands after the fields that the handler sets. -/
def spread (fixed : List (String × Value)) (options : Entries) : Entries :=
  (OrderedDict.ofList fixed).update options.items

def schema (name type : String) : Value := .dict [(name,.str type)]

/-- The dictionary that the node is made of. -/
def nodeEntries (s : ToolServer) (kind : ToolKind) (name suffix : String) (arguments : Entries) :
    Except Exn Entries :=
  let id : Value := .str ("mcp_" ++ kind.text ++ "_" ++ name ++ "_" ++ suffix)
  match kind with
  | .tool => do
    let options ← dictOf s (getD arguments "options" (.dict []))
    let options := options.setDefault "timeout_seconds" (.int (envInt s "ICE_TOOL_DEFAULT_TIMEOUT_SECONDS" 30))
    let options := options.setDefault "retries" (.int (envInt s "ICE_TOOL_DEFAULT_RETRIES" 0))
    return spread [("id",id),("type",.str "tool"),("tool_name",.str name),
      ("tool_args",getD arguments "inputs" (.dict [])),("input_schema",schema "args" "dict"),
      ("output_schema",schema "result" "dict")] options
  | .agent => do
    let config ← mappingOf (getD arguments "config" (.dict []))
    return spread [("id",id),("type",.str "agent"),("package",.str name),
      ("agent_config",getD arguments "context" (.dict [])),("input_schema",schema "context" "dict"),
      ("output_schema",schema "response" "dict")] config
  | .workflow => do
    let config ← mappingOf (getD arguments "config" (.dict []))
    return spread [("id",id),("type",.str "workflow"),("workflow_ref",.str name),
      ("workflow_inputs",getD arguments "inputs" (.dict [])),("input_schema",schema "inputs" "dict"),
      ("output_schema",schema "outputs" "dict")] config
  | .chain => do
    let config ← mappingOf (getD arguments "config" (.dict []))
    return spread [("id",id),("type",.str "chain"),("chain_name",.str name),
      ("chain_inputs",getD arguments "inputs" (.dict [])),("input_schema",schema "inputs" "dict"),
      ("output_schema",schema "outputs" "dict")] config
  | .human => .ok (.ofList [("id",id),("type",.str "human"),("prompt_message",getD arguments "prompt" .none),
      ("approval_type",getD arguments "approval_type" (.str "approve_reject")),
      ("input_schema",schema "prompt" "string"),("output_schema",schema "approved" "bool")])
  | .monitor => .ok (.ofList [("id",id),("type",.str "monitor"),
      ("metric_expression",getD arguments "metric_expression" .none),
      ("action_on_trigger",getD arguments "action" (.str "alert_only")),
      ("alert_channels",getD arguments "alert_channels" (.list [])),
      ("input_schema",schema "context" "dict"),("output_schema",schema "triggered" "bool")])
  | .swarm => .ok (.ofList [("id",id),("type",.str "swarm"),("agents",getD arguments "agents" (.list [])),
      ("coordination_strategy",getD arguments "strategy" (.str "consensus")),
      ("input_schema",schema "context" "dict"),("output_schema",schema "result" "dict")])

def text? : Value → Option String
  | .str text => some text
  | _ => none

def texts? : Value → Option (List String)
  | .list items => items.mapM text?
  | _ => none

/-- A model of `NodeSpec`: any other field is allowed, and `entries` is what `model_dump` gives back. -/
structure SpecDict where
  id : String
  type : String
  dependencies : List String
  entries : Entries

def specError : Exn := valueError "validation errors for NodeSpec"

def modelValidate (entries : Entries) : Except Exn SpecDict :=
  match (entries.get? "id").bind text?,(entries.get? "type").bind text?,
    texts? (getD entries "dependencies" (.list [])) with
  | some id,some type,some dependencies => .ok ⟨id,type,dependencies,entries.setDefault "dependencies" (.list [])⟩
  | _,_,_ => .error specError

/-- The check of the blueprint that holds the node alone. -/
def checkDependencies (spec : SpecDict) : Except Exn Unit :=
  match spec.dependencies.find? (· ≠ spec.id) with
  | some dep => .error (valueError ("Node " ++ spec.id ++ " references missing dependency " ++ dep))
  | none => .ok ()

def nodeTypes : List NodeType :=
  [.tool,.llm,.agent,.code,.condition,.loop,.parallel,.recursive,.workflow,.human,.monitor,.swarm]

def baseFields : List String :=
  ["id","type","name","dependencies","level","metadata","provider","timeout_seconds","retries","backoff_seconds",
    "retry_policy","input_schema","output_schema","input_mappings","output_mappings","use_cache","input_selection",
    "output_selection","context_rules"]

/-- The fields a class of nodes has beside those of every node; it forbids any other. -/
def ownFields : NodeType → List String
  | .llm => ["model","prompt","llm_config","temperature","max_tokens","format_specifications","coerce_output_types",
      "coerce_input_types","output_format","json_schema"]
  | .tool => ["tool_name","tool_args"]
  | .agent => ["package","agent_attr","model","version_constraint","agent_config","tools","memory","max_iterations",
      "llm_config"]
  | .condition => ["expression","true_path","false_path"]
  | .workflow => ["workflow_ref","exposed_outputs","config_overrides"]
  | .loop => ["items_source","item_var","body","max_iterations","parallel"]
  | .parallel => ["branches","max_concurrency","merge_outputs"]
  | .recursive => ["recursive_sources","convergence_condition","max_iterations","agent_package","workflow_ref",
      "preserve_context","context_key"]
  | .code => ["language","code","sandbox","imports"]
  | .human => ["prompt_message","approval_type","auto_approve_after","choices","escalation_path"]
  | .monitor => ["metric_expression","action_on_trigger","alert_channels","check_interval_seconds"]
  | .swarm => ["agents","coordination_strategy","max_rounds","consensus_threshold"]

/-- The types of the fields that a call fills in. -/
def fieldTypes : NodeType → Entries → Bool
  | .tool,entries => ((entries.get? "tool_name").bind text?).isSome && (getD entries "tool_args" (.dict [])).isDict
  | .agent,entries => ((entries.get? "package").bind text?).isSome && (getD entries "agent_config" (.dict [])).isDict
  | _,_ => true

/-- The node as it is executed. -/
structure RunNode where
  id : String
  type : NodeType
  entries : Entries

def invalidBlueprint (text : String) : Exn :=
  ⟨"400: Invalid blueprint: " ++ text,
    "HTTPException(status_code=400, detail=" ++ PythonText.repr ("Invalid blueprint: " ++ text) ++ ")"⟩

def extraForbidden : Exn := valueError "Extra inputs are not permitted"

def badFieldType : Exn := valueError "Input should be a valid text or dictionary"

def convertNodeSpec (s : ToolServer) (spec : SpecDict) : Except Exn RunNode :=
  match nodeTypes.find? (·.text == spec.type) with
  | none => .error (invalidBlueprint spec.type)
  | some type =>
    if ¬spec.entries.keys.all (fun key => (baseFields ++ ownFields type).contains key) then
      .error (invalidBlueprint extraForbidden.text)
    else if ¬fieldTypes type spec.entries then .error (invalidBlueprint badFieldType.text)
    else match s.refusal type spec.entries with
      | some e => .error (invalidBlueprint e.text)
      | none => .ok ⟨spec.id,type,spec.entries⟩

/-- The arguments, with the identity in the inputs of a memory tool. -/
def scopedArguments (s : ToolServer) (r : ToolRequest) (kind : ToolKind) (name : String) (arguments : Value) :
    Except Exn Value :=
  if isMemoryTool kind name then do
    let entries ← asDict arguments
    let entries ← injectIdentity (requestIdentity s r) entries
    return .dict entries.items
  else .ok arguments

def calledName (r : ToolRequest) : Value := getD r.params "name" (.str "")

def calledArguments (r : ToolRequest) : Value := getD r.params "arguments" (.dict [])

/-- The call up to the node that is run for it. -/
def handleToolsCall (s : ToolServer) (r : ToolRequest) : Except Exn RunNode := do
  let (kind,name) ← parseName s (calledName r)
  let arguments ← scopedArguments s r kind name (calledArguments r)
  validateToolExists s kind name
  let arguments ← asDict arguments
  let entries ← nodeEntries s kind name r.suffix arguments
  let spec ← modelValidate entries
  checkDependencies spec
  convertNodeSpec s spec

/-! ### What a call that is run went through -/

@[simp] theorem dict?_items (entries : Entries) : dict? (.dict entries.items) = some entries := by
  simp only [dict?,Option.some.injEq]
  exact OrderedDict.ext_items (OrderedDict.ofList_items entries.items entries.nodup)

theorem asDict_eq_ok {v : Value} {entries : Entries} : asDict v = .ok entries ↔ dict? v = some entries := by
  unfold asDict
  split
  · next known => simp [known]
  · next unknown => simp [unknown]

theorem mappingOf_eq_ok {v : Value} {entries : Entries} : mappingOf v = .ok entries ↔ dict? v = some entries := by
  unfold mappingOf
  split
  · next known => simp [known]
  · next unknown => simp [unknown]

/-- A class of nodes accepts the entries of the node that is run. -/
structure Accepted (s : ToolServer) (entries : Entries) (node : RunNode) : Prop where
  type : ((entries.get? "type").bind text?).bind (fun text => nodeTypes.find? (·.text == text)) = some node.type
  fields : ∀ key ∈ entries.keys, key ∈ baseFields ++ ownFields node.type
  typed : fieldTypes node.type node.entries = true
  entries : node.entries = entries.setDefault "dependencies" (.list [])

theorem convertNodeSpec_eq_ok {s : ToolServer} {spec : SpecDict} {node : RunNode}
    (ran : convertNodeSpec s spec = .ok node) :
    nodeTypes.find? (·.text == spec.type) = some node.type ∧
      (∀ key ∈ spec.entries.keys, key ∈ baseFields ++ ownFields node.type) ∧
      fieldTypes node.type spec.entries = true ∧ node.entries = spec.entries := by
  unfold convertNodeSpec at ran
  split at ran
  · contradiction
  · next type known =>
    split_ifs at ran with extra typed
    split at ran
    · contradiction
    · cases ran
      refine ⟨known,fun key member => ?_,by simpa using typed,rfl⟩
      have allowed := List.all_eq_true.mp extra key member
      simpa using allowed

theorem modelValidate_eq_ok {entries : Entries} {spec : SpecDict} (ran : modelValidate entries = .ok spec) :
    (entries.get? "type").bind text? = some spec.type ∧
      spec.entries = entries.setDefault "dependencies" (.list []) := by
  unfold modelValidate at ran
  split at ran
  · next known _ =>
    cases ran
    exact ⟨known,rfl⟩
  · contradiction

theorem accepted_of_ok {s : ToolServer} {entries : Entries} {spec : SpecDict} {node : RunNode}
    (validated : modelValidate entries = .ok spec) (ran : convertNodeSpec s spec = .ok node) :
    Accepted s entries node := by
  obtain ⟨type,filled⟩ := modelValidate_eq_ok validated
  obtain ⟨known,fields,typed,same⟩ := convertNodeSpec_eq_ok ran
  refine ⟨by rw [type]; exact known,fun key member => fields key ?_,by rw [same]; exact typed,same.trans filled⟩
  rw [filled,OrderedDict.mem_keys,OrderedDict.get?_setDefault]
  rw [OrderedDict.mem_keys] at member
  rw [Option.isSome_or,member,Bool.true_or]

theorem handleToolsCall_eq_ok {s : ToolServer} {r : ToolRequest} {node : RunNode}
    (ran : handleToolsCall s r = .ok node) :
    ∃ kind name within arguments entries, parseName s (calledName r) = .ok (kind,name) ∧
      scopedArguments s r kind name (calledArguments r) = .ok within ∧ dict? within = some arguments ∧
      nodeEntries s kind name r.suffix arguments = .ok entries ∧ Accepted s entries node := by
  obtain ⟨⟨kind,name⟩,parsed,ran⟩ := ExceptRules.bind_eq_ok.mp ran
  obtain ⟨within,scope,ran⟩ := ExceptRules.bind_eq_ok.mp ran
  obtain ⟨-,-,ran⟩ := ExceptRules.bind_eq_ok.mp ran
  obtain ⟨arguments,dict,ran⟩ := ExceptRules.bind_eq_ok.mp ran
  obtain ⟨entries,built,ran⟩ := ExceptRules.bind_eq_ok.mp ran
  obtain ⟨spec,validated,ran⟩ := ExceptRules.bind_eq_ok.mp ran
  obtain ⟨-,-,ran⟩ := ExceptRules.bind_eq_ok.mp ran
  exact ⟨kind,name,within,arguments,entries,parsed,scope,asDict_eq_ok.mp dict,built,accepted_of_ok validated ran⟩

end IceOS.McpToolCalls
