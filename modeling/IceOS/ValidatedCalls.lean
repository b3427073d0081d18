import IceOS.McpToolCalls

/-! What the name of a tool call was validated for, compared with the node that is run for it. -/
namespace IceOS.McpToolCalls

/-- The field that holds the name of the tool, agent, workflow or chain. -/
def nameField : ToolKind → Option String
  | .tool => some "tool_name"
  | .agent => some "package"
  | .workflow => some "workflow_ref"
  | .chain => some "chain_name"
  | .human | .monitor | .swarm => none

def inputsField : ToolKind → Option String
  | .tool => some "tool_args"
  | .agent => some "agent_config"
  | .workflow => some "workflow_inputs"
  | .chain => some "chain_inputs"
  | .human | .monitor | .swarm => none

/-- The argument of the call that holds the inputs of the node. -/
def inputsArgument : ToolKind → String
  | .agent => "context"
  | _ => "inputs"

def inputsValue (kind : ToolKind) (arguments : Entries) : Value := getD arguments (inputsArgument kind) (.dict [])

/-- The entries that the caller puts over the fields of the handler. -/
def spreadEntries (s : ToolServer) (kind : ToolKind) (arguments : Entries) : Option Entries :=
  match kind with
  | .tool => (dictOf s (getD arguments "options" (.dict []))).toOption
  | .agent | .workflow | .chain => dict? (getD arguments "config" (.dict []))
  | .human | .monitor | .swarm => some .empty

/-- The inputs as they ought to arrive: the caller's, and in a memory tool the identity of the request. -/
def owed (identity : Option String × Option String) (memory : Bool) (inputs : Entries) (key : String) : Option Value :=
  if memory = true ∧ key = "org_id" then identity.1.map .str
  else if memory = true ∧ key = "user_id" then identity.2.map .str
  else inputs.get? key

/-- A value holds the inputs as they ought to arrive. -/
def Owed (s : ToolServer) (r : ToolRequest) (kind : ToolKind) (name : String) (arguments : Entries) (v : Value) :
    Prop :=
  ∃ given inputs, dict? v = some given ∧ dict? (inputsValue kind arguments) = some inputs ∧
    ∀ key, given.get? key = owed (requestIdentity s r) (isMemoryTool kind name) inputs key

/-- The node does what the name of the call was validated for, on the inputs of the caller and for
the organisation and user of the request. -/
structure RunsAsValidated (s : ToolServer) (r : ToolRequest) (kind : ToolKind) (name : String) (arguments : Entries)
    (node : RunNode) : Prop where
  type : node.type.text = kind.text
  named : ∀ field ∈ nameField kind, node.entries.get? field = some (.str name)
  inputs : ∀ field ∈ inputsField kind, ∃ v, node.entries.get? field = some v ∧ Owed s r kind name arguments v

/-- The caller leaves the validated fields alone, and names no organisation or user to a memory tool
where the request has none. -/
structure LeavesFields (s : ToolServer) (r : ToolRequest) (kind : ToolKind) (name : String)
    (arguments options : Entries) : Prop where
  named : ∀ field ∈ nameField kind, ∀ v ∈ options.get? field, v = .str name
  inputs : ∀ field ∈ inputsField kind, ∀ v ∈ options.get? field, Owed s r kind name arguments v
  identity : ∀ field ∈ inputsField kind, options.get? field = none → isMemoryTool kind name = true →
    ∀ inputs ∈ dict? (inputsValue kind arguments),
      ((requestIdentity s r).1 = none → inputs.get? "org_id" = none) ∧
      ((requestIdentity s r).2 = none → inputs.get? "user_id" = none)

theorem getD_set_other (entries : Entries) {key other : String} (v default : Value) (different : key ≠ other) :
    getD (entries.set key v) other default = getD entries other default := by
  rw [getD,getD,OrderedDict.get?_set_other _ _ different]

theorem getD_set_same (entries : Entries) (key : String) (v default : Value) :
    getD (entries.set key v) key default = v := by
  rw [getD,OrderedDict.get?_set_same,Option.getD_some]

theorem setPart_eq_ok {key : String} {part : Option String} {v w : Value} {given : Entries}
    (ran : setPart key part v = .ok w) (dict : dict? w = some given) :
    ∃ inputs, dict? v = some inputs ∧
      ∀ k, given.get? k = if k = key then (part.map Value.str).or (inputs.get? k) else inputs.get? k := by
  unfold setPart at ran
  split at ran
  · cases ran
    exact ⟨given,dict,fun k => by simp⟩
  · next text =>
    split at ran
    · next entries =>
      cases ran
      rw [dict?_items] at dict
      cases dict
      refine ⟨.ofList entries,rfl,fun k => ?_⟩
      rw [OrderedDict.get?_set]
      by_cases same : key = k
      · simp [same]
      · simp [same,Ne.symm same]
    · contradiction
    · contradiction

theorem injectIdentity_eq_ok {identity : Option String × Option String} {arguments result : Entries}
    (ran : injectIdentity identity arguments = .ok result) :
    ∃ v, result = arguments.set "inputs" v ∧ ∀ given, dict? v = some given →
      ∃ inputs, dict? (getD arguments "inputs" (.dict [])) = some inputs ∧
        ∀ key, given.get? key =
          if key = "org_id" then (identity.1.map Value.str).or (inputs.get? key)
          else if key = "user_id" then (identity.2.map Value.str).or (inputs.get? key)
          else inputs.get? key := by
  obtain ⟨first,org,ran⟩ := ExceptRules.bind_eq_ok.mp ran
  obtain ⟨second,user,ran⟩ := ExceptRules.bind_eq_ok.mp ran
  cases ran
  refine ⟨second,rfl,fun given dict => ?_⟩
  obtain ⟨middle,dict,later⟩ := setPart_eq_ok user dict
  obtain ⟨inputs,dict,early⟩ := setPart_eq_ok org dict
  refine ⟨inputs,dict,fun key => ?_⟩
  rw [later,early]
  by_cases org : key = "org_id"
  · simp [org]
  · simp [org]

/-- What the handler works on in place of the arguments of the caller. -/
theorem scopedArguments_eq_ok {s : ToolServer} {r : ToolRequest} {kind : ToolKind} {name : String} {v within : Value}
    {result : Entries} (ran : scopedArguments s r kind name v = .ok within) (dict : dict? within = some result) :
    ∃ arguments, dict? v = some arguments ∧
      if isMemoryTool kind name = true then injectIdentity (requestIdentity s r) arguments = .ok result
      else result = arguments := by
  unfold scopedArguments at ran
  split at ran
  · next memory =>
    obtain ⟨arguments,known,ran⟩ := ExceptRules.bind_eq_ok.mp ran
    obtain ⟨entries,inject,ran⟩ := ExceptRules.bind_eq_ok.mp ran
    cases ran
    rw [dict?_items] at dict
    cases dict
    exact ⟨arguments,asDict_eq_ok.mp known,by rw [if_pos memory]; exact inject⟩
  · next plain =>
    cases ran
    exact ⟨result,dict,by rw [if_neg plain]⟩

theorem get?_spread (fixed : List (String × Value)) (options : Entries) (key : String) :
    (spread fixed options).get? key = (options.get? key).or ((OrderedDict.ofList fixed).get? key) :=
  OrderedDict.get?_update_items _ options key

/-- The fields of the name and of the inputs, as the handler builds them. -/
structure Built (kind : ToolKind) (name : String) (arguments options entries : Entries) : Prop where
  named : ∀ field ∈ nameField kind, entries.get? field = some ((options.get? field).getD (.str name))
  inputs : ∀ field ∈ inputsField kind,
    entries.get? field = some ((options.get? field).getD (inputsValue kind arguments))

theorem nodeEntries_built {s : ToolServer} {kind : ToolKind} {name suffix : String} {arguments entries : Entries}
    (ran : nodeEntries s kind name suffix arguments = .ok entries) :
    ∃ options, spreadEntries s kind arguments = some options ∧ Built kind name arguments options entries := by
  have field (o : Option Value) (v : Value) : o.or (some v) = some (o.getD v) := by cases o <;> rfl
  cases kind with
  | tool =>
    obtain ⟨options,read,ran⟩ := ExceptRules.bind_eq_ok.mp ran
    cases ran
    refine ⟨options,ExceptRules.toOption_eq_some.mpr read,⟨fun key here => ?_,fun key here => ?_⟩⟩
    all_goals
      cases here
      rw [get?_spread,OrderedDict.get?_setDefault,OrderedDict.get?_setDefault,if_neg (by decide),if_neg (by decide),
        Option.or_none,Option.or_none,← field]
      rfl
  | agent | workflow | chain =>
    obtain ⟨options,read,ran⟩ := ExceptRules.bind_eq_ok.mp ran
    cases ran
    refine ⟨options,mappingOf_eq_ok.mp read,⟨fun key here => ?_,fun key here => ?_⟩⟩
    all_goals
      cases here
      rw [get?_spread,← field]
      rfl
  | human | monitor | swarm => exact ⟨.empty,rfl,⟨nofun,nofun⟩⟩

/-- A node class takes the fields of no other kind of call, so what is run has the type of the call. -/
theorem runs_type {s : ToolServer} {kind : ToolKind} {name suffix : String} {arguments entries : Entries}
    {node : RunNode} (ran : nodeEntries s kind name suffix arguments = .ok entries)
    (accepted : Accepted s entries node) : node.type.text = kind.text := by
  have set {key : String} (v : Value) (known : entries.get? key = some v) : key ∈ baseFields ++ ownFields node.type :=
    accepted.fields key ((OrderedDict.mem_keys _ _).mpr (by rw [known]; rfl))
  obtain ⟨options,-,built⟩ := nodeEntries_built ran
  have own (key : String) (base : key ∉ baseFields) (only : ∀ type, key ∈ ownFields type → type.text = kind.text)
      (v : Value) (known : entries.get? key = some v) : node.type.text = kind.text :=
    only node.type ((List.mem_append.mp (set v known)).resolve_left base)
  have typed (known : entries.get? "type" = some (.str kind.text)) : node.type.text = kind.text := by
    have found := accepted.type
    rw [known] at found
    simpa using List.find?_some found
  cases kind with
  | tool =>
    refine own "tool_name" (by decide) (fun type here => ?_) _ (built.named _ rfl)
    cases type <;> first | rfl | exact absurd here (by decide)
  | agent =>
    refine own "package" (by decide) (fun type here => ?_) _ (built.named _ rfl)
    cases type <;> first | rfl | exact absurd here (by decide)
  | workflow =>
    refine own "workflow_inputs" (by decide) (fun type here => ?_) _ (built.inputs _ rfl)
    cases type <;> exact absurd here (by decide)
  | chain =>
    refine own "chain_inputs" (by decide) (fun type here => ?_) _ (built.inputs _ rfl)
    cases type <;> exact absurd here (by decide)
  | human | monitor | swarm =>
    cases ran
    exact typed rfl

/-- A part of the identity overrides what a memory tool is told, if the request has it. -/
theorem or_part_iff (part : Option String) (told : Option Value) :
    (part.map Value.str).or told = part.map Value.str ↔ (part = none → told = none) := by
  cases part with
  | none => simp
  | some text => simp

theorem injected_owed_iff {identity : Option String × Option String} {inputs given : Entries}
    (entry : ∀ key, given.get? key =
      if key = "org_id" then (identity.1.map Value.str).or (inputs.get? key)
      else if key = "user_id" then (identity.2.map Value.str).or (inputs.get? key)
      else inputs.get? key) :
    (∀ key, given.get? key = owed identity true inputs key) ↔
      (identity.1 = none → inputs.get? "org_id" = none) ∧ (identity.2 = none → inputs.get? "user_id" = none) := by
  constructor
  · intro equal
    constructor
    · apply (or_part_iff identity.1 _).mp
      exact (entry "org_id").symm.trans (equal "org_id")
    · apply (or_part_iff identity.2 _).mp
      exact (entry "user_id").symm.trans (equal "user_id")
  · rintro ⟨org,user⟩ key
    rw [entry]
    by_cases isOrg : key = "org_id"
    · subst isOrg
      exact (or_part_iff identity.1 _).mpr org
    · by_cases isUser : key = "user_id"
      · subst isUser
        exact (or_part_iff identity.2 _).mpr user
      · simp [owed,isOrg,isUser]

/-- The inputs of the handler carry what they ought to, unless a memory tool is told of an
organisation or a user that the request does not have. -/
theorem owed_inputsValue_iff {s : ToolServer} {r : ToolRequest} {kind : ToolKind} {name : String} {v within : Value}
    {arguments result : Entries} (ran : scopedArguments s r kind name v = .ok within)
    (dict : dict? within = some result) (known : dict? v = some arguments)
    (typed : (dict? (inputsValue kind result)).isSome) :
    Owed s r kind name arguments (inputsValue kind result) ↔
      (isMemoryTool kind name = true → ∀ inputs ∈ dict? (inputsValue kind arguments),
        ((requestIdentity s r).1 = none → inputs.get? "org_id" = none) ∧
        ((requestIdentity s r).2 = none → inputs.get? "user_id" = none)) := by
  obtain ⟨given,holds⟩ := Option.isSome_iff_exists.mp typed
  obtain ⟨_,same,scope⟩ := scopedArguments_eq_ok ran dict
  cases known.symm.trans same
  by_cases memory : isMemoryTool kind name = true
  · rw [if_pos memory] at scope
    obtain ⟨w,rfl,injected⟩ := injectIdentity_eq_ok scope
    have tool : kind = .tool := by
      cases kind <;> first | rfl | exact absurd memory (by simp [isMemoryTool])
    subst tool
    have value : inputsValue .tool (arguments.set "inputs" w) = w := getD_set_same _ _ _ _
    rw [value] at holds ⊢
    obtain ⟨inputs,caller,entry⟩ := injected given holds
    have caller : dict? (inputsValue .tool arguments) = some inputs := caller
    have told := injected_owed_iff entry
    constructor
    · rintro ⟨_,_,first,second,equal⟩ - _ third
      cases holds.symm.trans first
      cases caller.symm.trans second
      cases caller.symm.trans third
      rw [memory] at equal
      exact told.mp equal
    · intro silent
      refine ⟨given,inputs,holds,caller,?_⟩
      rw [memory]
      exact told.mpr (silent memory inputs caller)
  · rw [if_neg memory] at scope
    subst scope
    constructor
    · intro _ remembers
      exact absurd remembers memory
    · intro _
      exact ⟨given,given,holds,holds,fun key => by simp [owed,memory]⟩

theorem isSome_dict? {v : Value} (isDict : v.isDict = true) : (dict? v).isSome = true := by
  cases v <;> first | rfl | contradiction

/-- The inputs of a node that is run are a dictionary. No class has the inputs of a workflow or a chain. -/
theorem inputs_typed {s : ToolServer} {kind : ToolKind} {entries : Entries} {node : RunNode} {field : String}
    {v : Value} (accepted : Accepted s entries node) (type : node.type.text = kind.text)
    (here : field ∈ inputsField kind) (value : entries.get? field = some v) : (dict? v).isSome := by
  have typed := accepted.typed
  have stands : node.entries.get? field = some v := by
    rw [accepted.entries]
    exact OrderedDict.get?_setDefault_known value _ _
  have allowed : field ∈ baseFields ++ ownFields node.type :=
    accepted.fields field ((OrderedDict.mem_keys _ _).mpr (by rw [value]; rfl))
  cases kind with
  | tool =>
    cases here
    have isTool : node.type = .tool := by
      cases h : node.type <;> first | rfl | (rw [h] at type; exact absurd type (by decide))
    simp only [isTool,fieldTypes,getD,stands,Option.getD_some,Bool.and_eq_true] at typed
    exact isSome_dict? typed.2
  | agent =>
    cases here
    have isAgent : node.type = .agent := by
      cases h : node.type <;> first | rfl | (rw [h] at type; exact absurd type (by decide))
    simp only [isAgent,fieldTypes,getD,stands,Option.getD_some,Bool.and_eq_true] at typed
    exact isSome_dict? typed.2
  | workflow | chain =>
    cases here
    cases h : node.type <;> rw [h] at allowed <;> exact absurd allowed (by decide)
  | human | monitor | swarm => contradiction

/-- A call is run as its name was validated. -/
def Validated (s : ToolServer) (r : ToolRequest) (node : RunNode) : Prop :=
  ∀ kind name arguments, parseName s (calledName r) = .ok (kind,name) → dict? (calledArguments r) = some arguments →
    RunsAsValidated s r kind name arguments node

def Harmless (s : ToolServer) (r : ToolRequest) : Prop :=
  ∀ kind name arguments options, parseName s (calledName r) = .ok (kind,name) →
    dict? (calledArguments r) = some arguments → spreadEntries s kind arguments = some options →
    LeavesFields s r kind name arguments options

theorem spreadEntries_scoped {s : ToolServer} {r : ToolRequest} {kind : ToolKind} {name : String} {v within : Value}
    {arguments result : Entries} (ran : scopedArguments s r kind name v = .ok within)
    (dict : dict? within = some result) (known : dict? v = some arguments) :
    spreadEntries s kind result = spreadEntries s kind arguments := by
  obtain ⟨_,same,scope⟩ := scopedArguments_eq_ok ran dict
  cases known.symm.trans same
  split at scope
  · obtain ⟨w,rfl,-⟩ := injectIdentity_eq_ok scope
    cases kind <;> simp [spreadEntries,getD_set_other]
  · rw [scope]

/-- A node that is run for a call is the validated one just if the caller left its fields alone. -/
theorem validated_iff (s : ToolServer) (r : ToolRequest) (node : RunNode) (ran : handleToolsCall s r = .ok node) :
    Validated s r node ↔ Harmless s r := by
  obtain ⟨kind,name,within,result,entries,parsed,scope,dict,built,accepted⟩ := handleToolsCall_eq_ok ran
  obtain ⟨arguments,known,-⟩ := scopedArguments_eq_ok scope dict
  have type := runs_type built accepted
  obtain ⟨options,merged,fields⟩ := nodeEntries_built built
  rw [spreadEntries_scoped scope dict known] at merged
  have kept {field : String} {v : Value} (value : entries.get? field = some v) : node.entries.get? field = some v := by
    rw [accepted.entries]
    exact OrderedDict.get?_setDefault_known value _ _
  constructor
  · intro valid _ _ _ _ parsed' known' merged'
    cases parsed.symm.trans parsed'
    cases known.symm.trans known'
    cases merged.symm.trans merged'
    obtain ⟨-,named,inputs⟩ := valid kind name arguments parsed known
    refine ⟨fun field here v set => ?_,fun field here v set => ?_,fun field here unset => ?_⟩
    · have value := fields.named field here
      rw [Option.mem_def.mp set,Option.getD_some] at value
      exact Option.some.inj ((kept value).symm.trans (named field here))
    · have value := fields.inputs field here
      rw [Option.mem_def.mp set,Option.getD_some] at value
      obtain ⟨w,stands,owed⟩ := inputs field here
      rwa [Option.some.inj ((kept value).symm.trans stands)]
    · have value := fields.inputs field here
      rw [unset,Option.getD_none] at value
      have typed := inputs_typed accepted type here value
      obtain ⟨w,stands,owed⟩ := inputs field here
      rw [← Option.some.inj ((kept value).symm.trans stands)] at owed
      exact (owed_inputsValue_iff scope dict known typed).mp owed
  · intro harmless _ _ _ parsed' known'
    cases parsed.symm.trans parsed'
    cases known.symm.trans known'
    obtain ⟨named,inputs,identity⟩ := harmless kind name arguments options parsed known merged
    refine ⟨type,fun field here => ?_,fun field here => ?_⟩
    · have value := kept (fields.named field here)
      cases set : options.get? field with
      | none => rwa [set,Option.getD_none] at value
      | some v => rwa [set,Option.getD_some,named field here v set] at value
    · have value := fields.inputs field here
      cases set : options.get? field with
      | none =>
        rw [set,Option.getD_none] at value
        have typed := inputs_typed accepted type here value
        exact ⟨_,kept value,(owed_inputsValue_iff scope dict known typed).mpr (identity field here set)⟩
      | some v =>
        rw [set,Option.getD_some] at value
        exact ⟨v,kept value,inputs field here v set⟩

/-- A server with two tools, a token of `ann` at `acme`, and no further check. -/
def smallServer : ToolServer where
  env := fun _ => none
  db := ⟨id,fun hash => .ok (if hash = "t" then some { orgId := some "acme",userId := some "ann" } else none),0⟩
  tools := ["read","delete"]
  agents := []
  workflows := []
  shownTypes := ""
  badName := fun _ => typeError ""
  badDict := fun _ => typeError ""
  refusal := fun _ _ => none

/-- A call of `read` by `ann`. -/
def readCall (options : List (String × Value)) (orgId userId : Option String) : ToolRequest where
  headers := some { authorization := some "Bearer t",orgId := orgId,userId := userId }
  params := .ofList [("name",.str "tool:read"),("arguments",.dict [("options",.dict options)])]
  suffix := "00000000"

theorem validated_iff_plain : ∃ node, handleToolsCall smallServer (readCall [] none none) = .ok node ∧
    (Validated smallServer (readCall [] none none) node ↔ Harmless smallServer (readCall [] none none)) :=
  ⟨_,rfl,validated_iff _ _ _ rfl⟩

/-- The options of a call of `read` make it a call of `delete`. -/
theorem options_choose_tool : ∃ node,
    handleToolsCall smallServer (readCall [("tool_name",.str "delete")] none none) = .ok node ∧
      ¬Validated smallServer (readCall [("tool_name",.str "delete")] none none) node := by
  refine ⟨_,rfl,fun valid => ?_⟩
  have named := (valid .tool "read" _ rfl rfl).named "tool_name" rfl
  have run : some (Value.str "delete") = some (Value.str "read") := named
  exact absurd run (by simp)

/-- Two headers make `ann` at `acme` somebody else. -/
theorem headers_choose_identity :
    Bears smallServer (readCall [] (some "other") (some "bob")) "acme" "ann" ∧
      ¬ActsForOwner smallServer (readCall [] (some "other") (some "bob")) none none := by
  have bears : Bears smallServer (readCall [] (some "other") (some "bob")) "acme" "ann" :=
    ⟨_,rfl,_,rfl,rfl,_,rfl,rfl,rfl⟩
  refine ⟨bears,fun acts => ?_⟩
  exact absurd (acts "acme" "ann" bears).1 (by decide)

end IceOS.McpToolCalls
