import IceOS.ContextStores
import IceOS.JsonLines
import IceOS.McpToolCalls
import IceOS.PythonValues
import IceOS.Transcripts
import Mathlib.Logic.Function.Iterate

/-! The two servers that speak JSON-RPC: one behind a route, and one that reads lines and prints lines. They share the
handlers and the session. -/
namespace IceOS.JsonRpc

open McpToolCalls (attributeError)
open PythonFloats (typeName)
open PythonJson Transcripts

variable {φ σ : Type}

abbrev Members (φ : Type) := List (String × Json φ)

/-- `entries.get(key, default)` -/
def item (entries : Members φ) (key : String) (default : Json φ) : Json φ := (entries.lookup key).getD default

def setDefault (entries : Members φ) (key : String) (v : Json φ) : Members φ :=
  if (entries.lookup key).isSome then entries else entries ++ [(key,v)]

/-- Something else than a dictionary, on which `get` is called. -/
def noGet (v : Json φ) : Exn := attributeError ("'" ++ typeName v ++ "' object has no attribute 'get'")

/-- The methods that are routed by one of the servers. -/
inductive McpMethod where
  | init | toolsList | toolsCall | resourcesList | resourcesRead | promptsList | promptsGet | ping
  | componentsValidate | networkExecute | agentsList | agentsSchema
  deriving DecidableEq, Repr

namespace McpMethod

def name : McpMethod → String
  | init => "initialize"
  | toolsList => "tools/list"
  | toolsCall => "tools/call"
  | resourcesList => "resources/list"
  | resourcesRead => "resources/read"
  | promptsList => "prompts/list"
  | promptsGet => "prompts/get"
  | ping => "ping"
  | componentsValidate => "components/validate"
  | networkExecute => "network.execute"
  | agentsList => "agents/list"
  | agentsSchema => "agents/schema"

/-- Listing and `ping` are called without the parameters. -/
def takesParams : McpMethod → Bool
  | toolsList | resourcesList | promptsList | ping | agentsList => false
  | _ => true

end McpMethod

def httpMethods : List McpMethod :=
  [.init,.toolsList,.toolsCall,.resourcesList,.resourcesRead,.promptsList,.promptsGet,.ping,.componentsValidate,
    .networkExecute,.agentsList,.agentsSchema]

def stdioMethods : List McpMethod :=
  [.init,.toolsList,.toolsCall,.resourcesList,.resourcesRead,.promptsList,.promptsGet,.componentsValidate,
    .networkExecute]

def route (methods : List McpMethod) (name : String) : Option McpMethod := methods.find? (·.name == name)

/-! ### The session -/

/-- `mcp_session` -/
structure MCPSession (φ : Type) where
  initialized : Bool := false
  clientCapabilities : Json φ := .dict []
  protocolVersion : Json φ := .str "2024-11-05"

def mcpCapabilities : Json φ :=
  .dict [("tools",.dict [("listChanged",.bool true)]),
    ("resources",.dict [("subscribe",.bool true),("listChanged",.bool true)]),
    ("prompts",.dict [("listChanged",.bool true)]),("logging",.dict [])]

def mcpServerInfo : Json φ :=
  .dict [("name",.str "iceOS"),("version",.str "0.5.0-beta"),
    ("description",.str "Enterprise AI Workflow Orchestration Platform - The most sophisticated MCP server available")]

/-- The session is initialized before the client is asked for its name, which fails unless `clientInfo` is a
dictionary. -/
def handleInitialize (params : Json φ) (s : MCPSession φ) : Except Exn (Json φ) × MCPSession φ :=
  match params with
  | .dict entries =>
    let s : MCPSession φ :=
      ⟨true,item entries "capabilities" (.dict []),item entries "protocolVersion" (.str "2024-11-05")⟩
    match item entries "clientInfo" (.dict []) with
    | .dict _ =>
      (.ok (.dict [("protocolVersion",s.protocolVersion),("capabilities",mcpCapabilities),("serverInfo",mcpServerInfo)]),s)
    | info => (.error (noGet info),s)
  | params => (.error (noGet params),s)

/-- What a handler returns. An object that has no JSON form comes with what `json.dumps` raises for it. -/
inductive Reply (φ : Type) where
  | json (v : Json φ)
  | object (refusal : Exn)

/-- What `json.loads` raises: a `JSONDecodeError` with its text, or something else. -/
inductive LoadFailure where
  | decode (text : String)
  | raised (e : Exn)

/-- The handlers, with the state `σ` of everything they work on; the exceptions that are a `ValueError`; the loading of
the first tools; and what is made of an id that is no text and no integer, of an invalid request and of a line that is no
JSON. -/
structure McpServer (φ σ : Type) where
  floats : PythonFloats φ
  handler : McpMethod → Json φ → σ → Except Exn (Reply φ) × σ
  isValueError : Exn → Bool
  ensureTools : σ → σ
  coerceId : Json φ → Option Int
  invalid : Json φ → String
  unreadable : String → LoadFailure

abbrev State (φ σ : Type) := MCPSession φ × σ

/-- An answer to a notification is empty. -/
inductive Answer (φ : Type) where
  | silent
  | result (id : Json φ) (reply : Reply φ)
  | error (id : Json φ) (code : Int) (message : String) (data : Option String := none)

namespace McpServer

variable (server : McpServer φ σ)

def call (m : McpMethod) (params : Json φ) (s : State φ σ) : Except Exn (Reply φ) × State φ σ :=
  match m with
  | .init =>
    let done := handleInitialize params s.1
    (done.1.map .json,(done.2,s.2))
  | .ping => (.ok (.json (.dict [])),s)
  | m =>
    let done := server.handler m (if m.takesParams then params else .null) s.2
    (done.1,(s.1,done.2))

/-! ### The route -/

end McpServer

/-- The body of a request, or what reading it raises. -/
inductive Body (φ : Type) where
  | json (v : Json φ)
  | malformed (text : String)
  | failed (e : Exn)

structure MCPRequest (φ : Type) where
  method : String
  params : Option (Members φ) := none
  id : Option (Json φ) := none

/-- The name behind `tool/` in a method. -/
def legacyTool (method : String) : Option String :=
  if "tool/".toList.isPrefixOf method.toList then some (String.ofList (method.toList.drop 5)) else none

/-- `tool/<name>` calls the tool, whose name and type may be given all the same. -/
def MCPRequest.normalize (r : MCPRequest φ) : MCPRequest φ :=
  match legacyTool r.method with
  | none => r
  | some tool =>
    { r with
      method := "tools/call"
      params := some (setDefault (setDefault (r.params.getD []) "name" (.str ("tool:" ++ tool))) "type" (.str "tool")) }

/-- The id of a body that is no request. -/
def rawId : Json φ → Json φ
  | .dict entries => item entries "id" .null
  | _ => .null

namespace McpServer

variable (server : McpServer φ σ)

def readId : Json φ → Option (Option (Json φ))
  | .null => some none
  | .str text => some (some (.str text))
  | .int i => some (some (.int i))
  | v => (server.coerceId v).map fun i => some (.int i)

def readParams : Json φ → Option (Option (Members φ))
  | .null => some none
  | .dict entries => some (some entries)
  | _ => none

/-- `MCPRequest(**body)` -/
def readRequest : Json φ → Option (MCPRequest φ)
  | .dict entries =>
    match item entries "jsonrpc" (.str "2.0"),item entries "method" .null with
    | .str "2.0",.str method =>
      match readParams (item entries "params" .null),server.readId (item entries "id" .null) with
      | some params,some id => some ⟨method,params,id⟩
      | _,_ => none
    | _,_ => none
  | _ => none

def httpAnswer (id : Json φ) : Except Exn (Reply φ) → Answer φ
  | .ok reply => .result id reply
  | .error e =>
    if server.isValueError e then .error id (-32602) "Invalid params" (some e.text)
    else .error id (-32603) "Internal error" (some e.text)

def routed (r : MCPRequest φ) (id : Json φ) (s : State φ σ) : Answer φ × State φ σ :=
  match route httpMethods r.method with
  | none => (.error id (-32601) ("Method not found: " ++ r.method),s)
  | some m =>
    let done := server.call m (.dict (r.params.getD [])) s
    (server.httpAnswer id done.1,done.2)

/-- `mcp_jsonrpc_handler` -/
def serveHttp (s : State φ σ) : Body φ → Answer φ × State φ σ
  | .malformed text => (.error .null (-32700) "Parse error" (some text),s)
  | .failed e => (.error .null (-32000) "Server error" (some e.text),s)
  | .json v =>
    let s := (s.1,server.ensureTools s.2)
    match server.readRequest v with
    | none => (.error (rawId v) (-32600) "Invalid Request" (some (server.invalid v)),s)
    | some r =>
      match r.id with
      | none => (.silent,s)
      | some id =>
        if r.normalize.method ≠ "initialize" ∧ s.1.initialized = false then
          let init := handleInitialize (.dict (r.normalize.params.getD [])) s.1
          match init.1 with
          | .error _ => (.error id (-32002) "Server not initialized",(init.2,s.2))
          | .ok _ => server.routed r.normalize id (init.2,s.2)
        else server.routed r.normalize id s

/-! ### The lines -/

end McpServer

def errorBody (id : Json φ) (code : Int) (message : String) (data : Option String := none) : Json φ :=
  .dict [("jsonrpc",.str "2.0"),("id",id),
    ("error",.dict (("code",.int code) :: ("message",.str message) :: data.toList.map fun text => ("data",.str text)))]

def resultBody (id v : Json φ) : Json φ := .dict [("jsonrpc",.str "2.0"),("id",id),("result",v)]

/-- An answer as a value, unless that has no JSON form. -/
def Answer.body : Answer φ → Except Exn (Json φ)
  | .silent => .ok (.dict [])
  | .result id (.json v) => .ok (resultBody id v)
  | .result _ (.object refusal) => .error refusal
  | .error id code message data => .ok (errorBody id code message data)

namespace McpServer

variable (server : McpServer φ σ)

def lineAnswer (id : Json φ) : Except Exn (Reply φ) → Answer φ
  | .ok reply => .result id reply
  | .error e => .error id (-32000) e.text

/-- `handle_request` -/
def handleRequest (request : Members φ) (s : State φ σ) : Answer φ × State φ σ :=
  let id := item request "id" .null
  let method := item request "method" (.str "")
  let known := match method with
    | .str name => route stdioMethods name
    | _ => none
  match known with
  | none => (.error id (-32601) ("Method not found: " ++ server.floats.str method),s)
  | some m =>
    let done := server.call m (item request "params" (.dict [])) s
    (lineAnswer id done.1,done.2)

def serverError (e : Exn) : Json φ := errorBody .null (-32000) ("Server error: " ++ e.text)

/-- An answer that cannot be written is replaced by an error. -/
def print (answer : Answer φ) : String :=
  dumps server.floats.toFloatTexts <|
    match answer.body with
    | .ok v => if representable v then v else serverError (valueError tooManyDigits)
    | .error e => serverError e

/-- What the loop of `run` does with a line that is not blank. -/
def serveLine (s : State φ σ) (line : String) : String × State φ σ :=
  match loads server.floats.toFloatTexts (PythonText.strip line) with
  | some (.dict request) =>
    let done := server.handleRequest request s
    (server.print done.1,done.2)
  | some v => (dumps server.floats.toFloatTexts (serverError (noGet v)),s)
  | none =>
    match server.unreadable (PythonText.strip line) with
    | .decode text =>
      (dumps server.floats.toFloatTexts (errorBody .null (-32700) ("Parse error: " ++ text)),s)
    | .raised e => (dumps server.floats.toFloatTexts (serverError e),s)

def notBlank (line : String) : Bool := PythonText.strip line ≠ ""

/-- `run`, until the input ends: the lines that are printed. -/
def serveLines (lines : List String) (s : State φ σ) : List String × State φ σ :=
  exchange server.serveLine (lines.filter notBlank) s

end McpServer

/-! ### One request of the route -/

namespace Answer

def id? : Answer φ → Option (Json φ)
  | silent => none
  | result id _ => some id
  | error id .. => some id

def code : Answer φ → Option Int
  | error _ code .. => some code
  | _ => none

/-- A notification, or a body that is no request. -/
def Unrouted : Answer φ → Prop
  | silent => True
  | result .. => False
  | error _ code .. => code = -32700 ∨ code = -32600 ∨ code = -32000

end Answer

/-- The id that the answer to a body has to carry; a notification has none. -/
def McpServer.requestId (server : McpServer φ σ) : Body φ → Option (Json φ)
  | .json v => (server.readRequest v).elim (some (rawId v)) (·.id)
  | _ => some .null

theorem handleInitialize_initialized (entries : Members φ) (s : MCPSession φ) :
    (handleInitialize (.dict entries) s).2.initialized = true := by
  simp only [handleInitialize]
  split <;> rfl

namespace McpServer

variable (server : McpServer φ σ)

theorem httpAnswer_id (id : Json φ) (done : Except Exn (Reply φ)) : (server.httpAnswer id done).id? = some id := by
  cases done with
  | ok reply => rfl
  | error e =>
    simp only [httpAnswer]
    split <;> rfl

theorem httpAnswer_code (id : Json φ) (done : Except Exn (Reply φ)) : (server.httpAnswer id done).code ≠ some (-32002) := by
  cases done with
  | ok reply => simp [httpAnswer,Answer.code]
  | error e =>
    simp only [httpAnswer]
    split <;> simp [Answer.code]

theorem call_initialized (m : McpMethod) (entries : Members φ) {s : State φ σ} (open_ : s.1.initialized = true ∨ m = .init) :
    (server.call m (.dict entries) s).2.1.initialized = true := by
  cases m with
  | init => exact handleInitialize_initialized entries s.1
  | _ =>
    rcases open_ with initialized | same
    · exact initialized
    · cases same

/-- A request that is routed is answered under its id in an initialized session. -/
theorem routed_spec (r : MCPRequest φ) (id : Json φ) {s : State φ σ}
    (open_ : s.1.initialized = true ∨ r.method = "initialize") : (server.routed r id s).1.id? = some id ∧
      (server.routed r id s).1.code ≠ some (-32002) ∧ (server.routed r id s).2.1.initialized = true := by
  simp only [routed]
  cases found : route httpMethods r.method with
  | none =>
    refine ⟨rfl,by simp [Answer.code],?_⟩
    rcases open_ with initialized | same
    · exact initialized
    · rw [same] at found
      cases found
  | some m =>
    refine ⟨server.httpAnswer_id id _,server.httpAnswer_code id _,server.call_initialized m _ ?_⟩
    rcases open_ with initialized | same
    · exact .inl initialized
    · rw [same] at found
      cases found
      exact .inr rfl

/-- What a body leads to: it is not routed and changes nothing but the tools that are loaded, the session is refused once
and is initialized all the same, or the request is routed. -/
theorem serveHttp_cases (s : State φ σ) (body : Body φ) :
    (server.serveHttp s body).1.id? = server.requestId body ∧
      (((server.serveHttp s body).1.Unrouted ∧ (server.serveHttp s body).1.code ≠ some (-32002) ∧
          ((server.serveHttp s body).2 = s ∨ (server.serveHttp s body).2 = (s.1,server.ensureTools s.2))) ∨
        ((server.serveHttp s body).2.1.initialized = true ∧
          ((server.serveHttp s body).1.code = some (-32002) → s.1.initialized = false))) := by
  cases body with
  | malformed text => exact ⟨rfl,.inl ⟨.inl rfl,by simp [serveHttp,Answer.code],.inl rfl⟩⟩
  | failed e => exact ⟨rfl,.inl ⟨.inr (.inr rfl),by simp [serveHttp,Answer.code],.inl rfl⟩⟩
  | json v =>
    simp only [serveHttp,requestId]
    cases server.readRequest v with
    | none => exact ⟨rfl,.inl ⟨.inr (.inl rfl),by simp [Answer.code],.inr rfl⟩⟩
    | some r =>
      dsimp only [Option.elim_some]
      cases r.id with
      | none => exact ⟨rfl,.inl ⟨trivial,by simp [Answer.code],.inr rfl⟩⟩
      | some id =>
        dsimp only
        split
        · next closed =>
          have opens := handleInitialize_initialized (r.normalize.params.getD []) s.1
          cases (handleInitialize (.dict (r.normalize.params.getD [])) s.1).1 with
          | error e => exact ⟨rfl,.inr ⟨opens,fun _ => closed.2⟩⟩
          | ok v =>
            obtain ⟨same,fine,initialized⟩ := server.routed_spec r.normalize id
              (s := ((handleInitialize (.dict (r.normalize.params.getD [])) s.1).2,server.ensureTools s.2)) (.inl opens)
            exact ⟨same,.inr ⟨initialized,fun refused => absurd refused fine⟩⟩
        · next known =>
          have open_ : s.1.initialized = true ∨ r.normalize.method = "initialize" := by
            rw [not_and_or,Bool.not_eq_false,not_not] at known
            exact known.symm
          obtain ⟨same,fine,initialized⟩ := server.routed_spec r.normalize id (s := (s.1,server.ensureTools s.2)) open_
          exact ⟨same,.inr ⟨initialized,fun refused => absurd refused fine⟩⟩

theorem serveHttp_stays (s : State φ σ) (body : Body φ) (initialized : s.1.initialized = true) :
    (server.serveHttp s body).2.1.initialized = true := by
  rcases (server.serveHttp_cases s body).2 with ⟨-,-,same | same⟩ | ⟨opens,-⟩
  · rwa [same]
  · rw [same]
    exact initialized
  · exact opens

/-- Whatever comes over the route, every answer carries the id of its body. The session is refused once at most, after
nothing but notifications and bodies that are no requests; and as long as it is not initialized, no handler has run. -/
theorem http_handshake (bodies : List (Body φ)) (s : State φ σ) :
    List.Forall₂ (fun body answer => answer.id? = server.requestId body) bodies (exchange server.serveHttp bodies s).1 ∧
      (∀ before refused after, (exchange server.serveHttp bodies s).1 = before ++ refused :: after →
        refused.code = some (-32002) → (∀ a ∈ before, a.Unrouted) ∧ ∀ a ∈ after, a.code ≠ some (-32002)) ∧
      ((exchange server.serveHttp bodies s).2.1.initialized = false →
        (∀ a ∈ (exchange server.serveHttp bodies s).1, a.Unrouted) ∧
          ∃ loads, (exchange server.serveHttp bodies s).2 = (s.1,server.ensureTools^[loads] s.2)) := by
  have waits (s : State φ σ) (body : Body φ) :
      (server.serveHttp s body).2.1.initialized = true ∨ (server.serveHttp s body).1.Unrouted :=
    (server.serveHttp_cases s body).2.symm.imp And.left And.left
  refine ⟨?_,fun before refused after parts refusal => ?_,fun closed => ⟨?_,?_⟩⟩
  · exact exchange_related (fun s body => (server.serveHttp_cases s body).1) bodies s
  · refine refused_once server.serveHttp_stays (fun s body refused => ?_) waits parts refusal
    rcases (server.serveHttp_cases s body).2 with ⟨-,fine,-⟩ | ⟨opens,first⟩
    · exact absurd refused fine
    · exact ⟨Bool.eq_false_iff.mp (first refused),opens⟩
  · exact waiting_while_closed server.serveHttp_stays waits (Bool.eq_false_iff.mp closed)
  · -- the tools that are loaded are all that a body changes before the session is initialized
    have kept := @exchange_kept _ _ _ server.serveHttp
      (fun t => t.1.initialized = true ∨ ∃ loads, t = (s.1,server.ensureTools^[loads] s.2)) (fun t body inv => ?_)
      bodies s (.inr ⟨0,rfl⟩)
    · exact kept.resolve_left (Bool.eq_false_iff.mp closed)
    · rcases (server.serveHttp_cases t body).2 with ⟨-,-,same | same⟩ | ⟨opens,-⟩
      · rwa [same]
      · rw [same]
        refine inv.imp id fun reached => ?_
        obtain ⟨loads,rfl⟩ := reached
        exact ⟨loads + 1,by rw [Function.iterate_succ_apply']⟩
      · exact .inl opens

end McpServer

/-- Handlers that return their parameters. -/
def echoServer : McpServer Unit Unit where
  floats := { PythonJson.zeroTexts with
    repr := fun _ => "0.0", equal := fun _ _ => true, equalInt := fun _ i => decide (i = 0) }
  handler _ params s := (.ok (.json params),s)
  isValueError e := "ValueError(".toList.isPrefixOf e.shown.toList
  ensureTools := id
  coerceId _ := none
  invalid _ := ""
  unreadable := .decode

/-- A client without a name is refused with its first request, and accepted with the next one. -/
example : (exchange echoServer.serveHttp (List.replicate 2 (.json (.dict [("id",.int 1),("method",.str "tools/list"),
    ("params",.dict [("clientInfo",.str "me")])]))) ({},())).1.map Answer.code = [some (-32002),none] := by decide

/-! ### One line -/

theorem errorBody_fits {id : Json φ} (fits : representable id = true) {code : Int} (short : code.natAbs < 10 ^ 5)
    (message : String) : representable (errorBody id code message) = true := by
  have number : representable (.int code : Json φ) = true := int_representable short
  have text : representable (.str message : Json φ) = true := rfl
  have version : representable (.str "2.0" : Json φ) = true := rfl
  simp [errorBody,representable.eq_def (.dict _),representableEntries,fits,number,text,version]

theorem codes_short : ∀ code ∈ [(-32700 : Int),-32601,-32000], code.natAbs < 10 ^ 5 := by decide

theorem resultBody_fits (id v : Json φ) :
    representable (resultBody id v) = (representable id && representable v) := by
  have version : representable (.str "2.0" : Json φ) = true := rfl
  simp [resultBody,representable.eq_def (.dict _),representableEntries,version]

namespace McpServer

variable (server : McpServer φ σ)

/-- The id of the request on a line. -/
def lineId (line : String) : Json φ :=
  ((loads server.floats.toFloatTexts (PythonText.strip line)).map rawId).getD .null

/-- The request on a line can be answered with something that cannot be written. -/
def Unwritable (line : String) : Prop :=
  ∃ request s id reply, loads server.floats.toFloatTexts (PythonText.strip line) = some (.dict request) ∧
    (server.handleRequest request s).1 = .result id reply ∧ ∀ v, reply = .json v → representable v = false

/-- What is printed for a line is one line, which is read as an answer of JSON-RPC: a result under the id of the
request, or an error under that id. An error without an id takes the place of a result that cannot be written. -/
def Answers (line printed : String) : Prop :=
  '\n' ∉ printed.toList ∧ ∃ response, loads server.floats.toFloatTexts printed = some response ∧
    ((∃ v, response = resultBody (server.lineId line) v) ∨
      ∃ code message, code ∈ [-32700,-32601,-32000] ∧ (response = errorBody (server.lineId line) code message ∨
        response = errorBody .null code message ∧ server.Unwritable line))

theorem lineId_fits (line : String) : representable (server.lineId line) = true := by
  simp only [lineId]
  cases loaded : loads server.floats.toFloatTexts (PythonText.strip line) with
  | none => rfl
  | some v =>
    have fits := loads_representable _ loaded
    cases v with
    | dict entries =>
      simp only [Option.map_some,Option.getD_some,rawId,item]
      cases found : entries.lookup "id" with
      | none => rfl
      | some id => exact lookup_representable fits found
    | _ => rfl

theorem handleRequest_spec (request : Members φ) (s : State φ σ) :
    (∃ reply, (server.handleRequest request s).1 = .result (item request "id" .null) reply) ∨
      ∃ code message, code ∈ [-32601,-32000] ∧
        (server.handleRequest request s).1 = .error (item request "id" .null) code message := by
  simp only [handleRequest]
  split
  · exact .inr ⟨-32601,_,by simp,rfl⟩
  · next m _ =>
    cases (server.call m (item request "params" (.dict [])) s).1 with
    | ok reply => exact .inl ⟨reply,rfl⟩
    | error e => exact .inr ⟨-32000,e.text,by simp,rfl⟩

/-- A value that is printed is read back by whoever reads the line. -/
theorem answers_of {line : String} {response : Json φ} (fits : representable response = true)
    (form : (∃ v, response = resultBody (server.lineId line) v) ∨
      ∃ code message, code ∈ [-32700,-32601,-32000] ∧ (response = errorBody (server.lineId line) code message ∨
        response = errorBody .null code message ∧ server.Unwritable line)) :
    server.Answers line (dumps server.floats.toFloatTexts response) :=
  ⟨dumps_line _ response,response,loads_dumps _ fits,form⟩

theorem serveLine_answers (s : State φ σ) (line : String) : server.Answers line (server.serveLine s line).1 := by
  have failure (code : Int) (message : String) (listed : code ∈ [-32700,-32601,-32000]) :
      server.Answers line (dumps server.floats.toFloatTexts (errorBody (server.lineId line) code message)) :=
    server.answers_of (errorBody_fits (server.lineId_fits line) (codes_short code listed) message)
      (.inr ⟨code,message,listed,.inl rfl⟩)
  have unanswered (message : String) (unwritable : server.Unwritable line) :
      server.Answers line (dumps server.floats.toFloatTexts (errorBody .null (-32000) message)) :=
    server.answers_of (errorBody_fits rfl (by decide) message) (.inr ⟨-32000,message,by simp,.inr ⟨rfl,unwritable⟩⟩)
  have unread (null : server.lineId line = .null) (code : Int) (message : String)
      (listed : code ∈ [-32700,-32601,-32000]) :
      server.Answers line (dumps server.floats.toFloatTexts (errorBody .null code message)) := by
    rw [← null]
    exact failure code message listed
  simp only [serveLine]
  split
  · next request loaded =>
    have own : item request "id" .null = server.lineId line := by rw [lineId,loaded]; rfl
    have answered := server.handleRequest_spec request s
    rw [own] at answered
    obtain ⟨reply,answer⟩ | ⟨code,message,listed,answer⟩ := answered
    · rw [answer]
      simp only [print,Answer.body]
      cases reply with
      | object refusal => exact unanswered _ ⟨request,s,_,_,loaded,answer,fun v same => by cases same⟩
      | json v =>
        dsimp only
        split
        · next fits => exact server.answers_of fits (.inl ⟨v,rfl⟩)
        · next unfit =>
          refine unanswered _ ⟨request,s,_,_,loaded,answer,fun w same => ?_⟩
          cases same
          rw [resultBody_fits,server.lineId_fits line,Bool.true_and] at unfit
          exact Bool.eq_false_iff.mpr unfit
    · have member : code ∈ [-32700,-32601,-32000] := List.mem_cons_of_mem _ listed
      rw [answer]
      simp only [print,Answer.body,errorBody_fits (server.lineId_fits line) (codes_short code member) message,if_true]
      exact failure code message member
  · next v other loaded =>
    refine unread ?_ (-32000) _ (by simp)
    rw [lineId,loaded]
    cases v with
    | dict entries => exact (other entries rfl).elim
    | _ => rfl
  · next loaded =>
    have null : server.lineId line = .null := by rw [lineId,loaded]; rfl
    split
    · exact unread null (-32700) _ (by simp)
    · exact unread null (-32000) _ (by simp)

/-- Whatever lines come in, each one that is not blank is answered by one line, in their order. -/
theorem stdio_answers (lines : List String) (s : State φ σ) :
    List.Forall₂ server.Answers (lines.filter notBlank) (server.serveLines lines s).1 :=
  exchange_related server.serveLine_answers _ s

end McpServer

/-! ### Both transports -/

theorem McpMethod.name_inj {m k : McpMethod} (same : m.name = k.name) : m = k := by
  have found (m : McpMethod) : route httpMethods m.name = some m := by cases m <;> rfl
  exact Option.some.inj ((found m).symm.trans (same ▸ found k))

theorem route_eq_some {methods : List McpMethod} {name : String} {m : McpMethod} :
    route methods name = some m ↔ m ∈ methods ∧ m.name = name := by
  constructor
  · intro found
    have named := List.find?_some found
    exact ⟨List.mem_of_find?_eq_some found,beq_iff_eq.mp named⟩
  · rintro ⟨listed,rfl⟩
    cases found : route methods m.name with
    | none => exact absurd (beq_self_eq_true m.name) (List.find?_eq_none.mp found m listed)
    | some k =>
      have named := List.find?_some found
      rw [McpMethod.name_inj (beq_iff_eq.mp named)]

/-- The lines know some of the methods of the route. -/
theorem route_stdio (name : String) :
    route stdioMethods name = (route httpMethods name).filter fun m => decide (m ∈ stdioMethods) := by
  have subset : ∀ m ∈ stdioMethods, m ∈ httpMethods := by decide
  apply Option.ext
  intro m
  rw [Option.filter_eq_some_iff,route_eq_some,route_eq_some,decide_eq_true_eq]
  constructor
  · rintro ⟨listed,named⟩
    exact ⟨⟨subset m listed,named⟩,listed⟩
  · rintro ⟨⟨-,named⟩,listed⟩
    exact ⟨listed,named⟩

theorem route_legacy {name tool : String} (legacy : legacyTool name = some tool) (methods : List McpMethod) :
    route methods name = none := by
  cases found : route methods name with
  | none => rfl
  | some m =>
    rw [← (route_eq_some.mp found).2] at legacy
    cases m <;> cases legacy

namespace McpServer

variable (server : McpServer φ σ)

/-- A request for which the transports make no difference: its method has no legacy name, and if the route knows it, the
lines know it as well and its handler returns something that can be written. -/
def Shared (s : State φ σ) (entries : Members φ) : Prop :=
  ∃ r, server.readRequest (.dict entries) = some r ∧ legacyTool r.method = none ∧
    ∀ m, route httpMethods r.method = some m →
      m ∈ stdioMethods ∧ ∃ v, (server.call m (.dict (r.params.getD [])) s).1 = .ok (.json v) ∧ representable v = true

/-- What the lines make of a request that the route accepts. -/
theorem handleRequest_of_read {entries : Members φ} {r : MCPRequest φ} {s : State φ σ}
    (request : server.readRequest (.dict entries) = some r) (given : entries.lookup "params" ≠ some .null) :
    server.handleRequest entries s = match route stdioMethods r.method with
      | none => (.error (item entries "id" .null) (-32601) ("Method not found: " ++ r.method),s)
      | some m =>
        let done := server.call m (.dict (r.params.getD [])) s
        (lineAnswer (item entries "id" .null) done.1,done.2) := by
  simp only [readRequest] at request
  split at request
  · next method _ named =>
    split at request
    · next params id parameters _ =>
      cases request
      have method' : item entries "method" (.str "") = .str method := by
        simp only [item] at named ⊢
        cases found : entries.lookup "method" with
        | none => simp [found] at named
        | some v => simpa [found] using named
      have params' : item entries "params" (.dict []) = .dict (params.getD []) := by
        simp only [item] at parameters ⊢
        cases found : entries.lookup "params" with
        | none =>
          rw [found] at parameters
          cases parameters
          rfl
        | some v =>
          rw [found] at parameters
          cases v with
          | null => exact absurd found given
          | dict own =>
            cases parameters
            rfl
          | _ => cases parameters
      simp only [handleRequest,method',params']
      rfl
    · cases request
  · cases request

/-- A request that has to be answered, with its own id and with parameters or none. -/
structure Plain (entries : Members φ) : Prop where
  fits : representable (.dict entries : Json φ) = true
  read : ∃ r, server.readRequest (.dict entries) = some r ∧ r.id = some (item entries "id" .null)
  params : entries.lookup "params" ≠ some .null

theorem loads_print {id : Json φ} (fits : representable id = true) {code : Int} (short : code.natAbs < 10 ^ 5)
    (message : String) : loads server.floats.toFloatTexts (server.print (.error id code message)) =
      some (errorBody id code message) := by
  have whole := errorBody_fits fits short message
  simp only [print,Answer.body,whole,if_true]
  exact loads_dumps _ whole

theorem httpAnswer_error {id id' : Json φ} {done : Except Exn (Reply φ)} {code : Int} {message : String}
    (body : (server.httpAnswer id done).body = .ok (errorBody id' code message)) : False := by
  cases done with
  | ok reply =>
    cases reply with
    | json v => simp [httpAnswer,Answer.body,resultBody,errorBody] at body
    | object refusal => cases body
  | error e =>
    simp only [httpAnswer] at body
    split at body <;> simp [Answer.body,errorBody] at body

/-- What a handler returns is the same on both transports if it can be written; what it raises never is. -/
theorem called_agree_iff {id : Json φ} (fits : representable id = true) (done : Except Exn (Reply φ)) :
    (∃ body, (server.httpAnswer id done).body = .ok body ∧
      loads server.floats.toFloatTexts (server.print (lineAnswer id done)) = some body) ↔
      ∃ v, done = .ok (.json v) ∧ representable v = true := by
  cases done with
  | error e =>
    refine ⟨?_,?_⟩
    · rintro ⟨body,answered,printed⟩
      rw [lineAnswer,server.loads_print fits (by decide)] at printed
      cases printed
      exact (server.httpAnswer_error answered).elim
    · rintro ⟨v,same,-⟩
      cases same
  | ok reply =>
    cases reply with
    | object refusal =>
      constructor
      · rintro ⟨body,answered,-⟩
        cases answered
      · rintro ⟨v,same,-⟩
        cases same
    | json v =>
      have whole : representable (resultBody id v) = representable v := by rw [resultBody_fits,fits,Bool.true_and]
      cases writable : representable v with
      | true =>
        refine ⟨fun _ => ⟨v,rfl,writable⟩,fun _ => ⟨resultBody id v,rfl,?_⟩⟩
        simp only [lineAnswer,print,Answer.body,whole,writable,if_true]
        exact loads_dumps _ (whole.trans writable)
      | false =>
        constructor
        · rintro ⟨body,answered,printed⟩
          cases answered
          simp only [lineAnswer,print,Answer.body,whole,writable,Bool.false_eq_true,if_false] at printed
          rw [serverError,loads_dumps _ (errorBody_fits rfl (by decide) _)] at printed
          simp [resultBody,errorBody] at printed
        · rintro ⟨w,same,fine⟩
          cases same
          rw [writable] at fine
          cases fine

/-- The answers to one request, and the states behind them. -/
theorem answers_agree_iff {entries : Members φ} (plain : server.Plain entries) {s : State φ σ}
    (initialized : s.1.initialized = true) (loaded : server.ensureTools s.2 = s.2) :
    ((∃ body, (server.serveHttp s (.json (.dict entries))).1.body = .ok body ∧
        loads server.floats.toFloatTexts
          (server.serveLine s (dumps server.floats.toFloatTexts (.dict entries))).1 = some body) ↔ server.Shared s entries) ∧
      (server.Shared s entries → (server.serveLine s (dumps server.floats.toFloatTexts (.dict entries))).2 =
        (server.serveHttp s (.json (.dict entries))).2) := by
  obtain ⟨r,request,named⟩ := plain.read
  have idFits : representable (item entries "id" .null) = true := by
    simp only [item]
    cases found : entries.lookup "id" with
    | none => rfl
    | some id => exact lookup_representable plain.fits found
  have http : server.serveHttp s (.json (.dict entries)) = server.routed r.normalize (item entries "id" .null) s := by
    simp [serveHttp,request,named,initialized,loaded]
  have line : server.serveLine s (dumps server.floats.toFloatTexts (.dict entries)) =
      (server.print (server.handleRequest entries s).1,(server.handleRequest entries s).2) := by
    simp only [serveLine,strip_dumps _ plain.fits,loads_dumps _ plain.fits]
  -- a method that the lines do not know, while the route has a handler for it
  have apart {done : Except Exn (Reply φ)} {message : String} (body : Json φ)
      (answered : (server.httpAnswer (item entries "id" .null) done).body = .ok body)
      (printed : loads server.floats.toFloatTexts (server.print (.error (item entries "id" .null) (-32601) message)) =
        some body) : False := by
    rw [server.loads_print idFits (by decide)] at printed
    cases printed
    exact server.httpAnswer_error answered
  have shared : server.Shared s entries ↔ legacyTool r.method = none ∧ ∀ m, route httpMethods r.method = some m →
      m ∈ stdioMethods ∧ ∃ v, (server.call m (.dict (r.params.getD [])) s).1 = .ok (.json v) ∧ representable v = true := by
    simp [Shared,request]
  rw [http,line,shared,server.handleRequest_of_read request plain.params]
  cases legacy : legacyTool r.method with
  | some tool =>
    have called : r.normalize.method = "tools/call" := by simp [MCPRequest.normalize,legacy]
    have routedCall : route httpMethods "tools/call" = some .toolsCall := rfl
    simp only [route_legacy legacy,routed,called,routedCall,reduceCtorEq,false_and,iff_false,IsEmpty.forall_iff,and_true]
    rintro ⟨body,answered,printed⟩
    exact apart body answered printed
  | none =>
    have same : r.normalize = r := by simp [MCPRequest.normalize,legacy]
    simp only [same,routed,true_and,route_stdio]
    cases found : route httpMethods r.method with
    | none =>
      exact ⟨⟨fun _ m same => by (cases same),fun _ => ⟨_,rfl,server.loads_print idFits (by decide) _⟩⟩,fun _ => rfl⟩
    | some m =>
      simp only [Option.some.injEq,forall_eq']
      by_cases listed : m ∈ stdioMethods
      · simp only [Option.filter_some,listed,decide_true,if_true,true_and]
        exact ⟨server.called_agree_iff idFits _,fun _ => trivial⟩
      · simp only [Option.filter_some,listed,decide_false,Bool.false_eq_true,if_false,false_and,iff_false,IsEmpty.forall_iff,
          and_true]
        rintro ⟨body,answered,printed⟩
        exact apart body answered printed

theorem dumps_notBlank {v : Json φ} (fits : representable v = true) :
    notBlank (dumps server.floats.toFloatTexts v) = true := by
  rw [notBlank,strip_dumps _ fits]
  obtain ⟨c,more,begins,-⟩ := valueText_head server.floats.toFloatTexts v
  simp [dumps,begins]

/-- Once the session is initialized, and unless tools are loaded on the way, the route and the lines give the same
answers to a run of requests exactly when each request is shared at the state it meets; they then leave the same state
behind. -/
theorem transports_agree {requests : List (Members φ)} (plain : ∀ entries ∈ requests, server.Plain entries)
    {s : State φ σ} (initialized : s.1.initialized = true) (loaded : ∀ t, server.ensureTools t = t) :
    let http := exchange server.serveHttp (requests.map fun entries => .json (.dict entries)) s
    let stdio := server.serveLines (requests.map fun entries => dumps server.floats.toFloatTexts (.dict entries)) s
    let shared := Throughout (fun s entries => server.serveHttp s (.json (.dict entries))) server.Shared requests s
    (List.Forall₂ (fun answer printed => ∃ body, answer.body = .ok body ∧
      loads server.floats.toFloatTexts printed = some body) http.1 stdio.1 ↔ shared) ∧ (shared → stdio.2 = http.2) := by
  have lines : (requests.map fun entries => dumps server.floats.toFloatTexts (.dict entries)).filter notBlank =
      requests.map fun entries => dumps server.floats.toFloatTexts (.dict entries) := by
    refine List.filter_eq_self.mpr fun line member => ?_
    obtain ⟨entries,listed,rfl⟩ := List.mem_map.mp member
    exact server.dumps_notBlank (plain entries listed).fits
  rw [serveLines,lines,exchange_map,exchange_map]
  apply exchange_agree_iff
  · exact fun s entries _ open_ => server.serveHttp_stays s _ open_
  · exact fun s entries listed open_ => (server.answers_agree_iff (plain entries listed) open_ (loaded s.2)).1
  · exact fun s entries listed open_ => (server.answers_agree_iff (plain entries listed) open_ (loaded s.2)).2
  · exact initialized

end McpServer

def echoRequest : Members Unit :=
  [("jsonrpc",.str "2.0"),("id",.int 1),("method",.str "prompts/get"),("params",.dict [("name",.str "plan")])]

theorem transports_agree_echo : List.Forall₂
    (fun answer printed => ∃ body, answer.body = .ok body ∧ loads PythonJson.zeroTexts printed = some body)
    (exchange echoServer.serveHttp [.json (.dict echoRequest)] ({ initialized := true },())).1
    (echoServer.serveLines [dumps PythonJson.zeroTexts (.dict echoRequest)] ({ initialized := true },())).1 := by
  have read : echoServer.readRequest (.dict echoRequest) =
      some ⟨"prompts/get",some [("name",.str "plan")],some (.int 1)⟩ := rfl
  have plain : ∀ entries ∈ [echoRequest], echoServer.Plain entries := by
    rintro entries member
    rw [List.mem_singleton.mp member]
    exact ⟨by decide,⟨_,read,rfl⟩,fun null => by cases null⟩
  refine (echoServer.transports_agree plain rfl fun _ => rfl).1.mpr ⟨⟨_,read,rfl,fun m routed => ?_⟩,trivial⟩
  cases routed
  exact ⟨by decide,_,rfl,by decide⟩

end IceOS.JsonRpc
