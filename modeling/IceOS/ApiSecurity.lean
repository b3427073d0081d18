import IceOS.PythonText
import IceOS.NodeModels

/-! Bearer tokens of the REST API: the token of the environment, the tokens of the database,
and the organisation and user that a request acts for. -/
namespace IceOS

/-- `os.getenv(name)` -/
abbrev Environ := String → Option String

namespace ApiSecurity

/-- A row of the `tokens` table. `expiresAt` is the instant that both sides of the comparison
with the clock stand for. -/
structure TokenRecord where
  orgId : Option String := none
  projectId : Option String := none
  userId : Option String := none
  scopes : Option Value := none
  expiresAt : Option Int := none
  revoked : Bool := false

/-- The table as a session reads it by the hash of a token, and the clock. A session may fail. -/
structure TokenStore where
  sha256 : String → String
  get : String → Except Exn (Option TokenRecord)
  now : Int

structure TokenIdentity where
  orgId : Option String
  userId : Option String
  projectId : Option String
  scopes : Option String
  deriving DecidableEq, Repr

structure HTTPException where
  statusCode : Nat
  detail : String
  deriving DecidableEq, Repr

/-- The headers that authentication and identity read. -/
structure RequestHeaders where
  authorization : Option String := none
  orgId : Option String := none
  userId : Option String := none

def startsWith (text start : String) : Bool := start.toList.isPrefixOf text.toList

/-- `text.removeprefix("Bearer ").strip()` where the text has the prefix. -/
def bearerToken (authorization : String) : String :=
  PythonText.strip (String.ofList (authorization.toList.drop "Bearer ".length))

def devDefaultAllowed (env : Environ) : Bool := (env "ICE_ALLOW_DEV_TOKEN").getD "0" == "1"

def expectedToken (env : Environ) : String :=
  let raw := PythonText.strip ((env "ICE_API_TOKEN").getD "")
  if raw == "dev-token" && !devDefaultAllowed env then ""
  else if raw ≠ "" then raw
  else if devDefaultAllowed env then "dev-token" else ""

/-- Only a text that is not empty is kept as scopes. -/
def scopesText : Option Value → Option String
  | some (.str text) => if text = "" then none else some text
  | _ => none

/-- Neither revoked nor expired. -/
def TokenRecord.live (now : Int) (row : TokenRecord) : Bool :=
  !row.revoked && row.expiresAt.all (now < ·)

def TokenRecord.identity (row : TokenRecord) : TokenIdentity :=
  ⟨row.orgId,row.userId,row.projectId,scopesText row.scopes⟩

def resolveTokenIdentity (db : TokenStore) (token : String) : Except Exn (Option TokenIdentity) := do
  let row ← db.get (db.sha256 token)
  return (row.filter (·.live db.now)).map (·.identity)

/-- The identity behind a token, with any failure taken as none. -/
def resolved (db : TokenStore) (token : String) : Option TokenIdentity :=
  (resolveTokenIdentity db token).toOption.join

def requireAuth (env : Environ) (db : TokenStore) (authorization : String) : Except HTTPException String :=
  if !startsWith authorization "Bearer " then .error ⟨401,"Missing bearer token"⟩
  else
    let token := bearerToken authorization
    if expectedToken env ≠ "" ∧ token = expectedToken env then .ok token
    else if (resolved db token).isNone then .error ⟨403,"Invalid token"⟩
    else .ok token

/-- `header or default` -/
def headerOr (header fallback : Option String) : Option String :=
  (header.filter (· ≠ "")).or fallback

/-- `_resolve_token_sync` runs the lookup on a loop of its own, so it is left out where one runs. -/
def getRequestIdentity (env : Environ) (db : TokenStore) (runningLoop : Bool) (headers : RequestHeaders) :
    Option String × Option String :=
  let fallback :=
    (headerOr headers.orgId (env "ICE_DEFAULT_ORG_ID"),headerOr headers.userId (env "ICE_DEFAULT_USER_ID"))
  match headers.authorization with
  | some auth =>
    if startsWith auth "Bearer " && !runningLoop then
      match resolved db (bearerToken auth) with
      | some rec => (rec.orgId,rec.userId)
      | none => fallback
    else fallback
  | none => fallback

/-! ### What a token is taken for -/

theorem startsWith_bearer (token : String) : startsWith ("Bearer " ++ token) "Bearer " = true := by
  simp [startsWith]

theorem bearerToken_bearer (token : String) : bearerToken ("Bearer " ++ token) = PythonText.strip token := by
  have seven : "Bearer ".length = 7 := by decide
  simp [bearerToken,PythonText.strip,seven]

@[simp] theorem strip_expectedToken (env : Environ) : PythonText.strip (expectedToken env) = expectedToken env := by
  have blank : PythonText.strip "" = "" := by decide
  have dev : PythonText.strip "dev-token" = "dev-token" := by decide
  simp only [expectedToken]
  split_ifs
  · rw [blank]
  · rw [PythonText.strip_strip]
  · rw [dev]
  · rw [blank]

/-- The `Authorization` header bears a live stored token of an organisation and a user. -/
def BoundTo (db : TokenStore) (authorization org user : String) : Prop :=
  startsWith authorization "Bearer " = true ∧
    ∃ rec, resolved db (bearerToken authorization) = some rec ∧ rec.orgId = some org ∧ rec.userId = some user

/-- The headers, or where they are empty the defaults of the environment, name the organisation and the user. -/
def NamesIdentity (env : Environ) (orgId userId : Option String) (org user : String) : Prop :=
  headerOr orgId (env "ICE_DEFAULT_ORG_ID") = some org ∧ headerOr userId (env "ICE_DEFAULT_USER_ID") = some user

/-- Outside an event loop the token decides, whatever the other headers say. -/
theorem getRequestIdentity_of_bound {env : Environ} {db : TokenStore} {headers : RequestHeaders}
    {auth org user : String} (bears : headers.authorization = some auth) (bound : BoundTo db auth org user) :
    getRequestIdentity env db false headers = (some org,some user) := by
  obtain ⟨start,rec,known,isOrg,isUser⟩ := bound
  simp [getRequestIdentity,bears,start,known,isOrg,isUser]

/-- Inside an event loop the token counts for nothing. -/
theorem getRequestIdentity_in_loop (env : Environ) (db : TokenStore) (headers : RequestHeaders) :
    getRequestIdentity env db true headers =
      (headerOr headers.orgId (env "ICE_DEFAULT_ORG_ID"),headerOr headers.userId (env "ICE_DEFAULT_USER_ID")) := by
  unfold getRequestIdentity
  cases headers.authorization <;> simp

/-- REST admits a stripped token: the expected one, or one with a live row. -/
def Admitted (env : Environ) (db : TokenStore) (token : String) : Prop :=
  expectedToken env ≠ "" ∧ token = expectedToken env ∨ (resolved db token).isSome

theorem requireAuth_isOk_iff (env : Environ) (db : TokenStore) (token : String) :
    (requireAuth env db ("Bearer " ++ token)).isOk = true ↔ Admitted env db (PythonText.strip token) := by
  simp only [requireAuth,startsWith_bearer,bearerToken_bearer,Admitted]
  split_ifs with start expected unknown
  · contradiction
  · simp [Except.isOk,Except.toBool,expected]
  · simp [Except.isOk,Except.toBool,expected,Option.isNone_iff_eq_none.mp unknown]
  · have known := Option.isSome_iff_ne_none.mpr (mt Option.isNone_iff_eq_none.mpr unknown)
    simp [Except.isOk,Except.toBool,known]

end ApiSecurity

end IceOS
