import IceOS.ApiSecurity

/-! Admission at the WebSocket gateway, compared with the bearer check of the REST API. -/
namespace IceOS.WsGateway

open ApiSecurity (Admitted TokenStore TokenRecord bearerToken expectedToken requireAuth requireAuth_isOk_iff resolved
  startsWith strip_expectedToken)
open PythonText (strip)

/-- The headers of the handshake that the gateway reads. -/
structure Handshake where
  protocol : Option String := none
  authorization : Option String := none

/-- The reply names a subprotocol before the token is looked at. -/
structure Reply where
  subprotocol : String
  joined : Bool
  deriving DecidableEq, Repr

def authToken (env : Environ) : String := (env "ICE_API_TOKEN").getD ((env "ICE_WS_BEARER").getD "dev-token")

/-- `text.lower().startswith("bearer ")`; only `A` to `Z` have these letters as their lower case. -/
def startsLowerBearer (text : String) : Bool := "bearer ".toList.isPrefixOf (text.toList.map Char.toLower)

/-- `text.split(" ", 1)[1]` -/
def afterSpace (text : String) : String := String.ofList ((text.toList.dropWhile (· ≠ ' ')).drop 1)

def assertAuth (env : Environ) (ws : Handshake) : Bool :=
  let expected := authToken env
  (match ws.authorization with
    | some auth => startsLowerBearer auth && strip (afterSpace auth) == expected
    | none => false) || ws.protocol == some expected

def mcpWs (env : Environ) (ws : Handshake) : Reply := ⟨authToken env,assertAuth env ws⟩

/-- The two ways of presenting a token to the gateway. -/
inductive Carrier where
  | authorization | subprotocol
  deriving DecidableEq, Repr

def Carrier.handshake (token : String) : Carrier → Handshake
  | .authorization => { authorization := some ("Bearer " ++ token) }
  | .subprotocol => { protocol := some token }

/-- The gateway lets a token in just where a REST request that bears it passes. -/
def GatesAgree (env : Environ) (db : TokenStore) (carrier : Carrier) (token : String) : Prop :=
  (mcpWs env (carrier.handshake token)).joined = true ↔ (requireAuth env db ("Bearer " ++ token)).isOk = true

/-- Besides the token of the gateway REST admits nothing, and it admits that one unless white space
around it keeps everybody out of the gateway. -/
structure OneToken (env : Environ) (db : TokenStore) : Prop where
  expected : expectedToken env = "" ∨ expectedToken env = authToken env
  stored : ∀ token, strip token = token → (resolved db token).isSome → token = authToken env
  known : strip (authToken env) = authToken env →
    expectedToken env ≠ "" ∨ (resolved db (authToken env)).isSome

theorem joined_authorization (env : Environ) (token : String) :
    (mcpWs env (Carrier.authorization.handshake token)).joined = true ↔ strip token = authToken env := by
  have starts : startsLowerBearer ("Bearer " ++ token) = true := by simp [startsLowerBearer]
  have rest : afterSpace ("Bearer " ++ token) = token := by simp [afterSpace]
  simp [mcpWs,assertAuth,Carrier.handshake,starts,rest]

theorem joined_subprotocol (env : Environ) (token : String) :
    (mcpWs env (Carrier.subprotocol.handshake token)).joined = true ↔ token = authToken env := by
  simp [mcpWs,assertAuth,Carrier.handshake]

/-- On a token without white space around it the two ways of presenting it come to the same. -/
theorem joined_of_plain (env : Environ) (carrier : Carrier) (token : String) (plain : strip token = token) :
    (mcpWs env (carrier.handshake token)).joined = true ↔ token = authToken env := by
  cases carrier with
  | authorization => rw [joined_authorization,plain]
  | subprotocol => exact joined_subprotocol env token

theorem agree_of_plain (env : Environ) (db : TokenStore) (carrier : Carrier) (token : String)
    (plain : strip token = token) :
    GatesAgree env db carrier token ↔ (token = authToken env ↔ Admitted env db token) := by
  rw [GatesAgree,joined_of_plain env carrier token plain,requireAuth_isOk_iff,plain]

/-- The gateway keeps the white space around a subprotocol, which REST strips from a token. -/
theorem not_agree_subprotocol (env : Environ) (db : TokenStore) : ∃ token, ¬GatesAgree env db .subprotocol token := by
  by_contra! agree
  have known : Admitted env db (strip (authToken env)) :=
    (requireAuth_isOk_iff env db _).mp ((agree _).mp ((joined_subprotocol env _).mpr rfl))
  have padded : (requireAuth env db ("Bearer " ++ (" " ++ authToken env))).isOk = true := by
    rwa [requireAuth_isOk_iff,PythonText.strip_space_append]
  have same := (joined_subprotocol env _).mp ((agree _).mpr padded)
  have longer := congrArg (fun text : String => text.toList.length) same
  simp at longer

theorem agree_plain_iff (env : Environ) (db : TokenStore) (carrier : Carrier) :
    (∀ token, strip token = token → GatesAgree env db carrier token) ↔ OneToken env db := by
  constructor
  · intro agree
    have same (token : String) (plain : strip token = token) : token = authToken env ↔ Admitted env db token :=
      (agree_of_plain env db carrier token plain).mp (agree token plain)
    refine ⟨?_,fun token plain row => (same token plain).mpr (.inr row),fun plain => ?_⟩
    · by_cases blank : expectedToken env = ""
      · exact .inl blank
      · exact .inr ((same _ (strip_expectedToken env)).mpr (.inl ⟨blank,rfl⟩))
    · have known := (same _ plain).mp rfl
      exact known.imp_left And.left
  · rintro ⟨expected,stored,known⟩ token plain
    rw [agree_of_plain env db carrier token plain]
    constructor
    · rintro rfl
      rcases known plain with some | row
      · exact .inl ⟨some,(expected.resolve_left some).symm⟩
      · exact .inr row
    · rintro (⟨some,same⟩ | row)
      · rw [same,expected.resolve_left some]
      · exact stored _ plain row

/-- In the `Authorization` header the white space around a token counts for neither gate. -/
theorem agree_authorization_strip (env : Environ) (db : TokenStore) (token : String) :
    GatesAgree env db .authorization token ↔ GatesAgree env db .authorization (strip token) := by
  simp only [GatesAgree,joined_authorization,requireAuth_isOk_iff,PythonText.strip_strip]

/-- The gates agree on every token just if it comes in the `Authorization` header and both know the
same single token; that they know it is enough for a token without white space around it. -/
theorem gates_agree_iff (env : Environ) (db : TokenStore) (carrier : Carrier) :
    ((∀ token, GatesAgree env db carrier token) ↔ carrier = .authorization ∧ OneToken env db) ∧
    ((∀ token, strip token = token → GatesAgree env db carrier token) ↔ OneToken env db) := by
  refine ⟨?_,agree_plain_iff env db carrier⟩
  cases carrier with
  | authorization =>
    rw [← agree_plain_iff env db .authorization]
    constructor
    · intro agree
      exact ⟨rfl,fun token _ => agree token⟩
    · rintro ⟨-,agree⟩ token
      exact (agree_authorization_strip env db token).mpr (agree _ (PythonText.strip_strip token))
  | subprotocol => simpa using not_agree_subprotocol env db

/-- With nothing configured the gateway takes the development token, which REST refuses. -/
theorem dev_token_opens_gateway :
    ¬GatesAgree (fun _ => none) ⟨id,fun _ => .ok none,0⟩ .authorization "dev-token" := by
  have plain : strip "dev-token" = "dev-token" := by decide
  rw [agree_of_plain _ _ _ _ plain]
  intro agree
  rcases agree.mp rfl with ⟨some,-⟩ | row
  · exact some (by decide)
  · exact absurd row (by decide)

end IceOS.WsGateway
