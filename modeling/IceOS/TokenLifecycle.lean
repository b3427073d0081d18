import IceOS.ApiSecurity
import IceOS.OrderedDict
import IceOS.Transcripts

/-! The tokens of the database over their lives: the routes that issue, revoke and delete them, each behind the check of a
bearer token, and what the check admits. -/
namespace IceOS.TokenLifecycle

open ApiSecurity (HTTPException TokenRecord TokenStore expectedToken requireAuth requireAuth_isOk_iff)
open Transcripts

/-- An instant counts microseconds. -/
def microsecondsPerDay : Nat := 86400 * 1000000

structure TokenIssueRequest where
  orgId : Option String := none
  projectId : Option String := none
  userId : Option String := none
  scopes : List String := []
  ttlDays : Option Nat := none
  expiresAt : Option Int := none
  ttl_range : ∀ days ∈ ttlDays, 1 ≤ days ∧ days ≤ 3650

/-- An end that is given comes before a number of days. -/
def TokenIssueRequest.end? (req : TokenIssueRequest) (now : Int) : Option Int :=
  req.expiresAt.or (req.ttlDays.map fun days => now + ((days * microsecondsPerDay : Nat) : Int))

def TokenIssueRequest.record (req : TokenIssueRequest) (now : Int) : TokenRecord where
  orgId := req.orgId
  projectId := req.projectId
  userId := req.userId
  scopes := if req.scopes = [] then none else some (.list (req.scopes.map .str))
  expiresAt := req.end? now

/-- `raw` is the token that `secrets` has drawn. -/
inductive Operation where
  | issue (raw : String) (req : TokenIssueRequest)
  | revoke (tokenHash : String)
  | delete (tokenHash : String)

/-- A request with its `Authorization`, the clock, and whether the database answers and commits. -/
structure Call where
  authorization : String
  now : Int
  reads : Bool := true
  commits : Bool := true
  op : Operation

inductive Answer where
  | refused (e : HTTPException)
  | failed
  | issued (token tokenHash : String) (expiresAt : Option Int)
  | ok
  deriving DecidableEq

/-- The `tokens` table by its primary key. -/
abbrev Table := OrderedDict String TokenRecord

section

variable (sha256 : String → String)

/-- What authentication sees of the table. -/
def store (table : Table) (now : Int) (reads : Bool) : TokenStore where
  sha256 := sha256
  get h := if reads then .ok (table.get? h) else .error ⟨"no session","RuntimeError('no session')"⟩
  now := now

def notFound : HTTPException := ⟨404,"Token not found"⟩

/-- A route behind the check. A hash that is already there violates the primary key. -/
def operate (table : Table) (c : Call) : Answer × Table :=
  match c.op with
  | .issue raw req =>
    if !c.commits || (table.get? (sha256 raw)).isSome then (.failed,table)
    else (.issued raw (sha256 raw) (req.end? c.now),table.set (sha256 raw) (req.record c.now))
  | .revoke h =>
    if !c.reads then (.failed,table)
    else match table.get? h with
      | none => (.refused notFound,table)
      | some row => if c.commits then (.ok,table.set h { row with revoked := true }) else (.failed,table)
  | .delete h =>
    if !c.reads then (.failed,table)
    else match table.get? h with
      | none => (.refused notFound,table)
      | some _ => if c.commits then (.ok,table.erase h) else (.failed,table)

def serve (env : Environ) (table : Table) (c : Call) : Answer × Table :=
  match requireAuth env (store sha256 table c.now c.reads) c.authorization with
  | .error e => (.refused e,table)
  | .ok _ => operate sha256 table c

/-! ### What becomes of a row -/

/-- The request has issued a token with this hash and end. -/
def Issues (h : String) (ends : Option Int) (e : Call × Answer) : Prop :=
  ∃ raw, e.2 = .issued raw h ends

/-- The request has revoked or deleted the token. -/
def Withdraws (h : String) (e : Call × Answer) : Prop := e.2 = .ok ∧ (e.1.op = .revoke h ∨ e.1.op = .delete h)

/-- The row of a token that is not revoked. -/
def Stands (table : Table) (h : String) (ends : Option Int) : Prop :=
  ∃ row, table.get? h = some row ∧ row.revoked = false ∧ row.expiresAt = ends

variable {sha256}

/-- A request that issues nothing and withdraws nothing, and leaves the table. -/
theorem stands_kept {table : Table} {c : Call} {answer : Answer} (h : String) (ends : Option Int)
    (quiet : answer ≠ .ok ∧ ∀ raw hash at_, answer ≠ .issued raw hash at_) :
    Stands table h ends ↔ Issues h ends (c,answer) ∨ Stands table h ends ∧ ¬Withdraws h (c,answer) := by
  have nothing : ¬Issues h ends (c,answer) := fun ⟨raw,same⟩ => quiet.2 raw h ends same
  have stays : ¬Withdraws h (c,answer) := fun withdrawn => quiet.1 withdrawn.1
  simp [nothing,stays]

/-- Withdrawing one token leaves the others, whether its row is changed or taken out. -/
theorem stands_withdrawn {table later : Table} {c : Call} {hash : String} (gone : ∀ ends, ¬Stands later hash ends)
    (others : ∀ h ≠ hash, later.get? h = table.get? h) (asked : c.op = .revoke hash ∨ c.op = .delete hash)
    (h : String) (ends : Option Int) :
    Stands later h ends ↔ Issues h ends (c,.ok) ∨ Stands table h ends ∧ ¬Withdraws h (c,.ok) := by
  have nothing : ¬Issues h ends (c,.ok) := fun ⟨raw,same⟩ => by cases same
  by_cases same : h = hash
  · subst same
    have withdrawn : Withdraws h (c,.ok) := ⟨rfl,asked⟩
    simp [nothing,withdrawn,gone ends]
  · have stays : ¬Withdraws h (c,.ok) := by
      rintro ⟨-,other⟩
      rcases asked with own | own <;> rcases other with op | op <;> rw [own] at op <;> cases op <;> exact same rfl
    simp [nothing,stays,Stands,others h same]

theorem operate_stands (table : Table) (c : Call) (h : String) (ends : Option Int) :
    Stands (operate sha256 table c).2 h ends ↔ Issues h ends (c,(operate sha256 table c).1) ∨
      Stands table h ends ∧ ¬Withdraws h (c,(operate sha256 table c).1) := by
  simp only [operate]
  cases op : c.op with
  | issue raw req =>
    dsimp only
    split
    · exact stands_kept h ends (by simp)
    · next free =>
      simp only [Bool.or_eq_true,not_or,Bool.not_eq_true,Option.isSome_eq_false_iff,Option.isNone_iff_eq_none] at free
      have stays : ¬Withdraws h (c,.issued raw (sha256 raw) (req.end? c.now)) := fun withdrawn => by cases withdrawn.1
      simp only [Stands,OrderedDict.get?_set]
      by_cases same : sha256 raw = h
      · rw [if_pos same,← same,free.2]
        constructor
        · rintro ⟨row,known,-,rfl⟩
          cases known
          exact .inl ⟨raw,rfl⟩
        · rintro (⟨other,issued⟩ | ⟨⟨row,known,-⟩,-⟩)
          · cases issued
            exact ⟨req.record c.now,rfl,rfl,rfl⟩
          · cases known
      · have nothing : ¬Issues h ends (c,.issued raw (sha256 raw) (req.end? c.now)) := by
          rintro ⟨other,issued⟩
          cases issued
          exact same rfl
        simp [if_neg same,nothing,stays]
  | revoke hash =>
    dsimp only
    split
    · exact stands_kept h ends (by simp)
    · cases known : table.get? hash with
      | none => exact stands_kept h ends (by simp)
      | some row =>
        dsimp only
        split
        · refine stands_withdrawn (fun ends => ?_) (fun h other => ?_) (.inl op) h ends
          · rintro ⟨later,found,open_,-⟩
            rw [OrderedDict.get?_set_same] at found
            cases found
            cases open_
          · rw [OrderedDict.get?_set_other _ _ (Ne.symm other)]
        · exact stands_kept h ends (by simp)
  | delete hash =>
    dsimp only
    split
    · exact stands_kept h ends (by simp)
    · cases known : table.get? hash with
      | none => exact stands_kept h ends (by simp)
      | some row =>
        dsimp only
        split
        · refine stands_withdrawn (fun ends => ?_) (fun h other => ?_) (.inr op) h ends
          · rintro ⟨later,found,-⟩
            rw [OrderedDict.get?_erase,if_pos rfl] at found
            cases found
          · rw [OrderedDict.get?_erase,if_neg (Ne.symm other)]
        · exact stands_kept h ends (by simp)

theorem serve_stands (env : Environ) (table : Table) (c : Call) (h : String) (ends : Option Int) :
    Stands (serve sha256 env table c).2 h ends ↔ Issues h ends (c,(serve sha256 env table c).1) ∨
      Stands table h ends ∧ ¬Withdraws h (c,(serve sha256 env table c).1) := by
  simp only [serve]
  cases requireAuth env (store sha256 table c.now c.reads) c.authorization with
  | error e => exact stands_kept h ends (by simp)
  | ok token => exact operate_stands table c h ends

/-- The requests with their answers, from an empty table on. -/
def history (sha256 : String → String) (env : Environ) (calls : List Call) : List (Call × Answer) :=
  calls.zip (exchange (serve sha256 env) calls .empty).1

def tableAfter (sha256 : String → String) (env : Environ) (calls : List Call) : Table :=
  (exchange (serve sha256 env) calls .empty).2

theorem history_snoc (env : Environ) (calls : List Call) (c : Call) : history sha256 env (calls ++ [c]) =
    history sha256 env calls ++ [(c,(serve sha256 env (tableAfter sha256 env calls) c).1)] := by
  rw [history,exchange_append,List.zip_append (exchange_length calls _).symm]
  rfl

theorem tableAfter_snoc (env : Environ) (calls : List Call) (c : Call) : tableAfter sha256 env (calls ++ [c]) =
    (serve sha256 env (tableAfter sha256 env calls) c).2 := by
  rw [tableAfter,exchange_append]
  rfl

/-- A token stands exactly if it has been issued, and neither revoked nor deleted since. -/
theorem stands_iff (env : Environ) (calls : List Call) (h : String) (ends : Option Int) :
    Stands (tableAfter sha256 env calls) h ends ↔ Since (Issues h ends) (Withdraws h) (history sha256 env calls) := by
  induction calls using List.reverseRecOn with
  | nil =>
    refine iff_of_false ?_ since_nil
    rintro ⟨row,found,-⟩
    cases found
  | append_singleton calls c ih =>
    rw [tableAfter_snoc,history_snoc,since_snoc,serve_stands,ih]

theorem resolved_isSome_iff (table : Table) (now : Int) (token : String) :
    (ApiSecurity.resolved (store sha256 table now true) token).isSome = true ↔
      ∃ ends, Stands table (sha256 token) ends ∧ ∀ at_ ∈ ends, now < at_ := by
  have shape : ApiSecurity.resolved (store sha256 table now true) token =
      ((table.get? (sha256 token)).filter fun row => row.live now).map TokenRecord.identity := rfl
  rw [shape,Option.isSome_map,Option.isSome_iff_exists]
  simp only [Option.filter_eq_some_iff,TokenRecord.live,Bool.and_eq_true,Bool.not_eq_true',Option.all_eq_true,
    decide_eq_true_eq]
  constructor
  · rintro ⟨row,known,open_,later⟩
    exact ⟨row.expiresAt,⟨row,known,open_,rfl⟩,later⟩
  · rintro ⟨ends,⟨row,known,open_,rfl⟩,later⟩
    exact ⟨row,known,open_,later⟩

/-- Without a token of the environment nothing is admitted to an empty table. -/
theorem requireAuth_empty {env : Environ} (none : expectedToken env = "") (now : Int) (reads : Bool)
    (authorization : String) :
    ∃ e, requireAuth env (store sha256 .empty now reads) authorization = .error e := by
  have unknown : ApiSecurity.resolved (store sha256 .empty now reads) (ApiSecurity.bearerToken authorization) = .none := by
    cases reads <;> rfl
  simp only [requireAuth,none,unknown]
  split
  · exact ⟨_,rfl⟩
  · exact ⟨_,rfl⟩

/-- What the check admits after any requests at all: the token of the environment, and each token that one of them has
issued, as long as it has not ended and none has withdrawn it since. Where the environment has no token, none is ever
issued. -/
theorem admitted_iff (env : Environ) (calls : List Call) (now : Int) (token : String) :
    ((requireAuth env (store sha256 (tableAfter sha256 env calls) now true) ("Bearer " ++ token)).isOk = true ↔
      (expectedToken env ≠ "" ∧ PythonText.strip token = expectedToken env) ∨
        ∃ ends, Since (Issues (sha256 (PythonText.strip token)) ends) (Withdraws (sha256 (PythonText.strip token)))
          (history sha256 env calls) ∧ ∀ at_ ∈ ends, now < at_) ∧
      (expectedToken env = "" → ∀ e ∈ history sha256 env calls, ∃ refusal, e.2 = .refused refusal) := by
  constructor
  · rw [requireAuth_isOk_iff,ApiSecurity.Admitted,resolved_isSome_iff]
    simp only [stands_iff]
  · intro none
    have closed : tableAfter sha256 env calls = .empty ∧
        ∀ e ∈ history sha256 env calls, ∃ refusal, e.2 = .refused refusal := by
      induction calls using List.reverseRecOn with
      | nil => exact ⟨rfl,fun e member => by cases member⟩
      | append_singleton calls c ih =>
        obtain ⟨e,refused⟩ := @requireAuth_empty sha256 _ none c.now c.reads c.authorization
        have answered : serve sha256 env .empty c = (.refused e,.empty) := by simp only [serve,refused]
        rw [tableAfter_snoc,history_snoc,ih.1,answered]
        refine ⟨rfl,fun d member => ?_⟩
        rcases List.mem_append.mp member with before | last
        · exact ih.2 d before
        · exact ⟨e,by rw [List.mem_singleton.mp last]⟩
    exact closed.2

end

end IceOS.TokenLifecycle
