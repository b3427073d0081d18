import IceOS.ContextAgreement
import IceOS.EpisodicMemory

/-! The size of what the context manager persists for a node, and what becomes of content that is over its budget. -/
namespace PythonJson

/-! ### Writing without the escapes of ASCII -/

def plainEscape (c : Char) : List Char :=
  match shortEscapes.lookup c with
  | some letter => ['\\',letter]
  | none => if c.toNat < 0x20 then '\\' :: 'u' :: hex4 c.toNat else [c]

def plainStringText (text : String) : List Char := '"' :: (text.toList.flatMap plainEscape ++ ['"'])

section

variable {φ : Type} (f : FloatTexts φ)

mutual

def plainText : Json φ → List Char
  | .str text => plainStringText text
  | .list [] => ['[',']']
  | .list (v :: rest) => '[' :: (plainText v ++ plainItemsText rest)
  | .dict [] => ['{','}']
  | .dict ((key,v) :: rest) => '{' :: (plainStringText key ++ (':' :: ' ' :: (plainText v ++ plainEntriesText rest)))
  | v => valueText f v

def plainItemsText : List (Json φ) → List Char
  | [] => [']']
  | v :: rest => ',' :: ' ' :: (plainText v ++ plainItemsText rest)

def plainEntriesText : List (String × Json φ) → List Char
  | [] => ['}']
  | (key,v) :: rest => ',' :: ' ' :: (plainStringText key ++ (':' :: ' ' :: (plainText v ++ plainEntriesText rest)))

end

/-- `json.dumps(value, ensure_ascii=False)` -/
def plainDumps (v : Json φ) : String := String.ofList (plainText f v)

end

end PythonJson

namespace IceOS

open PythonJson

variable {φ : Type}

/-! ### The manager -/

/-- What a node gives; an object is whatever `json.dumps` does not accept. -/
inductive NodeContent (φ : Type) where
  | json (v : Json φ)
  | object (typeName : String)

/-- The store that `CONTEXT_STORE_BACKEND` chooses. -/
inductive NodeStore (φ : Type) where
  | file (s : ContextStore φ)
  | redis (s : RedisContextStore)

/-- A `SerializationError`, or what the store raises. -/
inductive ContextError where
  | serialization (nodeId typeName : String)
  | store (e : Exn)

def ContextError.text : ContextError → String
  | .serialization nodeId typeName => "Node '" ++ nodeId ++ "' produced non-serialisable value of type " ++ typeName
  | .store e => e.text

namespace NodeStore

variable (f : FloatTexts φ)

def update (s : NodeStore φ) (nodeId : String) (content : Json φ) (executionId : Option String)
    (schema : ContextSchema) : Except Exn Unit × NodeStore φ :=
  match s with
  | .file s => ((s.update nodeId content executionId schema).1,.file (s.update nodeId content executionId schema).2)
  | .redis s => (.ok (),.redis (s.update f nodeId content executionId))

/-- What a process that starts now finds for a node. -/
def persisted? (s : NodeStore φ) (nodeId : String) : Option (Json φ) :=
  match s with
  | .file s => (s.readFile.get? nodeId).map (·.data)
  | .redis s =>
    match (s.fields.get? nodeId).bind (loads f) with
    | some (.dict entries) => entries.lookup "data"
    | _ => none

/-- Only the file checks a schema. -/
def accepts (s : NodeStore φ) (content : Json φ) (schema : ContextSchema) : Bool :=
  match s with
  | .file _ => validateSchema content schema
  | .redis _ => true

end NodeStore

/-- `TokenCounter.estimate_tokens` -/
def estimateTokens (text : String) : Nat := text.length / 4

/-- `text[:limit]` -/
def trim (text : String) (limit : Int) : String := String.ofList (EpisodicMemory.sliceTo text.toList limit)

/-- Only texts are cut. -/
def trimContent (limit : Int) : Json φ → Json φ
  | .str text => .str (trim text limit)
  | v => v

structure NodeContextManager (φ : Type) where
  maxTokens : Int := 4000
  store : NodeStore φ

namespace NodeContextManager

section

variable (m : NodeContextManager φ)

/-- With no maximum, or one of zero, nothing is too large. -/
def tooLarge (text : String) : Bool := m.maxTokens ≠ 0 ∧ m.maxTokens < estimateTokens text

/-- With the strategy `truncate`. -/
def smartContextCompression : Json φ → Json φ
  | .str text => if m.tooLarge text then trimContent (m.maxTokens * 4) (.str text) else .str text
  | v => v

variable (f : FloatTexts φ)

/-- A text stands for itself. -/
def serialised : Json φ → String
  | .str text => text
  | v => plainDumps f v

def serialise (nodeId : String) : NodeContent φ → Except ContextError (Json φ)
  | .json (.str text) => .ok (.str text)
  | .json v => if representable v then .ok v else .error (.serialization nodeId (PythonFloats.typeName v))
  | .object typeName => .error (.serialization nodeId typeName)

/-- Content that is too large is compressed, and refused if that does not help. -/
def compress (nodeId : String) (content : Json φ) : Except ContextError (Json φ) :=
  if !m.tooLarge (serialised f content) then .ok content
  else
    let compressed := m.smartContextCompression content
    if !representable compressed then .error (.serialization nodeId (PythonFloats.typeName compressed))
    else if !m.tooLarge (plainDumps f compressed) then .ok compressed
    else .error (.serialization nodeId "oversized")

/-- The handler of whatever the budget check raises, its own `SerializationError` included. -/
def trimFallback (nodeId : String) (content : Json φ) : Except ContextError (Json φ) :=
  let budget := m.maxTokens * 3
  let size := (serialised f content).length
  if m.maxTokens ≠ 0 ∧ budget < size then
    if budget < size then .ok (trimContent budget content) else .error (.serialization nodeId "oversized")
  else .ok content

def enforceBudget (nodeId : String) (content : Json φ) : Except ContextError (Json φ) :=
  match m.compress f nodeId content with
  | .ok content => .ok content
  | .error _ => m.trimFallback f nodeId content

/-- No store raises a `TypeError`, for which the call would be made once more. -/
def updateNodeContext (nodeId : String) (content : NodeContent φ) (executionId : Option String)
    (schema : ContextSchema) : Except ContextError Unit × NodeContextManager φ :=
  match serialise nodeId content with
  | .error e => (.error e,m)
  | .ok content =>
    match m.enforceBudget f nodeId content with
    | .error e => (.error e,m)
    | .ok content =>
      match m.store.update f nodeId content executionId schema with
      | (.ok _,store) => (.ok (),{ m with store })
      | (.error e,store) => (.error (.store e),{ m with store })

/-! ### The budget -/

/-- Content within the budget was persisted, or a `SerializationError` left the store as it was. -/
def KeepsBudget (nodeId : String) (content : NodeContent φ) (executionId : Option String) (schema : ContextSchema) :
    Prop :=
  match m.updateNodeContext f nodeId content executionId schema with
  | (.ok _,after) =>
    ∃ v, after.store.persisted? f nodeId = some v ∧ (estimateTokens (serialised f v) : Int) ≤ m.maxTokens
  | (.error (.serialization _ _),after) => after.store = m.store
  | (.error (.store _),_) => False

/-- The content cannot be serialised, or its schema is fine and it is within the budget or a text to be trimmed. -/
def Fitting (content : NodeContent φ) (schema : ContextSchema) : Prop :=
  match content with
  | .object _ => True
  | .json (.str text) =>
    m.store.accepts (.str text) schema = true ∧ ((estimateTokens text : Int) ≤ m.maxTokens ∨ 0 < m.maxTokens)
  | .json v =>
    representable v = false ∨
      m.store.accepts v schema = true ∧ (estimateTokens (plainDumps f v) : Int) ≤ m.maxTokens

end

section

variable {f : FloatTexts φ} {m : NodeContextManager φ}

theorem tooLarge_iff (text : String) :
    m.tooLarge text = true ↔ m.maxTokens ≠ 0 ∧ m.maxTokens < estimateTokens text := by
  rw [tooLarge,decide_eq_true_eq]

section

variable {content : Json φ} (other : ∀ text, content ≠ .str text)
include other

theorem serialised_other : serialised f content = plainDumps f content := by
  cases content with
  | str text => exact absurd rfl (other text)
  | _ => rfl

theorem trimContent_other (limit : Int) : trimContent limit content = content := by
  cases content with
  | str text => exact absurd rfl (other text)
  | _ => rfl

theorem compression_other : m.smartContextCompression content = content := by
  cases content with
  | str text => exact absurd rfl (other text)
  | _ => rfl

theorem serialise_other (nodeId : String) : serialise nodeId (.json content) =
    if representable content then .ok content
    else .error (.serialization nodeId (PythonFloats.typeName content)) := by
  cases content with
  | str text => exact absurd rfl (other text)
  | _ => rfl

theorem fitting_other (schema : ContextSchema) : m.Fitting f (.json content) schema ↔ representable content = false ∨
    m.store.accepts content schema = true ∧ (estimateTokens (plainDumps f content) : Int) ≤ m.maxTokens := by
  cases content with
  | str text => exact absurd rfl (other text)
  | _ => rfl

end

/-- Three or four characters for a token are within the estimate. -/
theorem estimate_trim {k : Nat} (few : k ≤ 4) (positive : 0 < m.maxTokens) (text : String) :
    (estimateTokens (trim text (m.maxTokens * k)) : Int) ≤ m.maxTokens := by
  have limit : 0 ≤ m.maxTokens * (k : Int) := Int.mul_nonneg (Int.le_of_lt positive) (Int.natCast_nonneg k)
  have small : m.maxTokens * (k : Int) ≤ m.maxTokens * 4 :=
    Int.mul_le_mul_of_nonneg_left (by omega) (Int.le_of_lt positive)
  have length : (trim text (m.maxTokens * k)).length ≤ (m.maxTokens * (k : Int)).toNat := by
    rw [trim,EpisodicMemory.sliceTo,if_pos limit,String.length_ofList]
    exact List.length_take_le _ _
  rw [estimateTokens]
  omega

/-- What is too large for the check is too large for its handler, which raises nothing. -/
theorem trimFallback_large (nodeId : String) (content : Json φ) (large : m.tooLarge (serialised f content) = true) :
    m.trimFallback f nodeId content = .ok (trimContent (m.maxTokens * 3) content) := by
  obtain ⟨limited,exceeds⟩ := (tooLarge_iff _).mp large
  rw [estimateTokens] at exceeds
  have longer : m.maxTokens * 3 < (serialised f content).length := by omega
  rw [trimFallback,if_pos ⟨limited,longer⟩,if_pos longer]

theorem enforceBudget_fits (nodeId : String) {content : Json φ} (fits : m.tooLarge (serialised f content) = false) :
    m.enforceBudget f nodeId content = .ok content := by
  simp only [enforceBudget,compress,fits,Bool.not_false,if_true]

/-- A text that is too large comes out trimmed, to the budget if that is positive. -/
theorem enforceBudget_text (nodeId : String) {text : String} (large : m.tooLarge text = true) : ∃ trimmed,
    m.enforceBudget f nodeId (.str text) = .ok (.str trimmed) ∧
      (0 < m.maxTokens → (estimateTokens trimmed : Int) ≤ m.maxTokens) := by
  have fallback : m.trimFallback f nodeId (.str text) = .ok (.str (trim text (m.maxTokens * 3))) :=
    trimFallback_large nodeId (.str text) large
  simp only [enforceBudget,compress,serialised,smartContextCompression,trimContent,large,representable,Bool.not_true,
    if_true,Bool.false_eq_true,if_false]
  cases m.tooLarge (plainDumps f (.str (trim text (m.maxTokens * 4)))) with
  | false => exact ⟨_,rfl,fun positive => estimate_trim (k := 4) (by decide) positive text⟩
  | true => exact ⟨_,fallback,fun positive => estimate_trim (k := 3) (by decide) positive text⟩

/-- Other content that is too large comes out as it went in. -/
theorem enforceBudget_other (nodeId : String) {content : Json φ} (other : ∀ text, content ≠ .str text)
    (large : m.tooLarge (serialised f content) = true) : m.enforceBudget f nodeId content = .ok content := by
  have fallback : m.trimFallback f nodeId content = .ok content := by
    rw [trimFallback_large nodeId content large,trimContent_other other]
  -- nothing was compressed, so the check raises, and its own handler takes the error
  have refused : ∃ e, m.compress f nodeId content = .error e := by
    simp only [compress,large,compression_other other,← serialised_other other,Bool.not_true,Bool.false_eq_true,if_false]
    split <;> exact ⟨_,rfl⟩
  obtain ⟨e,refused⟩ := refused
  rw [enforceBudget,refused]
  exact fallback

/-- What can be written is persisted, unless the file refuses its schema. -/
theorem update_persists {s : NodeStore φ} {content : Json φ} {schema : ContextSchema}
    (accepted : s.accepts content schema = true) (fits : representable content = true) (nodeId : String)
    (executionId : Option String) : ∃ t, s.update f nodeId content executionId schema = (.ok (),t) ∧
      t.persisted? f nodeId = some content := by
  cases s with
  | file s =>
    have written : writable (s.readFile.set nodeId { data := content,executionId := givenId executionId }) = true :=
      ContextPair.writable_set (ContextPair.readFile_writable s) fits nodeId
    have valid : validateSchema content schema = true := accepted
    have wrote : s.update nodeId content executionId schema =
        (.ok (),⟨s.cache.set nodeId { data := content,executionId := givenId executionId },some ⟨_,written⟩⟩) := by
      simp only [ContextStore.update,valid,Bool.not_true,Bool.false_eq_true,if_false]
      exact ContextPair.writeFile_ok _ written
    refine ⟨.file _,by rw [NodeStore.update,wrote],?_⟩
    simp only [NodeStore.persisted?,ContextStore.readFile,OrderedDict.get?_set_same,Option.map_some]
  | redis s =>
    have payload := ContextPair.payload_fits fits executionId
    refine ⟨.redis _,rfl,?_⟩
    simp only [NodeStore.persisted?,RedisContextStore.update,RedisContextStore.write,if_pos payload,
      OrderedDict.get?_set_same,Option.bind_some,loads_dumps f payload]
    rfl

theorem update_refused {s : NodeStore φ} {content : Json φ} {schema : ContextSchema}
    (refused : s.accepts content schema = false) (nodeId : String) (executionId : Option String) :
    ∃ e t, s.update f nodeId content executionId schema = (.error e,t) := by
  cases s with
  | file s =>
    have invalid : validateSchema content schema = false := refused
    exact ⟨schemaMismatch nodeId,.file s,by simp [NodeStore.update,ContextStore.update,invalid]⟩
  | redis s => cases refused

theorem accepts_text (s : NodeStore φ) (text other : String) (schema : ContextSchema) :
    s.accepts (.str text) schema = s.accepts (.str other) schema := by
  cases s <;> rfl

variable {nodeId : String} {executionId : Option String} {schema : ContextSchema}

theorem keepsBudget_refused {content : NodeContent φ} {typeName : String}
    (refused : serialise nodeId content = .error (.serialization nodeId typeName)) :
    m.KeepsBudget f nodeId content executionId schema := by
  rw [KeepsBudget,updateNodeContext,refused]

/-- What comes out of the check is persisted exactly if the store accepts it. -/
theorem keepsBudget_enforced {content : NodeContent φ} {v w : Json φ} (serial : serialise nodeId content = .ok v)
    (enforced : m.enforceBudget f nodeId v = .ok w) (fits : representable w = true) :
    m.KeepsBudget f nodeId content executionId schema ↔
      m.store.accepts w schema = true ∧ (estimateTokens (serialised f w) : Int) ≤ m.maxTokens := by
  simp only [KeepsBudget,updateNodeContext,serial,enforced]
  cases accepted : m.store.accepts w schema with
  | true =>
    obtain ⟨t,updated,persisted⟩ := update_persists (f := f) accepted fits nodeId executionId
    simp only [updated,persisted]
    constructor
    · rintro ⟨v,same,within⟩
      cases same
      exact ⟨trivial,within⟩
    · intro within
      exact ⟨w,rfl,within.2⟩
  | false =>
    obtain ⟨e,t,updated⟩ := update_refused (f := f) accepted nodeId executionId
    simp only [updated]
    exact iff_of_false id fun within => absurd within.1 nofun

theorem keepsBudget_text (text : String) : m.KeepsBudget f nodeId (.json (.str text)) executionId schema ↔
    m.Fitting f (.json (.str text)) schema := by
  have serial : serialise nodeId (.json (.str text)) = .ok (.str text : Json φ) := rfl
  cases large : m.tooLarge text with
  | false =>
    rw [keepsBudget_enforced serial (enforceBudget_fits nodeId large) rfl,Fitting]
    refine and_congr_right fun _ => ⟨.inl,?_⟩
    rintro (within | positive)
    · exact within
    · by_contra exceeds
      rw [Bool.eq_false_iff,Ne,tooLarge_iff] at large
      exact large ⟨by omega,Int.not_le.mp exceeds⟩
  | true =>
    obtain ⟨trimmed,enforced,within⟩ := enforceBudget_text (f := f) nodeId large
    rw [keepsBudget_enforced serial enforced rfl,Fitting,accepts_text m.store trimmed text]
    refine and_congr_right fun _ => ⟨fun kept => ?_,?_⟩
    · have limited := (tooLarge_iff _).mp large
      right
      change (estimateTokens trimmed : Int) ≤ _ at kept
      omega
    · rintro (fits | positive)
      · exact absurd ((tooLarge_iff _).mp large).2 (Int.not_lt.mpr fits)
      · exact within positive

theorem keepsBudget_other {v : Json φ} (other : ∀ text, v ≠ .str text) :
    m.KeepsBudget f nodeId (.json v) executionId schema ↔ m.Fitting f (.json v) schema := by
  have serial : serialise nodeId (.json v) = _ := serialise_other other nodeId
  rw [fitting_other other]
  cases fits : representable v with
  | false =>
    rw [fits] at serial
    exact iff_of_true (keepsBudget_refused serial) (.inl rfl)
  | true =>
    rw [fits] at serial
    have enforced : m.enforceBudget f nodeId v = .ok v := by
      cases large : m.tooLarge (serialised f v) with
      | false => exact enforceBudget_fits nodeId large
      | true => exact enforceBudget_other nodeId other large
    rw [keepsBudget_enforced serial enforced fits,serialised_other other]
    simp

end

/-- The budget is kept exactly for content that does not have to shrink, or that is a text. -/
theorem keepsBudget_iff (f : FloatTexts φ) (m : NodeContextManager φ) (nodeId : String) (content : NodeContent φ)
    (executionId : Option String) (schema : ContextSchema) :
    m.KeepsBudget f nodeId content executionId schema ↔ m.Fitting f content schema := by
  cases content with
  | object typeName => exact iff_of_true (keepsBudget_refused rfl) trivial
  | json v =>
    cases v with
    | str text => exact keepsBudget_text text
    | null | bool _ | int _ | float _ | list _ | dict _ => exact keepsBudget_other nofun

/-- A list over the budget is persisted as it is. -/
theorem list_exceeds_budget : ¬∀ content schema,
    ({ maxTokens := 1,store := .file {} } : NodeContextManager Unit).KeepsBudget zeroTexts "a" content none schema := by
  intro always
  obtain ⟨v,persisted,within⟩ := always (.json (.list [.null,.null])) .empty
  cases persisted
  exact absurd within (by decide)

end NodeContextManager

end IceOS
