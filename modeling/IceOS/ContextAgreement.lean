import IceOS.ActionRuns
import IceOS.ContextStores

/-! Whether the two stores of node contexts answer alike. -/
namespace IceOS

open ActionRuns PythonJson

variable {φ : Type}

/-- The two stores under the same calls. -/
structure ContextPair (φ : Type) where
  file : ContextStore φ := {}
  redis : RedisContextStore := {}

namespace ContextPair

/-- Equal values, or both an error. -/
def SameAnswer : Except Exn (Json φ) → Except Exn (Json φ) → Prop
  | .ok v,.ok w => v = w
  | .error _,.error _ => True
  | _,_ => False

section

variable (f : FloatTexts φ)

def step (s : ContextPair φ) (c : StoreCall φ) : Option (ContextPair φ) :=
  some ⟨(s.file.handle c).2,(s.redis.handle f c).2⟩

def Agrees (s : ContextPair φ) (c : StoreCall φ) : Prop := SameAnswer (s.file.handle c).1 (s.redis.handle f c).1

def AgreeThroughout (calls : List (StoreCall φ)) : Prop :=
  ∀ earlier c later s, calls = earlier ++ c :: later → run (step f) earlier {} = some s → Agrees f s c

end

/-- What is asked for is stored, and what is stored fits its schema and can be written. -/
def Careful (s : ContextPair φ) : StoreCall φ → Prop
  | .get nodeId => nodeId ∈ s.file.cache.keys
  | .set _ content schema | .update _ content _ schema =>
    validateSchema content schema = true ∧ representable content = true
  | .clear _ => True

/-- Both stores hold the same values. -/
structure Alike (f : FloatTexts φ) (s : ContextPair φ) : Prop where
  stored : ∀ nodeId entry, s.file.cache.get? nodeId = some entry → ∃ raw fields,
    s.redis.fields.get? nodeId = some raw ∧ loads f raw = some (.dict fields) ∧ fields.lookup "data" = some entry.data
  absent : ∀ nodeId, s.file.cache.get? nodeId = none → s.redis.fields.get? nodeId = none
  written : writable s.file.cache = true

section

variable {f : FloatTexts φ} {s : ContextPair φ}

theorem writable_iff (d : ContextDocument φ) :
    writable d = true ↔ ∀ nodeId entry, d.get? nodeId = some entry → representable entry.data = true := by
  simp only [writable,List.all_eq_true,OrderedDict.get?_eq_some,Prod.forall]

theorem writable_set {d : ContextDocument φ} (written : writable d = true) {entry : ContextEntry φ}
    (fits : representable entry.data = true) (nodeId : String) : writable (d.set nodeId entry) = true := by
  rw [writable_iff] at written ⊢
  exact OrderedDict.forall_set fits written

theorem writable_erase {d : ContextDocument φ} (written : writable d = true) (nodeId : String) :
    writable (d.erase nodeId) = true := by
  rw [writable_iff] at written ⊢
  exact OrderedDict.forall_erase written nodeId

theorem readFile_writable (s : ContextStore φ) : writable s.readFile = true := by
  rw [ContextStore.readFile]
  split
  · next text _ => exact text.written
  · rfl

theorem writeFile_ok (s : ContextStore φ) {d : ContextDocument φ} (written : writable d = true) :
    s.writeFile d = (.ok (),{ s with file := some ⟨d,written⟩ }) := dif_pos written

theorem set_ok (alike : Alike f s) {context : Json φ} {schema : ContextSchema}
    (valid : validateSchema context schema = true) (fits : representable context = true) (nodeId : String) : ∃ file, s.file.set nodeId context schema =
      (.ok (),{ cache := s.file.cache.set nodeId { data := context },file }) := by
  have written : writable (s.file.cache.set nodeId { data := context }) = true := writable_set alike.written fits nodeId
  refine ⟨some ⟨_,written⟩,?_⟩
  simp only [ContextStore.set,valid,Bool.not_true,Bool.false_eq_true,if_false,writeFile_ok _ written]

theorem update_ok (s : ContextStore φ) {content : Json φ} {schema : ContextSchema}
    (valid : validateSchema content schema = true) (fits : representable content = true) (nodeId : String)
    (executionId : Option String) : ∃ file, s.update nodeId content executionId schema =
      (.ok (),{ cache := s.cache.set nodeId { data := content,executionId := givenId executionId },file }) := by
  have written : writable (s.readFile.set nodeId { data := content,executionId := givenId executionId }) = true :=
    writable_set (readFile_writable s) fits nodeId
  refine ⟨some ⟨_,written⟩,?_⟩
  simp only [ContextStore.update,valid,Bool.not_true,Bool.false_eq_true,if_false]
  exact writeFile_ok _ written

/-! ### What each call keeps -/

theorem loads_empty : loads f "" = none := rfl

theorem erase_alike (alike : Alike f s) (nodeId : String) (file : Option (WrittenDocument φ)) :
    Alike f ⟨{ cache := s.file.cache.erase nodeId,file },⟨s.redis.fields.erase nodeId⟩⟩ where
  stored other entry held := by
    rw [OrderedDict.get?_erase] at held ⊢
    split at held
    · cases held
    · next differs =>
      rw [if_neg differs]
      exact alike.stored other entry held
  absent other missing := by
    rw [OrderedDict.get?_erase] at missing ⊢
    split
    · rfl
    · next differs =>
      rw [if_neg differs] at missing
      exact alike.absent other missing
  written := writable_erase alike.written nodeId

/-- Both stores are given one value, with whatever Redis keeps beside it. -/
theorem write_alike (alike : Alike f s) {entry : ContextEntry φ} {payload : List (String × Json φ)}
    (fits : representable (.dict payload) = true) (data : payload.lookup "data" = some entry.data)
    (dataFits : representable entry.data = true) (nodeId : String) (file : Option (WrittenDocument φ)) :
    Alike f ⟨{ cache := s.file.cache.set nodeId entry,file },s.redis.write f nodeId (.dict payload)⟩ where
  stored other entry' held := by
    rw [RedisContextStore.write,if_pos fits]
    rw [OrderedDict.get?_set] at held ⊢
    split at held
    · next same =>
      cases held
      exact ⟨_,payload,if_pos same,loads_dumps f fits,data⟩
    · next differs =>
      rw [if_neg differs]
      exact alike.stored other entry' held
  absent other missing := by
    rw [RedisContextStore.write,if_pos fits]
    rw [OrderedDict.get?_set] at missing ⊢
    split at missing
    · cases missing
    · next differs =>
      rw [if_neg differs]
      exact alike.absent other missing
  written := writable_set alike.written dataFits nodeId

theorem clear_cache (s : ContextStore φ) (id : String) :
    ∃ file, (({ s with cache := s.cache.erase id } : ContextStore φ).writeFile (s.readFile.erase id)).2 =
      { cache := s.cache.erase id,file } :=
  ⟨_,congrArg Prod.snd (writeFile_ok _ (writable_erase (readFile_writable s) id))⟩

theorem start_alike (f : FloatTexts φ) : Alike f {} where
  stored _ _ held := by cases held
  absent _ _ := rfl
  written := rfl

theorem clear_alike (alike : Alike f s) (nodeId : Option String) :
    Alike f ⟨s.file.clear nodeId,s.redis.clear nodeId⟩ := by
  rw [ContextStore.clear,RedisContextStore.clear]
  split
  · next id _ =>
    obtain ⟨file,erased⟩ := clear_cache s.file id
    rw [erased]
    exact erase_alike alike id file
  · exact start_alike f

theorem payload_fits {content : Json φ} (fits : representable content = true) (executionId : Option String) :
    representable (.dict (("data",content) ::
      (givenId executionId).toList.map fun id => ("execution_id",.str id))) = true := by
  cases givenId executionId with
  | none => simp [representable,representableEntries,fits]
  | some id => simp [representable,representableEntries,fits]

theorem kept (alike : Alike f s) {c : StoreCall φ} (careful : s.Careful c) {t : ContextPair φ}
    (stepped : step f s c = some t) : Alike f t := by
  cases stepped
  cases c with
  | get nodeId => exact alike
  | set nodeId context schema =>
    obtain ⟨file,wrote⟩ := set_ok alike careful.1 careful.2 nodeId
    simp only [ContextStore.handle,wrote]
    exact write_alike alike (payload_fits careful.2 none) rfl careful.2 nodeId file
  | update nodeId content executionId schema =>
    obtain ⟨file,wrote⟩ := update_ok s.file careful.1 careful.2 nodeId executionId
    simp only [ContextStore.handle,wrote]
    exact write_alike alike (payload_fits careful.2 executionId) rfl careful.2 nodeId file
  | clear nodeId => exact clear_alike alike nodeId

/-! ### When the two agree -/

theorem get_agrees (alike : Alike f s) (nodeId : String) : Agrees f s (.get nodeId) ↔ nodeId ∈ s.file.cache.keys := by
  rw [OrderedDict.mem_keys]
  cases held : s.file.cache.get? nodeId with
  | none =>
    have missing := alike.absent nodeId held
    simp [Agrees,ContextStore.handle,RedisContextStore.handle,ContextStore.get,RedisContextStore.get,held,missing,
      SameAnswer]
  | some entry =>
    obtain ⟨raw,fields,present,reads,data⟩ := alike.stored nodeId entry held
    have given : raw ≠ "" := by
      rintro rfl
      rw [loads_empty] at reads
      cases reads
    simp [Agrees,ContextStore.handle,RedisContextStore.handle,ContextStore.get,RedisContextStore.get,held,present,given,
      reads,data,SameAnswer]

theorem error_differs {e : Exn} {v : Json φ} : ¬SameAnswer (.error e) (.ok v) := id

theorem set_agrees (alike : Alike f s) (nodeId : String) (context : Json φ) (schema : ContextSchema) :
    Agrees f s (.set nodeId context schema) ↔ validateSchema context schema = true ∧ representable context = true := by
  constructor
  · intro agrees
    cases valid : validateSchema context schema with
    | false =>
      simp only [Agrees,ContextStore.handle,ContextStore.set,valid] at agrees
      exact absurd agrees error_differs
    | true =>
      refine ⟨rfl,?_⟩
      by_contra fails
      have unwritable : ¬writable (s.file.cache.set nodeId { data := context }) = true := fun written =>
        fails ((writable_iff _).mp written nodeId _ (OrderedDict.get?_set_same _ _ _))
      simp only [Agrees,ContextStore.handle,ContextStore.set,ContextStore.writeFile,valid,unwritable] at agrees
      exact absurd agrees error_differs
  · intro ⟨valid,fits⟩
    obtain ⟨file,wrote⟩ := set_ok alike valid fits nodeId
    simp only [Agrees,ContextStore.handle,wrote]
    rfl

theorem update_agrees (s : ContextPair φ) (nodeId : String) (content : Json φ) (executionId : Option String)
    (schema : ContextSchema) : Agrees f s (.update nodeId content executionId schema) ↔
      validateSchema content schema = true ∧ representable content = true := by
  constructor
  · intro agrees
    cases valid : validateSchema content schema with
    | false =>
      simp only [Agrees,ContextStore.handle,ContextStore.update,valid] at agrees
      exact absurd agrees error_differs
    | true =>
      refine ⟨rfl,?_⟩
      by_contra fails
      have unwritable (d : ContextDocument φ) :
          ¬writable (d.set nodeId { data := content,executionId := givenId executionId }) = true :=
        fun written => fails ((writable_iff _).mp written nodeId _ (OrderedDict.get?_set_same _ _ _))
      simp only [Agrees,ContextStore.handle,ContextStore.update,ContextStore.writeFile,valid,unwritable] at agrees
      exact absurd agrees error_differs
  · intro ⟨valid,fits⟩
    obtain ⟨file,wrote⟩ := update_ok s.file valid fits nodeId executionId
    simp only [Agrees,ContextStore.handle,wrote]
    rfl

theorem agrees_iff (alike : Alike f s) (c : StoreCall φ) : Agrees f s c ↔ s.Careful c := by
  cases c with
  | get nodeId => exact get_agrees alike nodeId
  | set nodeId context schema => exact set_agrees alike nodeId context schema
  | update nodeId content executionId schema => exact update_agrees s nodeId content executionId schema
  | clear nodeId => exact ⟨fun _ => trivial,fun _ => rfl⟩

end

/-- The stores answer alike all along exactly in the careful runs. -/
theorem stores_agree_iff (f : FloatTexts φ) (calls : List (StoreCall φ)) :
    AgreeThroughout f calls ↔ Throughout (step f) Careful calls {} := by
  obtain ⟨t,ran⟩ := run_total (fun s c => ⟨_,(rfl : step f s c = some _)⟩) calls {}
  have exactly := @throughout_steps_iff _ _ (step f) Careful (Alike f) (fun s c _ => Agrees f s c)
    (fun s c t alike _ => agrees_iff (s := s) alike c) (fun s c t alike careful => kept (s := s) alike careful)
    calls {} t ran (start_alike f)
  rw [← exactly]
  constructor
  · intro agree earlier c later s t parts reached _
    exact agree earlier c later s parts reached
  · intro agree earlier c later s parts reached
    exact agree earlier c later s _ parts reached rfl

/-- A node that was never stored is `{}` to one store and `None` to the other. -/
theorem stores_disagree : ¬∀ calls, AgreeThroughout zeroTexts calls := by
  intro always
  have agrees := always [.get "a"] [] (.get "a") [] {} rfl rfl
  cases (agrees : Json.dict [] = Json.null)

end ContextPair

end IceOS
