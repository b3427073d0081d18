import IceOS.EpisodicMemory
import IceOS.ExceptRules

/-! The filters of a search of the episodic memory: Redis compares the names of its sets, the dictionary compares values. -/
namespace IceOS.EpisodicMemory

open PythonDatetime PythonJson

variable {φ κ : Type}

/-! ### The names of the sets -/

@[simp] theorem index_inj {a b : Attribute} {text other : String} : index a text = index b other ↔ a = b ∧ text = other := by
  constructor
  · intro same
    have rest := (String.append_right_inj _).mp same
    have texts := congrArg String.toList rest
    simp only [String.toList_append] at texts
    cases a <;> cases b <;> simp_all [Attribute.word]
  · rintro ⟨rfl,rfl⟩
    rfl

/-- What the sets of an episode with these participants and tags say about it. -/
structure Describes (x : EpisodicRules φ κ) (names : List String) (metadata : Metadata φ) (timestamp : DateTime)
    (participants tags : List (Json φ)) : Prop where
  type : ∀ text, index .type text ∈ names ↔ text = x.floats.str ((metadata.get? "episode_type").getD (.str "unknown"))
  participant : ∀ text, index .participant text ∈ names ↔ text ∈ participants.map x.floats.str
  tag : ∀ text, index .tag text ∈ names ↔ text ∈ tags.map x.floats.str
  date : ∀ text, index .date text ∈ names ↔ text = timestamp.date
  outcome : ∀ text, index .outcome text ∈ names ↔ text = x.floats.str ((metadata.get? "outcome").getD (.str "unknown"))

theorem indexNames_describes {x : EpisodicRules φ κ} {metadata : Metadata φ} {timestamp : DateTime} {names : List String}
    (indexed : indexNames x metadata timestamp = .ok names) : ∃ participants tags,
      PythonFloats.iterate ((metadata.get? "participants").getD (.list [])) = .ok participants ∧
        PythonFloats.iterate ((metadata.get? "tags").getD (.list [])) = .ok tags ∧
          Describes x names metadata timestamp participants tags := by
  obtain ⟨participants,joined,indexed⟩ := ExceptRules.bind_eq_ok.mp indexed
  obtain ⟨tags,tagged,indexed⟩ := ExceptRules.bind_eq_ok.mp indexed
  refine ⟨participants,tags,joined,tagged,?_⟩
  cases indexed
  constructor <;> intro text <;> simp [eq_comm]

/-! ### Comparing -/

/-- The values that the filters name are equal to those of an episode where their texts are, and the filters name no other
day. -/
structure ComparedAlike (x : EpisodicRules φ κ) (filters : Metadata φ) (e : MemoryEntry φ κ) : Prop where
  type : ∀ v, filters.get? "type" = some v →
    x.floats.equalJson ((e.metadata.get? "episode_type").getD .null) v =
      decide (x.floats.str v = x.floats.str ((e.metadata.get? "episode_type").getD (.str "unknown")))
  participant : ∀ v present, filters.get? "participant" = some v →
    PythonFloats.iterate ((e.metadata.get? "participants").getD (.list [])) = .ok present →
      x.floats.member v ((e.metadata.get? "participants").getD (.list [])) =
        .ok (decide (x.floats.str v ∈ present.map x.floats.str))
  tags : ∀ v wanted present, filters.get? "tags" = some v → PythonFloats.iterate v = .ok wanted →
    PythonFloats.iterate ((e.metadata.get? "tags").getD (.list [])) = .ok present →
      x.floats.allIn ((e.metadata.get? "tags").getD (.list [])) v =
        .ok (decide (∀ tag ∈ wanted, x.floats.str tag ∈ present.map x.floats.str))
  outcome : ∀ v, filters.get? "outcome" = some v →
    x.floats.equalJson ((e.metadata.get? "outcome").getD .null) v =
      decide (x.floats.str v = x.floats.str ((e.metadata.get? "outcome").getD (.str "unknown")))
  date : ∀ v, filters.get? "date" = some v → x.floats.str v = e.timestamp.date

section

variable {x : EpisodicRules φ κ} {filters : Metadata φ} {e : MemoryEntry φ κ}

/-- Where they compare alike, an episode passes the filters if it is in all the wanted sets. -/
theorem passes_eq {wanted names : List String} (alike : ComparedAlike x filters e)
    (sought : wantedIndexes x filters = .ok wanted) (indexed : indexNames x e.metadata e.timestamp = .ok names) :
    passes x filters e.metadata = .ok (decide (∀ name ∈ wanted, name ∈ names)) := by
  obtain ⟨participants,tags,joined,tagged,describes⟩ := indexNames_describes indexed
  obtain ⟨wantedTags,wantTags,sought⟩ := ExceptRules.bind_eq_ok.mp sought
  cases sought
  have typed : (filters.get? "type").all (x.floats.equalJson ((e.metadata.get? "episode_type").getD .null)) =
      decide (∀ v, filters.get? "type" = some v → index .type (x.floats.str v) ∈ names) := by
    cases given : filters.get? "type" with
    | none => simp
    | some v => simp [alike.type v given,describes.type]
  have joins : tested (filters.get? "participant")
      (fun v => x.floats.member v ((e.metadata.get? "participants").getD (.list []))) =
      .ok (decide (∀ v, filters.get? "participant" = some v → index .participant (x.floats.str v) ∈ names)) := by
    cases given : filters.get? "participant" with
    | none => simp [tested]
    | some v =>
      simp only [tested,alike.participant v participants given joined,describes.participant]
      simp
  have holds : tested (filters.get? "tags") (x.floats.allIn ((e.metadata.get? "tags").getD (.list []))) =
      .ok (decide (∀ v ∈ wantedTags, index .tag (x.floats.str v) ∈ names)) := by
    rw [EpisodicMemory.wantedTags] at wantTags
    cases given : filters.get? "tags" with
    | none =>
      rw [given] at wantTags
      cases wantTags
      simp [tested]
    | some v =>
      rw [given] at wantTags
      simp only [tested,alike.tags v wantedTags tags given wantTags tagged,describes.tag]
  have ends : (filters.get? "outcome").all (x.floats.equalJson ((e.metadata.get? "outcome").getD .null)) =
      decide (∀ v, filters.get? "outcome" = some v → index .outcome (x.floats.str v) ∈ names) := by
    cases given : filters.get? "outcome" with
    | none => simp
    | some v => simp [alike.outcome v given,describes.outcome]
  have dated : ∀ v, filters.get? "date" = some v → index .date (x.floats.str v) ∈ names := fun v given =>
    (describes.date _).mpr (alike.date v given)
  simp only [passes,typed,joins,holds,ends,bind,Except.bind,pure,Except.pure,List.forall_mem_append,List.forall_mem_map,
    Option.mem_toList]
  simp only [eq_true dated,and_true,Bool.not_eq_true',decide_eq_false_iff_not,Bool.decide_and]
  split
  · next other => rw [decide_eq_false other]; rfl
  · next typed =>
    rw [decide_eq_true (not_not.mp typed),Bool.true_and]
    split
    · next apart => rw [decide_eq_false apart]; rfl
    · next joined =>
      rw [decide_eq_true (not_not.mp joined),Bool.true_and]
      split
      · next untagged => rw [decide_eq_false untagged]; rfl
      · next tagged => rw [decide_eq_true (not_not.mp tagged),Bool.true_and]

end

/-! ### Texts -/

def isText : Json φ → Bool
  | .str _ => true
  | _ => false

def areTexts : Json φ → Bool
  | .list items => items.all isText
  | _ => false

theorem areTexts_list {v : Json φ} (texts : areTexts v = true) : ∃ items, v = .list items ∧ items.all isText = true := by
  cases v with
  | list items => exact ⟨items,rfl,texts⟩
  | _ => cases texts

/-- The filters name texts and no day, and the attributes of the episode are texts. -/
structure Textual (filters metadata : Metadata φ) : Prop where
  type : (filters.get? "type").all isText = true
  participant : (filters.get? "participant").all isText = true
  tags : (filters.get? "tags").all areTexts = true
  outcome : (filters.get? "outcome").all isText = true
  undated : (filters.get? "date").isNone = true
  episodeType : (metadata.get? "episode_type").any isText = true
  participants : areTexts ((metadata.get? "participants").getD (.list [])) = true
  tagged : areTexts ((metadata.get? "tags").getD (.list [])) = true
  ended : (metadata.get? "outcome").any isText = true

section

variable (f : PythonFloats φ)

theorem equalJson_texts {v w : Json φ} (text : isText v = true) (text' : isText w = true) :
    f.equalJson v w = decide (f.str w = f.str v) := by
  match v,w,text,text' with
  | .str _,.str _,_,_ => exact decide_eq_decide.mpr eq_comm

theorem any_equal_texts {items : List (Json φ)} (texts : items.all isText = true) {v : Json φ} (text : isText v = true) :
    items.any (fun item => f.equalJson item v) = decide (f.str v ∈ items.map f.str) := by
  rw [Bool.eq_iff_iff,List.any_eq_true,decide_eq_true_eq,List.mem_map]
  refine exists_congr fun item => and_congr_right fun member => ?_
  rw [equalJson_texts f (List.all_eq_true.mp texts item member) text,decide_eq_true_eq,eq_comm]

theorem hash_text {v : Json φ} (text : isText v = true) : PythonFloats.hash v = .ok () := by
  cases v <;> first | rfl | cases text

theorem allIn_texts {items wanted : List (Json φ)} (texts : items.all isText = true) (texts' : wanted.all isText = true) :
    f.allIn (.list items) (.list wanted) = .ok (decide (∀ tag ∈ wanted, f.str tag ∈ items.map f.str)) := by
  have hashed : items.forM PythonFloats.hash = .ok () := by
    induction items with
    | nil => rfl
    | cons item rest ih =>
      obtain ⟨first,others⟩ := Bool.and_eq_true_iff.mp ((List.all_cons).symm.trans texts)
      simp only [List.forM,hash_text first,ih others,bind,Except.bind]
  have all (found : Bool) : wanted.foldlM (fun found v =>
      if found then (PythonFloats.hash v).map fun _ => items.any fun item => f.equalJson item v else .ok false) found =
      .ok (found && decide (∀ tag ∈ wanted, f.str tag ∈ items.map f.str)) := by
    induction wanted generalizing found with
    | nil => simp [pure,Except.pure]
    | cons v rest ih =>
      obtain ⟨first,others⟩ := Bool.and_eq_true_iff.mp ((List.all_cons).symm.trans texts')
      cases found with
      | false => simp [List.foldlM_cons,ih others,bind,Except.bind]
      | true =>
        rw [List.foldlM_cons,if_pos rfl,hash_text first]
        refine (ih others _).trans ?_
        simp only [any_equal_texts f texts first,Bool.true_and,List.forall_mem_cons,Bool.decide_and]
  simp only [PythonFloats.allIn,PythonFloats.iterate,hashed,bind,Except.bind]
  exact all true

theorem Textual.comparedAlike {x : EpisodicRules φ κ} {filters : Metadata φ} {e : MemoryEntry φ κ}
    (textual : Textual filters e.metadata) : ComparedAlike x filters e where
  type := by
    intro v given
    obtain ⟨w,present,text⟩ := (Option.any_eq_true _ _).mp textual.episodeType
    have text' := textual.type
    rw [given] at text'
    rw [present]
    exact equalJson_texts _ text text'
  participant := by
    intro v present given joined
    obtain ⟨items,container,texts⟩ := areTexts_list textual.participants
    have text := textual.participant
    rw [given] at text
    rw [container] at joined ⊢
    cases joined
    exact congrArg Except.ok (any_equal_texts _ texts text)
  tags := by
    intro v wanted present given sought tagged
    obtain ⟨items,container,texts⟩ := areTexts_list textual.tagged
    have texts' := textual.tags
    rw [given] at texts'
    obtain ⟨others,rfl,texts'⟩ := areTexts_list texts'
    rw [container] at tagged ⊢
    cases tagged
    cases sought
    exact allIn_texts _ texts texts'
  outcome := by
    intro v given
    obtain ⟨w,present,text⟩ := (Option.any_eq_true _ _).mp textual.ended
    have text' := textual.outcome
    rw [given] at text'
    rw [present]
    exact equalJson_texts _ text text'
  date := by
    intro v given
    have undated := textual.undated
    rw [given] at undated
    cases undated

end

end IceOS.EpisodicMemory
