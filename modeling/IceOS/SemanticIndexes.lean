import IceOS.ActionRuns
import IceOS.FactTraces

/-! When the indexes of the semantic memory mirror its facts. A fact that is stored under a key in use leaves
the old entries of the key behind. -/
namespace IceOS

open ActionRuns

namespace SemanticMemory

variable {α ρ : Type} {rules : SemanticRules α ρ} {cfg : MemoryConfig} {s t : SemanticMemory α ρ}

def trace (s : SemanticMemory α ρ) (k : String) : FactTrace α ρ where
  fact := s.facts.get? k
  listed d e := (s.entityIndex.list d e).count k
  linked type := s.relationships.list type k
  embedding := s.embeddings.get? k

/-- No empty list or dictionary is kept in the indexes. -/
def Compact (s : SemanticMemory α ρ) : Prop := s.entityIndex.Compact ∧ s.relationships.Compact

theorem index_compact (compact : s.Compact) (key : String) (fact : Fact α) : (s.index key fact).Compact := by
  constructor
  · exact List.foldlRecOn fact.entities _ compact.1 fun idx kept entity _ => NestedIndex.compact_append kept _ entity key
  · exact List.foldlRecOn fact.links _ compact.2 fun idx kept link _ => NestedIndex.compact_append kept link.1 key link.2

theorem store_left (rules : SemanticRules α ρ) (cfg : MemoryConfig) (key : String) (content : α) (metadata : FactMetadata)
    (s : SemanticMemory α ρ) : left (s.store rules cfg key content metadata) =
      { s.index key (metadata.complete content) with
        embeddings := (FactTrace.vectorOf rules cfg (metadata.complete content)).elim s.embeddings (s.embeddings.set key) } := by
  unfold store FactTrace.vectorOf
  cases cfg.enableVectorSearch with
  | false => rfl
  | true =>
    dsimp only [FactMetadata.complete]
    cases rules.embed cfg.embeddingDim content with
    | none => rfl
    | some vector => rfl

/-- Storing touches what is held of the key and nothing else. -/
theorem store_trace (rules : SemanticRules α ρ) (cfg : MemoryConfig) (key : String) (content : α) (metadata : FactMetadata)
    (s : SemanticMemory α ρ) (k : String) : (left (s.store rules cfg key content metadata)).trace k =
      if key = k then (s.trace key).store (metadata.complete content) (FactTrace.vectorOf rules cfg (metadata.complete content))
      else s.trace k := by
  rw [store_left]
  simp only [trace,index,NestedIndex.count_foldl_append,list_foldl_append_links,OrderedDict.get?_set]
  by_cases same : key = k
  · subst same
    simp only [FactTrace.store,and_true,if_true,FactTrace.mk.injEq,true_and]
    refine ⟨rfl,?_⟩
    cases FactTrace.vectorOf rules cfg (metadata.complete content) with
    | none => rfl
    | some vector => simp
  · simp only [same,and_false,if_false,Nat.add_zero,List.append_nil,FactTrace.mk.injEq,true_and]
    cases FactTrace.vectorOf rules cfg (metadata.complete content) with
    | none => rfl
    | some vector => simp [same]

theorem store_compact (compact : s.Compact) (key : String) (content : α) (metadata : FactMetadata) :
    (left (s.store rules cfg key content metadata)).Compact := by
  rw [store_left]
  exact index_compact compact key (metadata.complete content)

theorem delete_spec {key : String} (enough : (s.trace key).Enough) : ∃ deleted t, s.delete key = .ok (deleted,t) ∧
    (∀ k, t.trace k = if key = k then (s.trace key).delete else s.trace k) ∧ (s.Compact → t.Compact) := by
  unfold delete
  cases stored : s.facts.get? key with
  | none =>
    refine ⟨false,s,rfl,fun k => ?_,id⟩
    split
    · next same =>
      subst same
      exact (FactTrace.delete_of_none stored).symm
    · rfl
  | some fact =>
    obtain ⟨entityIndex,removed⟩ := removeEntities_isOk (enough fact stored)
    simp only [removed]
    refine ⟨true,_,rfl,fun k => ?_,fun compact => ⟨removeEntities_compact compact.1 removed,?_⟩⟩
    · simp only [trace,removeEntities_count removed,list_foldl_drop,OrderedDict.get?_erase_eq_update,Function.update_apply]
      by_cases same : key = k
      · subst same
        simp only [FactTrace.delete,stored,and_true,true_and,if_true]
      · simp only [same,Ne.symm same,and_false,false_and,if_false,Nat.sub_zero]
    · exact List.foldlRecOn fact.linkTypes _ compact.2 fun idx kept type _ => NestedIndex.compact_drop kept type key

theorem deleteAll_spec {keys : List String} (enough : ∀ key ∈ keys, (s.trace key).Enough) :
    ∃ count t, s.deleteAll keys = .ok (count,t) ∧
      (∀ k, t.trace k = if k ∈ keys then (s.trace k).delete else s.trace k) ∧ (s.Compact → t.Compact) := by
  induction keys generalizing s with
  | nil => exact ⟨0,s,rfl,fun k => by simp,id⟩
  | cons key rest ih =>
    obtain ⟨deleted,u,first,traces,compact⟩ := delete_spec (enough key List.mem_cons_self)
    have enough' (k : String) (later : k ∈ rest) : (u.trace k).Enough := by
      rw [traces]
      split
      · exact FactTrace.enough_delete _
      · exact enough k (List.mem_cons_of_mem key later)
    obtain ⟨count,t,others,traces',compact'⟩ := ih enough'
    refine ⟨_,t,by simp only [deleteAll,first,others,bind,Except.bind]; rfl,fun k => ?_,fun h => compact' (compact h)⟩
    rw [traces',traces]
    by_cases same : key = k
    · subst same
      simp [FactTrace.delete_delete]
    · simp [same,Ne.symm same]

/-! ### Runs -/

structure Sound (rules : SemanticRules α ρ) (cfg : MemoryConfig) (s : SemanticMemory α ρ) : Prop where
  mirrored : ∀ k, (s.trace k).Mirrored rules cfg
  distinct : ∀ k, (s.trace k).Distinct
  compact : s.Compact

/-- Whether the fact stored under the key has the domain and lists the entity. -/
def lists (s : SemanticMemory α ρ) (k domain entity : String) : Bool :=
  (s.facts.get? k).any fun fact => fact.domain = domain && fact.entities.contains entity

/-- All indexes mirror the stored facts. -/
structure Mirrors (rules : SemanticRules α ρ) (cfg : MemoryConfig) (s : SemanticMemory α ρ) : Prop where
  entities : ∀ k d e, (s.getFactsForEntityInDomain e d).count k = if s.lists k d e then 1 else 0
  relationships : ∀ k type, s.relationships.list type k = (s.facts.get? k).elim [] fun fact => fact.linksOf type
  embeddings : ∀ k, (s.embeddings.get? k).map some =
    if cfg.enableVectorSearch then (s.facts.get? k).map fun fact => rules.embed cfg.embeddingDim fact.content else none
  entityCounts : ∀ d e, (s.getFactsForEntityInDomain e d).length = s.facts.keys.countP fun k => s.lists k d e
  domains : ∀ d e, e ∈ s.getEntitiesByDomain d ↔ ∃ k, s.lists k d e = true

theorem Mirrors.trace (mirrors : Mirrors rules cfg s) (k : String) : (s.trace k).Mirrored rules cfg where
  listed := mirrors.entities k
  linked := mirrors.relationships k
  embedding := mirrors.embeddings k

theorem Sound.mirrors (sound : Sound rules cfg s) : Mirrors rules cfg s := by
  have entities (k d e : String) : (s.getFactsForEntityInDomain e d).count k = if s.lists k d e then 1 else 0 :=
    (sound.mirrored k).listed d e
  have mem_iff (k d e : String) : k ∈ s.getFactsForEntityInDomain e d ↔ s.lists k d e = true := by
    rw [← List.count_pos_iff,entities]
    split
    · simp [*]
    · simp [*]
  refine ⟨entities,fun k => (sound.mirrored k).linked,fun k => (sound.mirrored k).embedding,fun d e => ?_,fun d e => ?_⟩
  · have nodup : (s.getFactsForEntityInDomain e d).Nodup := by
      refine List.nodup_iff_count_le_one.mpr fun k => ?_
      rw [entities]
      split
      · exact Nat.le_refl 1
      · exact Nat.zero_le 1
    rw [List.countP_eq_length_filter]
    refine List.Perm.length_eq ((List.perm_ext_iff_of_nodup nodup (s.facts.keys_nodup.filter _)).mpr fun k => ?_)
    rw [mem_iff,List.mem_filter,OrderedDict.mem_keys]
    refine ⟨fun listed => ⟨?_,listed⟩,And.right⟩
    cases stored : s.facts.get? k with
    | none => simp [lists,stored] at listed
    | some fact => rfl
  · rw [getEntitiesByDomain,NestedIndex.mem_inner_keys sound.compact.1]
    constructor
    · intro some
      obtain ⟨k,member⟩ := List.exists_mem_of_ne_nil _ some
      exact ⟨k,(mem_iff k d e).mp member⟩
    · rintro ⟨k,listed⟩
      exact List.ne_nil_of_mem ((mem_iff k d e).mpr listed)

/-- The embedding of a content can be made, if there is to be one. -/
def Embeds (rules : SemanticRules α ρ) (cfg : MemoryConfig) (content : α) : Prop :=
  cfg.enableVectorSearch = true → (rules.sha384 content).isSome = true ∧ cfg.embeddingDim ≤ 48

/-- A fact is stored with distinct entities and an embedding under a key that has nothing in the indexes. Facts are merged
under such a key as well, though if that is among the merged keys it may have relationships. -/
def Careful (rules : SemanticRules α ρ) (cfg : MemoryConfig) (s : SemanticMemory α ρ) : SemanticRequest α → Prop
  | .store key content metadata =>
    (∀ old, s.facts.get? key = some old → old.entities = [] ∧ old.links = []) ∧
      (metadata.complete content).entities.Nodup ∧ Embeds rules cfg content
  | .delete _ | .clear _ => True
  | .mergeFacts keys mergedKey now =>
    keys.filterMap s.facts.get? = [] ∨
      ((∀ old, s.facts.get? mergedKey = some old → old.entities = [] ∧ (mergedKey ∈ keys ∨ old.links = [])) ∧
        Embeds rules cfg (rules.mergedContent keys ((keys.filterMap s.facts.get?).map Fact.content) now))

theorem embeds_iff (content : α) : (cfg.enableVectorSearch = true → (rules.embed cfg.embeddingDim content).isSome = true) ↔
    Embeds rules cfg content := by
  rw [Embeds,rules.embed_isSome_iff]

theorem Sound.enough (sound : Sound rules cfg s) (k : String) : (s.trace k).Enough :=
  FactTrace.enough_of_mirrored (sound.mirrored k) (sound.distinct k)

/-- Only one key changes, and its trace is in order. -/
theorem sound_of_others (sound : Sound rules cfg s) (key : String) (others : ∀ k, key ≠ k → t.trace k = s.trace k)
    (mirrored : (t.trace key).Mirrored rules cfg) (distinct : (t.trace key).Distinct) (compact : t.Compact) :
    Sound rules cfg t where
  mirrored k := by
    by_cases same : key = k
    · exact same ▸ mirrored
    · rw [others k same]
      exact sound.mirrored k
  distinct k := by
    by_cases same : key = k
    · exact same ▸ distinct
    · rw [others k same]
      exact sound.distinct k
  compact := compact

theorem deleteAll_sound (sound : Sound rules cfg s) (keys : List String) :
    ∃ count t, s.deleteAll keys = .ok (count,t) ∧ Sound rules cfg t := by
  obtain ⟨count,t,deleted,traces,compact⟩ :=
    deleteAll_spec fun key _ => sound.enough key
  refine ⟨count,t,deleted,⟨fun k => ?_,fun k => ?_,compact sound.compact⟩⟩
  · rw [traces]
    split
    · exact FactTrace.delete_mirrored (sound.mirrored k) (sound.distinct k)
    · exact sound.mirrored k
  · rw [traces]
    split
    · intro fact stored
      cases (FactTrace.delete_fact _).symm.trans stored
    · exact sound.distinct k

theorem left_deleteAll (sound : Sound rules cfg s) (keys : List String) :
    Sound rules cfg (left ((s.deleteAll keys).map Prod.snd)) := by
  obtain ⟨count,t,deleted,sound'⟩ := deleteAll_sound sound keys
  rw [deleted]
  exact sound'

theorem left_delete (sound : Sound rules cfg s) (key : String) : Sound rules cfg (left ((s.delete key).map Prod.snd)) := by
  obtain ⟨deleted,t,removed,_⟩ := delete_spec (sound.enough key)
  have sound' := left_deleteAll sound [key]
  simp only [deleteAll,removed,bind,Except.bind,pure,Except.pure] at sound'
  rw [removed]
  exact sound'

section Storing

variable (sound : Sound rules cfg s) {key : String} {content : α} {metadata : FactMetadata}

include sound

theorem store_careful_iff : ((left (s.store rules cfg key content metadata)).trace key).Mirrored rules cfg ↔
    s.Careful rules cfg (.store key content metadata) := by
  rw [store_trace,if_pos rfl,FactTrace.store_mirrored_iff (sound.mirrored key)]
  exact and_congr_right' (and_congr_right' (embeds_iff content))

theorem store_sound (careful : s.Careful rules cfg (.store key content metadata)) :
    Sound rules cfg (left (s.store rules cfg key content metadata)) := by
  refine sound_of_others sound key (fun k other => ?_) ((store_careful_iff sound).mpr careful) ?_
    (store_compact sound.compact key content metadata)
  · rw [store_trace,if_neg other]
  · rw [store_trace,if_pos rfl]
    rintro fact stored
    cases stored
    exact careful.2.1

end Storing

section Merging

/-- What `merge_facts` stores. -/
def mergedFact (rules : SemanticRules α ρ) (s : SemanticMemory α ρ) (keys : List String) (now : Int) : Fact α :=
  (mergedMetadata rules (keys.filterMap s.facts.get?)).complete
    (rules.mergedContent keys ((keys.filterMap s.facts.get?).map Fact.content) now)

/-- Where storing the merged fact leaves the memory. -/
def merging (rules : SemanticRules α ρ) (cfg : MemoryConfig) (s : SemanticMemory α ρ) (keys : List String)
    (mergedKey : String) (now : Int) : SemanticMemory α ρ :=
  left (s.store rules cfg mergedKey (mergedFact rules s keys now).content
    (mergedMetadata rules (keys.filterMap s.facts.get?)))

variable {keys : List String} {mergedKey : String} {now : Int}

theorem merging_trace (k : String) : (merging rules cfg s keys mergedKey now).trace k =
    if mergedKey = k then
      (s.trace mergedKey).store (mergedFact rules s keys now) (FactTrace.vectorOf rules cfg (mergedFact rules s keys now))
    else s.trace k :=
  store_trace rules cfg mergedKey _ _ s k

theorem store_eq (key : String) (content : α) (metadata : FactMetadata) (embeds : Embeds rules cfg content) :
    s.store rules cfg key content metadata = .ok (left (s.store rules cfg key content metadata)) := by
  have embedded := (embeds_iff content).mpr embeds
  unfold store
  cases vectors : cfg.enableVectorSearch with
  | false => rfl
  | true =>
    obtain ⟨vector,made⟩ := Option.isSome_iff_exists.mp (embedded vectors)
    simp only [made]
    rfl

theorem mergeFacts_nothing (absent : keys.filterMap s.facts.get? = []) :
    s.mergeFacts rules cfg keys mergedKey now = .ok (false,s) := by
  simp only [mergeFacts,absent]
  rfl

theorem mergeFacts_raises (present : keys.filterMap s.facts.get? ≠ [])
    (fails : ¬Embeds rules cfg (mergedFact rules s keys now).content) :
    s.mergeFacts rules cfg keys mergedKey now = .error (merging rules cfg s keys mergedKey now) := by
  rw [← embeds_iff,Classical.not_imp,Bool.not_eq_true,Option.isSome_eq_false_iff,Option.isNone_iff_eq_none] at fails
  have stores : s.store rules cfg mergedKey (mergedFact rules s keys now).content
      (mergedMetadata rules (keys.filterMap s.facts.get?)) = .error (merging rules cfg s keys mergedKey now) := by
    unfold merging store
    simp only [fails.1,fails.2]
    rfl
  have content : (mergedFact rules s keys now).content =
    rules.mergedContent keys ((keys.filterMap s.facts.get?).map Fact.content) now := rfl
  rw [content] at stores
  simp only [mergeFacts,List.isEmpty_eq_false_iff.mpr present,stores,bind,Except.bind]
  rfl

/-- If nothing is raised, the merged fact is stored and the keys are deleted. -/
theorem mergeFacts_spec (mergedKey : String) (enough : ∀ k, (s.trace k).Enough) (present : keys.filterMap s.facts.get? ≠ [])
    (embeds : Embeds rules cfg (mergedFact rules s keys now).content) :
    ∃ t, s.mergeFacts rules cfg keys mergedKey now = .ok (true,t) ∧ (s.Compact → t.Compact) ∧
      ∀ k, t.trace k = if k ∈ keys then ((merging rules cfg s keys mergedKey now).trace k).delete
        else (merging rules cfg s keys mergedKey now).trace k := by
  have stores : s.store rules cfg mergedKey (rules.mergedContent keys ((keys.filterMap s.facts.get?).map Fact.content) now)
      (mergedMetadata rules (keys.filterMap s.facts.get?)) = .ok (merging rules cfg s keys mergedKey now) :=
    store_eq mergedKey _ _ embeds
  have enough (k : String) (_ : k ∈ keys) : ((merging rules cfg s keys mergedKey now).trace k).Enough := by
    rw [merging_trace]
    split
    · exact FactTrace.enough_store _ _
    · exact enough k
  obtain ⟨count,t,deleted,traces,compact⟩ := deleteAll_spec enough
  refine ⟨t,?_,fun before => compact (store_compact before _ _ _),traces⟩
  simp only [mergeFacts,List.isEmpty_eq_false_iff.mpr present,stores,deleted,bind,Except.bind,pure,Except.pure]
  rfl

/-- Every link of a merged fact has a type that deleting the result removes. -/
theorem merged_covers (sound : Sound rules cfg s) (merged : mergedKey ∈ keys) (type : String)
    (linked : (s.trace mergedKey).linked type ≠ []) : type ∈ (mergedFact rules s keys now).linkTypes := by
  rw [(sound.mirrored mergedKey).linked] at linked
  cases stored : s.facts.get? mergedKey with
  | none => simp [trace,stored] at linked
  | some old =>
    simp only [trace,stored,Option.elim_some] at linked
    have typed : type ∈ old.linkTypes := not_not.mp fun absent => linked (FactTrace.linksOf_eq_nil absent)
    obtain ⟨relationship,inside,same⟩ := List.mem_filterMap.mp typed
    refine List.mem_filterMap.mpr ⟨relationship,?_,same⟩
    exact List.mem_flatMap.mpr ⟨old,List.mem_filterMap.mpr ⟨mergedKey,merged,stored⟩,inside⟩

theorem mergeFacts_careful_iff (sound : Sound rules cfg s) :
    ((left ((s.mergeFacts rules cfg keys mergedKey now).map Prod.snd)).trace mergedKey).Mirrored rules cfg ↔
      s.Careful rules cfg (.mergeFacts keys mergedKey now) := by
  by_cases present : keys.filterMap s.facts.get? = []
  · rw [mergeFacts_nothing present]
    exact ⟨fun _ => .inl present,fun _ => sound.mirrored mergedKey⟩
  simp only [Careful,present,false_or]
  by_cases embeds : Embeds rules cfg (mergedFact rules s keys now).content
  · obtain ⟨t,done,_,traces⟩ := mergeFacts_spec mergedKey sound.enough present embeds
    have distinct : (mergedFact rules s keys now).entities.Nodup := rules.listing_nodup _
    have embedded : Embeds rules cfg (rules.mergedContent keys ((keys.filterMap s.facts.get?).map Fact.content) now) := embeds
    rw [done]
    simp only [Except.map,left,traces,merging_trace,if_true]
    split
    · next merged =>
      rw [FactTrace.store_delete_mirrored_iff (sound.mirrored mergedKey) _ (merged_covers sound merged)]
      constructor
      · intro empty
        exact ⟨fun old stored => ⟨empty old stored,.inl merged⟩,embedded⟩
      · rintro ⟨clear,_⟩ old stored
        exact (clear old stored).1
    · next apart =>
      rw [FactTrace.store_mirrored_iff (sound.mirrored mergedKey),embeds_iff]
      constructor
      · rintro ⟨clear,_,_⟩
        exact ⟨fun old stored => ⟨(clear old stored).1,.inr (clear old stored).2⟩,embedded⟩
      · rintro ⟨clear,_⟩
        exact ⟨fun old stored => ⟨(clear old stored).1,(clear old stored).2.resolve_left apart⟩,distinct,embeds⟩
  · rw [mergeFacts_raises present embeds,Except.map,left,merging_trace,if_pos rfl,
      FactTrace.store_mirrored_iff (sound.mirrored mergedKey),embeds_iff]
    exact ⟨fun stored => absurd stored.2.2 embeds,fun careful => absurd careful.2 embeds⟩

theorem mergeFacts_sound (sound : Sound rules cfg s) (careful : s.Careful rules cfg (.mergeFacts keys mergedKey now)) :
    Sound rules cfg (left ((s.mergeFacts rules cfg keys mergedKey now).map Prod.snd)) := by
  have mirrored := (mergeFacts_careful_iff sound).mpr careful
  rcases careful with nothing | ⟨_,embeds⟩
  · rw [mergeFacts_nothing nothing]
    exact sound
  by_cases present : keys.filterMap s.facts.get? = []
  · rw [mergeFacts_nothing present]
    exact sound
  obtain ⟨t,done,compact,traces⟩ := mergeFacts_spec mergedKey sound.enough present embeds
  rw [done] at mirrored ⊢
  have of_trace (k : String) : (t.trace k).Mirrored rules cfg ∧ (t.trace k).Distinct := by
    have distinct (k : String) : ((merging rules cfg s keys mergedKey now).trace k).Distinct := by
      rw [merging_trace]
      split
      · rintro fact stored
        cases stored
        exact rules.listing_nodup _
      · exact sound.distinct k
    have others (other : mergedKey ≠ k) : (t.trace k).Mirrored rules cfg := by
      rw [traces,merging_trace,if_neg other]
      split
      · exact FactTrace.delete_mirrored (sound.mirrored k) (sound.distinct k)
      · exact sound.mirrored k
    constructor
    · by_cases same : mergedKey = k
      · exact same ▸ mirrored
      · exact others same
    · rw [traces]
      split
      · intro fact stored
        cases (FactTrace.delete_fact _).symm.trans stored
      · exact distinct k
  exact ⟨fun k => (of_trace k).1,fun k => (of_trace k).2,compact sound.compact⟩

end Merging

/-- No request is refused. -/
theorem step_enabled (rules : SemanticRules α ρ) (cfg : MemoryConfig) (s : SemanticMemory α ρ) (r : SemanticRequest α) :
    ∃ t, s.step rules cfg r = some t := by
  cases r with
  | store key content metadata => exact ⟨_,rfl⟩
  | delete key => exact ⟨_,rfl⟩
  | mergeFacts keys mergedKey now => exact ⟨_,rfl⟩
  | clear pattern => exact ⟨_,rfl⟩

theorem step_careful_iff (s : SemanticMemory α ρ) (r : SemanticRequest α) (t : SemanticMemory α ρ)
    (sound : Sound rules cfg s) (stepped : s.step rules cfg r = some t) : Mirrors rules cfg t ↔ s.Careful rules cfg r := by
  cases r with
  | store key content metadata =>
    cases stepped
    exact ⟨fun mirrors => (store_careful_iff sound).mp (mirrors.trace key),fun careful => (store_sound sound careful).mirrors⟩
  | delete key =>
    cases stepped
    exact ⟨fun _ => trivial,fun _ => (left_delete sound key).mirrors⟩
  | mergeFacts keys mergedKey now =>
    cases stepped
    constructor
    · intro mirrors
      exact (mergeFacts_careful_iff sound).mp (mirrors.trace mergedKey)
    · intro careful
      exact (mergeFacts_sound sound careful).mirrors
  | clear pattern =>
    cases stepped
    exact ⟨fun _ => trivial,fun _ => (left_deleteAll sound _).mirrors⟩

theorem step_sound (s : SemanticMemory α ρ) (r : SemanticRequest α) (t : SemanticMemory α ρ) (sound : Sound rules cfg s)
    (careful : s.Careful rules cfg r) (stepped : s.step rules cfg r = some t) : Sound rules cfg t := by
  cases r with
  | store key content metadata =>
    cases stepped
    exact store_sound sound careful
  | delete key =>
    cases stepped
    exact left_delete sound key
  | mergeFacts keys mergedKey now =>
    cases stepped
    exact mergeFacts_sound sound careful
  | clear pattern =>
    cases stepped
    exact left_deleteAll sound _

theorem empty_sound (rules : SemanticRules α ρ) (cfg : MemoryConfig) : Sound rules cfg ({} : SemanticMemory α ρ) where
  mirrored k := ⟨fun d e => rfl,fun type => rfl,by cases h : cfg.enableVectorSearch <;> simp [trace]⟩
  distinct k fact stored := by cases stored
  compact := ⟨NestedIndex.compact_empty,NestedIndex.compact_empty⟩

/-- All along a sequence of requests the indexes mirror the facts exactly if every request is careful. -/
theorem semanticMemory_mirrors_iff (rules : SemanticRules α ρ) (cfg : MemoryConfig) (requests : List (SemanticRequest α))
    (s : SemanticMemory α ρ) (ran : run (step rules cfg) requests {} = some s) :
    (∀ first rest t, requests = first ++ rest → run (step rules cfg) first {} = some t → Mirrors rules cfg t) ↔
      Throughout (step rules cfg) (Careful rules cfg) requests {} :=
  throughout_iff_of_strong step_careful_iff step_sound ran (empty_sound rules cfg) (empty_sound rules cfg).mirrors

def plainRules : SemanticRules String Nat where
  sha384 content := some (List.replicate 48 content.length)
  sha384_length content bytes hashed := by
    cases hashed
    exact List.length_replicate
  scale _ byte := byte
  mergedContent keys _ _ := ", ".intercalate keys
  listing := List.dedup
  listing_nodup := List.nodup_dedup
  mem_listing _ _ := List.mem_dedup

/-- Two facts that are merged into a third one, which is deleted. -/
def learning : List (SemanticRequest String) :=
  [.store "price" "1200" { entities := ["laptop"],domain := "shop" },
   .store "stock" "7" { entities := ["laptop"],relationships := some [.dict "supplier" "from" none] },
   .mergeFacts ["price","stock"] "offer" 0,.delete "offer"]

theorem learning_mirrors_iff : ∃ s, run (step plainRules {}) learning {} = some s ∧
    ((∀ first rest t, learning = first ++ rest → run (step plainRules {}) first {} = some t → Mirrors plainRules {} t) ↔
      Throughout (step plainRules {}) (Careful plainRules {}) learning {}) := by
  obtain ⟨s,ran⟩ := run_total (step_enabled plainRules {}) learning {}
  exact ⟨s,ran,semanticMemory_mirrors_iff plainRules {} learning s ran⟩

/-- A fact that is stored again about something else still stands under its first entity. -/
theorem restored_stale : ¬∀ (rules : SemanticRules String Nat) (cfg : MemoryConfig)
    (requests : List (SemanticRequest String)) (s : SemanticMemory String Nat),
    run (step rules cfg) requests {} = some s → Mirrors rules cfg s := by
  intro claim
  have mirrors := claim plainRules {}
    [.store "price" "1200" { entities := ["laptop"] },.store "price" "800" { entities := ["phone"] }] _ rfl
  exact absurd (mirrors.entities "price" "general" "laptop") (by decide)

end SemanticMemory

end IceOS
