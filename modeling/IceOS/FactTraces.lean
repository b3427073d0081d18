import IceOS.SemanticMemory

/-! What the semantic memory holds of one key, in its facts and in its indexes, and how storing and deleting
change it. -/
namespace IceOS

namespace SemanticMemory

/-! ### Additions to the indexes and removals -/

theorem list_foldl_append_links (key : String) (links : List (String × String × Rat))
    (idx : NestedIndex String String (String × Rat)) (type k : String) :
    (links.foldl (fun idx link => idx.append link.1 key link.2) idx).list type k =
      idx.list type k ++ if key = k then (links.filter fun link => link.1 = type).map Prod.snd else [] := by
  induction links generalizing idx with
  | nil => simp
  | cons link rest ih =>
    rw [List.foldl_cons,ih,NestedIndex.list_append]
    by_cases at_k : key = k
    · subst at_k
      by_cases same : link.1 = type
      · subst same
        simp
      · simp [same]
    · simp [at_k]

theorem list_foldl_drop (key : String) (types : List String) (idx : NestedIndex String String (String × Rat))
    (type k : String) : (types.foldl (fun idx type => idx.drop type key) idx).list type k =
      if key = k ∧ type ∈ types then [] else idx.list type k := by
  induction types generalizing idx with
  | nil => simp
  | cons first rest ih =>
    rw [List.foldl_cons,ih,NestedIndex.list_drop]
    by_cases at_k : key = k
    · subst at_k
      by_cases later : type ∈ rest
      · simp [later]
      · by_cases same : first = type
        · simp [same]
        · simp [later,same,Ne.symm same]
    · simp [at_k]

theorem removeEntities_count {domain key : String} {entities : List String} {idx idx' : NestedIndex String String String}
    (removed : removeEntities domain key entities idx = .ok idx') (d e k : String) :
    (idx'.list d e).count k = (idx.list d e).count k - if domain = d ∧ key = k then entities.count e else 0 := by
  induction entities generalizing idx with
  | nil =>
    cases removed
    simp
  | cons entity rest ih =>
    simp only [removeEntities] at removed
    split at removed
    · cases removed
    · next idx₁ first =>
      rw [ih removed,NestedIndex.list_remove first]
      by_cases same : domain = d ∧ entity = e
      · obtain ⟨rfl,rfl⟩ := same
        by_cases at_k : key = k
        · subst at_k
          simp only [and_self,if_true,List.count_erase_self,List.count_cons_self]
          omega
        · simp [at_k,List.count_erase_of_ne (Ne.symm at_k)]
      · rw [if_neg same]
        by_cases here : domain = d ∧ key = k
        · have other : entity ≠ e := fun eq => same ⟨here.1,eq⟩
          simp only [here,and_self,if_true,List.count_cons_of_ne other]
        · simp only [if_neg here]

/-- A key that stands under its entities often enough can be removed from them. -/
theorem removeEntities_isOk {domain key : String} {entities : List String} {idx : NestedIndex String String String}
    (enough : ∀ e, entities.count e ≤ (idx.list domain e).count key) :
    ∃ idx', removeEntities domain key entities idx = .ok idx' := by
  induction entities generalizing idx with
  | nil => exact ⟨idx,rfl⟩
  | cons entity rest ih =>
    have listed : key ∈ idx.list domain entity := by
      apply List.count_pos_iff.mp
      have many := enough entity
      rw [List.count_cons_self] at many
      omega
    obtain ⟨idx₁,first⟩ := NestedIndex.remove_isSome listed
    simp only [removeEntities,first]
    apply ih
    intro e
    have many := enough e
    rw [NestedIndex.list_remove first]
    by_cases same : entity = e
    · subst same
      simp only [and_self,if_true,List.count_erase_self]
      rw [List.count_cons_self] at many
      omega
    · rw [List.count_cons_of_ne same] at many
      simp only [same,and_false,if_false]
      exact many

theorem removeEntities_compact {domain key : String} {entities : List String} {idx idx' : NestedIndex String String String}
    (compact : idx.Compact) (removed : removeEntities domain key entities idx = .ok idx') : idx'.Compact := by
  induction entities generalizing idx with
  | nil =>
    cases removed
    exact compact
  | cons entity rest ih =>
    simp only [removeEntities] at removed
    split at removed
    · cases removed
    · next idx₁ first => exact ih (NestedIndex.compact_remove compact first) removed

end SemanticMemory

/-! ### All that is held of one key -/

/-- `listed` counts the occurrences of the key under a domain and an entity, `linked` is its list under a type. -/
structure FactTrace (α ρ : Type) where
  fact : Option (Fact α)
  listed : String → String → Nat
  linked : String → List (String × Rat)
  embedding : Option (List ρ)

namespace FactTrace

variable {α ρ : Type}

def store (fact : Fact α) (vector : Option (List ρ)) (trace : FactTrace α ρ) : FactTrace α ρ where
  fact := some fact
  listed d e := trace.listed d e + if fact.domain = d then fact.entities.count e else 0
  linked type := trace.linked type ++ fact.linksOf type
  embedding := vector.or trace.embedding

def delete (trace : FactTrace α ρ) : FactTrace α ρ :=
  match trace.fact with
  | none => trace
  | some fact =>
    { fact := none
      listed := fun d e => trace.listed d e - if fact.domain = d then fact.entities.count e else 0
      linked := fun type => if type ∈ fact.linkTypes then [] else trace.linked type
      embedding := none }

/-- The key is listed once under each entity of its fact in the domain of the fact and nowhere else, its links are
those of the fact, and the embedding is that of the content. -/
structure Mirrored (rules : SemanticRules α ρ) (cfg : MemoryConfig) (trace : FactTrace α ρ) : Prop where
  listed : ∀ d e, trace.listed d e = if trace.fact.any (fun fact => fact.domain = d && fact.entities.contains e) then 1 else 0
  linked : ∀ type, trace.linked type = trace.fact.elim [] fun fact => fact.linksOf type
  embedding : trace.embedding.map some =
    if cfg.enableVectorSearch then trace.fact.map fun fact => rules.embed cfg.embeddingDim fact.content else none

/-- The entities of the fact are distinct. -/
def Distinct (trace : FactTrace α ρ) : Prop := ∀ fact, trace.fact = some fact → fact.entities.Nodup

theorem linksOf_eq_nil {fact : Fact α} {type : String} (absent : type ∉ fact.linkTypes) : fact.linksOf type = [] := by
  simp only [Fact.linksOf,List.map_eq_nil_iff,List.filter_eq_nil_iff,decide_eq_true_eq]
  rintro link member rfl
  apply absent
  obtain ⟨relationship,inside,linked⟩ := List.mem_filterMap.mp member
  refine List.mem_filterMap.mpr ⟨relationship,inside,?_⟩
  match relationship with
  | .dict (some target) (some type) strength =>
    cases linked
    rfl
  | .dict none _ _ | .dict (some _) none _ | .other => cases linked

variable {rules : SemanticRules α ρ} {cfg : MemoryConfig} {trace : FactTrace α ρ}

theorem delete_mirrored (mirrored : trace.Mirrored rules cfg) (distinct : trace.Distinct) :
    trace.delete.Mirrored rules cfg := by
  unfold delete
  cases stored : trace.fact with
  | none => exact mirrored
  | some fact =>
    constructor
    · intro d e
      simp only [mirrored.listed,stored,Option.any_some,Option.any_none,Bool.false_eq_true,if_false]
      by_cases same : fact.domain = d
      · simp [same,NestedIndex.count_eq_of_nodup (distinct fact stored)]
      · simp [same]
    · intro type
      simp only [mirrored.linked,stored,Option.elim_some,Option.elim_none]
      split
      · rfl
      · next absent => exact linksOf_eq_nil absent
    · simp

/-- What the memory listed before comes on top of what the new fact adds. -/
theorem added_iff (before : String → String → Nat) (fact : Fact α) :
    (∀ d e, before d e + (if fact.domain = d then fact.entities.count e else 0) =
      if fact.domain = d ∧ fact.entities.contains e then 1 else 0) ↔
    (∀ d e, before d e = 0) ∧ fact.entities.Nodup := by
  constructor
  · intro sums
    refine ⟨fun d e => ?_,List.nodup_iff_count_le_one.mpr fun e => ?_⟩
    · have sum := sums d e
      by_cases same : fact.domain = d
      · by_cases member : e ∈ fact.entities
        · have some := List.count_pos_iff.mpr member
          simp only [same,member,List.contains_iff_mem,and_self,if_true] at sum
          omega
        · simp only [same,List.count_eq_zero.mpr member,List.contains_iff_mem,member,and_false,if_true,if_false] at sum
          exact sum
      · rw [if_neg same,if_neg fun both => same both.1] at sum
        exact sum
    · have sum := sums fact.domain e
      rw [if_pos rfl] at sum
      split at sum
      · omega
      · omega
  · rintro ⟨nothing,nodup⟩ d e
    rw [nothing,NestedIndex.count_eq_of_nodup nodup]
    by_cases same : fact.domain = d
    · simp [same]
    · simp [same]

theorem mirrored_listed_zero_iff (mirrored : trace.Mirrored rules cfg) :
    (∀ d e, trace.listed d e = 0) ↔ ∀ old, trace.fact = some old → old.entities = [] := by
  simp only [mirrored.listed]
  cases trace.fact with
  | none => simp
  | some old =>
    simp only [Option.any_some,Bool.and_eq_true,decide_eq_true_eq,List.contains_iff_mem,Option.some.injEq,forall_eq']
    constructor
    · intro nothing
      refine List.eq_nil_iff_forall_not_mem.mpr fun e member => ?_
      have none := nothing old.domain e
      rw [if_pos ⟨rfl,member⟩] at none
      cases none
    · intro empty d e
      simp [empty]

theorem linksOf_nil_iff (fact : Fact α) : (∀ type, fact.linksOf type = []) ↔ fact.links = [] := by
  constructor
  · intro nothing
    refine List.eq_nil_iff_forall_not_mem.mpr fun link member => ?_
    have none := nothing link.1
    simp only [Fact.linksOf,List.map_eq_nil_iff,List.filter_eq_nil_iff,decide_eq_true_eq] at none
    exact none link member rfl
  · intro empty type
    simp [Fact.linksOf,empty]

/-- The vector that is filed with a fact. -/
def vectorOf (rules : SemanticRules α ρ) (cfg : MemoryConfig) (fact : Fact α) : Option (List ρ) :=
  if cfg.enableVectorSearch then rules.embed cfg.embeddingDim fact.content else none

theorem store_embedding_iff (mirrored : trace.Mirrored rules cfg) (fact : Fact α) :
    ((vectorOf rules cfg fact).or trace.embedding).map some =
      (if cfg.enableVectorSearch then some (rules.embed cfg.embeddingDim fact.content) else none) ↔
    (cfg.enableVectorSearch = true → (rules.embed cfg.embeddingDim fact.content).isSome = true) := by
  have before := mirrored.embedding
  unfold vectorOf
  cases vectors : cfg.enableVectorSearch with
  | false =>
    rw [vectors] at before
    simpa using before
  | true =>
    cases embedded : rules.embed cfg.embeddingDim fact.content with
    | none => simp
    | some vector => simp

/-- Storing keeps the trace in order exactly if the key has left nothing behind, the entities are distinct and the
embedding can be made. -/
theorem store_mirrored_iff (mirrored : trace.Mirrored rules cfg) (fact : Fact α) :
    (trace.store fact (vectorOf rules cfg fact)).Mirrored rules cfg ↔
      (∀ old, trace.fact = some old → old.entities = [] ∧ old.links = []) ∧ fact.entities.Nodup ∧
        (cfg.enableVectorSearch = true → (rules.embed cfg.embeddingDim fact.content).isSome = true) := by
  have listed := (added_iff trace.listed fact).trans (and_congr_left' (mirrored_listed_zero_iff mirrored))
  have linked : (∀ type, trace.linked type ++ fact.linksOf type = fact.linksOf type) ↔
      ∀ old, trace.fact = some old → old.links = [] := by
    simp only [List.append_left_eq_self,mirrored.linked]
    cases trace.fact with
    | none => simp
    | some old => simpa using linksOf_nil_iff old
  rw [← store_embedding_iff mirrored]
  constructor
  · intro stored
    obtain ⟨empty,nodup⟩ := listed.mp (by simpa [store] using stored.listed)
    have unlinked := linked.mp (by simpa [store] using stored.linked)
    exact ⟨fun old found => ⟨empty old found,unlinked old found⟩,nodup,by simpa [store] using stored.embedding⟩
  · rintro ⟨clear,nodup,embedding⟩
    constructor
    · simpa [store] using listed.mpr ⟨fun old found => (clear old found).1,nodup⟩
    · simpa [store] using linked.mpr fun old found => (clear old found).2
    · simpa [store] using embedding

/-- If the fact is deleted again only the old entities can stay behind. -/
theorem store_delete_mirrored_iff (mirrored : trace.Mirrored rules cfg) {fact : Fact α} (vector : Option (List ρ))
    (covers : ∀ type, trace.linked type ≠ [] → type ∈ fact.linkTypes) :
    (trace.store fact vector).delete.Mirrored rules cfg ↔ ∀ old, trace.fact = some old → old.entities = [] := by
  rw [← mirrored_listed_zero_iff mirrored]
  constructor
  · intro deleted d e
    simpa [store,delete] using deleted.listed d e
  · intro nothing
    constructor
    · intro d e
      simp [store,delete,nothing]
    · intro type
      simp only [store,delete,Option.elim_none]
      split
      · rfl
      · next absent =>
        rw [linksOf_eq_nil absent,List.append_nil]
        exact not_not.mp fun some => absent (covers type some)
    · simp [store,delete]

/-- The key stands under the entities of its fact as often as they are listed, so that it can be removed. -/
def Enough (trace : FactTrace α ρ) : Prop :=
  ∀ fact, trace.fact = some fact → ∀ e, fact.entities.count e ≤ trace.listed fact.domain e

theorem enough_of_mirrored (mirrored : trace.Mirrored rules cfg) (distinct : trace.Distinct) : trace.Enough := by
  intro fact stored e
  rw [mirrored.listed,stored,NestedIndex.count_eq_of_nodup (distinct fact stored)]
  simp

theorem enough_store (fact : Fact α) (vector : Option (List ρ)) : (trace.store fact vector).Enough := by
  rintro other stored e
  cases stored
  simp [store]

theorem delete_fact (trace : FactTrace α ρ) : trace.delete.fact = none := by
  unfold delete
  cases stored : trace.fact with
  | none => exact stored
  | some fact => rfl

theorem enough_delete (trace : FactTrace α ρ) : trace.delete.Enough := by
  intro fact stored
  cases trace.delete_fact.symm.trans stored

theorem delete_of_none {trace : FactTrace α ρ} (nothing : trace.fact = none) : trace.delete = trace := by
  simp only [delete,nothing]

theorem delete_delete (trace : FactTrace α ρ) : trace.delete.delete = trace.delete := delete_of_none trace.delete_fact

end FactTrace

end IceOS
