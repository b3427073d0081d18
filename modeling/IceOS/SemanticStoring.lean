import IceOS.ExceptRules
import IceOS.Metering
import IceOS.SemanticIndexes

/-! Storing a fact with metadata that may be of any form. The fact and the totals are written before anything is looked
at that can fail. -/
namespace IceOS

/-- Python values, which are equal here if `==` finds them equal. `iterate` is `none` if there is nothing to iterate
over, and so are `dict?` if it is no dictionary and `less?` if two values cannot be compared. -/
structure PythonValues (ν : Type) where
  null : ν
  str : String → ν
  num : Rat → ν
  emptyList : ν
  iterate : ν → Option (List ν)
  hashable : ν → Bool
  less? : ν → ν → Option Bool
  dict? : ν → Option (OrderedDict String ν)
  iterate_emptyList : iterate emptyList = some []
  hashable_str : ∀ text, hashable (str text) = true
  str_injective : Function.Injective str

/-- An entry of the semantic memory; the timestamp is in microseconds. -/
structure FactEntry (α ν : Type) where
  key : String
  content : α
  metadata : OrderedDict String ν
  timestamp : Int
  tokenUsage : Nat
  costUsd : Rat

structure SemanticStore (α ν ρ : Type) where
  facts : OrderedDict String (FactEntry α ν) := .empty
  embeddings : OrderedDict String (List ρ) := .empty
  relationships : NestedIndex ν String (ν × ν) := .empty
  entityIndex : NestedIndex ν ν String := .empty
  tokenTotal : Nat := 0
  costTotal : Rat := 0

namespace PythonValues

variable {ν : Type} (values : PythonValues ν)

/-- The metadata with the fields of a fact. -/
def factMetadata (metadata : OrderedDict String ν) : OrderedDict String ν :=
  metadata.update
    [("fact_type",(metadata.get? "type").getD (values.str "general")),
      ("entities",(metadata.get? "entities").getD values.emptyList),
      ("domain",(metadata.get? "domain").getD (values.str "general")),
      ("confidence",(metadata.get? "confidence").getD (values.num 1)),
      ("source",(metadata.get? "source").getD (values.str "system")),
      ("relationships",(metadata.get? "relationships").getD values.emptyList)]

def domain (metadata : OrderedDict String ν) : ν := (metadata.get? "domain").getD (values.str "general")

def entities (metadata : OrderedDict String ν) : Option (List ν) :=
  values.iterate ((metadata.get? "entities").getD values.emptyList)

/-- What is indexed of a relationship: its type, and its target with the strength. -/
def link (rel : ν) : Option (ν × ν × ν) := do
  let entries ← values.dict? rel
  let target ← entries.get? "target"
  let type ← entries.get? "type"
  return (type,target,(entries.get? "strength").getD (values.num 1))

def links (metadata : OrderedDict String ν) : Option (List (ν × ν × ν)) :=
  (values.iterate ((metadata.get? "relationships").getD values.emptyList)).map fun rels => rels.filterMap values.link

end PythonValues

namespace SemanticStore

open ExceptRules

variable {α ν ρ : Type} [DecidableEq ν]

/-- `text?` is what a content is if it is a text. -/
def newEntry (values : PythonValues ν) (text? : α → Option String) (now : Int) (key : String) (content : α)
    (metadata : OrderedDict String ν) : FactEntry α ν :=
  let tokenUsage := (text? content).elim 0 fun text => text.length / 4
  { key := key
    content := content
    metadata := values.factMetadata metadata
    timestamp := now
    tokenUsage := tokenUsage
    costUsd := Metering.calculateCost .openai "gpt-3.5-turbo" tokenUsage 0 }

def record (entry : FactEntry α ν) (s : SemanticStore α ν ρ) : SemanticStore α ν ρ :=
  { s with
    facts := s.facts.set entry.key entry
    tokenTotal := s.tokenTotal + entry.tokenUsage
    costTotal := s.costTotal + entry.costUsd }

/-- The dictionary of a domain is made before the entity is looked up in it. -/
def touchDomain (values : PythonValues ν) (domain : ν) (idx : NestedIndex ν ν String) : NestedIndex ν ν String :=
  if values.hashable domain then idx.setDefault domain .empty else idx

def indexEntities (values : PythonValues ν) (domain : ν) (key : String) :
    List ν → NestedIndex ν ν String → Except (NestedIndex ν ν String) (NestedIndex ν ν String) :=
  NestedIndex.appendAll (fun entity => !values.hashable domain || !values.hashable entity)
    (fun _ => touchDomain values domain) fun entity => (domain,entity,key)

def indexLinks (values : PythonValues ν) (key : String) : List (ν × ν × ν) → NestedIndex ν String (ν × ν) →
    Except (NestedIndex ν String (ν × ν)) (NestedIndex ν String (ν × ν)) :=
  NestedIndex.appendAll (fun link => !values.hashable link.1) (fun _ idx => idx) fun link => (link.1,key,link.2)

def addEntities (values : PythonValues ν) (entry : FactEntry α ν) (s : SemanticStore α ν ρ) :
    Except (SemanticStore α ν ρ) (SemanticStore α ν ρ) :=
  match values.entities entry.metadata with
  | none => .error s
  | some entities =>
    within (fun entityIndex => { s with entityIndex })
      (indexEntities values (values.domain entry.metadata) entry.key entities s.entityIndex)

def addLinks (values : PythonValues ν) (entry : FactEntry α ν) (s : SemanticStore α ν ρ) :
    Except (SemanticStore α ν ρ) (SemanticStore α ν ρ) :=
  match values.links entry.metadata with
  | none => .error s
  | some links =>
    within (fun relationships => { s with relationships }) (indexLinks values entry.key links s.relationships)

def addEmbedding (rules : SemanticRules α ρ) (cfg : MemoryConfig) (entry : FactEntry α ν) (s : SemanticStore α ν ρ) :
    Except (SemanticStore α ν ρ) (SemanticStore α ν ρ) :=
  if !cfg.enableVectorSearch then .ok s
  else
    match rules.embed cfg.embeddingDim entry.content with
    | none => .error s
    | some vector => .ok { s with embeddings := s.embeddings.set entry.key vector }

def store (values : PythonValues ν) (rules : SemanticRules α ρ) (text? : α → Option String) (cfg : MemoryConfig)
    (now : Int) (key : String) (content : α) (metadata : OrderedDict String ν) (s : SemanticStore α ν ρ) :
    Except (SemanticStore α ν ρ) (SemanticStore α ν ρ) := do
  let entry := newEntry values text? now key content metadata
  let s ← (s.record entry).addEntities values entry
  let s ← s.addLinks values entry
  s.addEmbedding rules cfg entry

/-! ### The steps -/

section

variable {values : PythonValues ν} {rules : SemanticRules α ρ} {cfg : MemoryConfig}

omit [DecidableEq ν] in
theorem factMetadata_domain (metadata : OrderedDict String ν) :
    values.domain (values.factMetadata metadata) = values.domain metadata := by
  simp [PythonValues.domain,PythonValues.factMetadata,OrderedDict.update]

omit [DecidableEq ν] in
theorem factMetadata_entities (metadata : OrderedDict String ν) :
    values.entities (values.factMetadata metadata) = values.entities metadata := by
  simp [PythonValues.entities,PythonValues.factMetadata,OrderedDict.update]

omit [DecidableEq ν] in
theorem factMetadata_links (metadata : OrderedDict String ν) :
    values.links (values.factMetadata metadata) = values.links metadata := by
  simp [PythonValues.links,PythonValues.factMetadata,OrderedDict.update]

theorem list_touchDomain (domain : ν) (idx : NestedIndex ν ν String) (d e : ν) :
    (touchDomain values domain idx).list d e = idx.list d e := by
  unfold touchDomain
  split
  · simp only [NestedIndex.list,OrderedDict.get?_setDefault]
    cases idx.get? d with
    | none =>
      split
      · rfl
      · rfl
    | some inner => rfl
  · rfl

theorem touchDomain_eq_self_iff (domain : ν) (idx : NestedIndex ν ν String) :
    touchDomain values domain idx = idx ↔ (values.hashable domain = true → domain ∈ idx.keys) := by
  unfold touchDomain
  split
  · next hashable =>
    rw [OrderedDict.mem_keys,OrderedDict.setDefault]
    simp only [hashable,true_implies]
    split
    · next present => exact iff_of_true rfl present
    · next absent =>
      refine iff_of_false (fun same => absent ?_) absent
      rw [← same,OrderedDict.get?_set_same]
      rfl
  · next unhashable => exact iff_of_true rfl fun hashable => absurd hashable unhashable

/-- Nothing that the store looks at fails. -/
structure Completes (values : PythonValues ν) (rules : SemanticRules α ρ) (cfg : MemoryConfig) (content : α)
    (metadata : OrderedDict String ν) : Prop where
  entities : ∃ entities, values.entities metadata = some entities ∧
    ∀ entity ∈ entities, values.hashable (values.domain metadata) = true ∧ values.hashable entity = true
  links : ∃ links, values.links metadata = some links ∧ ∀ link ∈ links, values.hashable link.1 = true
  embeds : SemanticMemory.Embeds rules cfg content

/-- The first entity fails, the first relationship if there are no entities, or the embedding if there are neither. No
dictionary is made for a domain. -/
def FailsFirst (values : PythonValues ν) (rules : SemanticRules α ρ) (cfg : MemoryConfig) (content : α)
    (metadata : OrderedDict String ν) (s : SemanticStore α ν ρ) : Prop :=
  match values.entities metadata with
  | none => True
  | some (entity :: _) =>
    values.hashable (values.domain metadata) = false ∨
      values.hashable entity = false ∧ values.domain metadata ∈ s.entityIndex.keys
  | some [] =>
    match values.links metadata with
    | none => True
    | some (link :: _) => values.hashable link.1 = false
    | some [] => ¬SemanticMemory.Embeds rules cfg content

/-- The entry is there already, and it has added nothing to the totals. -/
def Recorded (entry : FactEntry α ν) (s : SemanticStore α ν ρ) : Prop :=
  s.facts.get? entry.key = some entry ∧ entry.tokenUsage = 0

variable {entry : FactEntry α ν} {s t : SemanticStore α ν ρ}

/-- The facts and the totals are the same. -/
structure SameRecords (s t : SemanticStore α ν ρ) : Prop where
  facts : t.facts = s.facts
  tokens : t.tokenTotal = s.tokenTotal
  cost : t.costTotal = s.costTotal

omit [DecidableEq ν] in
theorem SameRecords.trans {u : SemanticStore α ν ρ} (first : SameRecords s t) (then_ : SameRecords t u) :
    SameRecords s u :=
  ⟨then_.facts.trans first.facts,then_.tokens.trans first.tokens,then_.cost.trans first.cost⟩

theorem addEntities_frame (ended : s.addEntities values entry = .ok t ∨ s.addEntities values entry = .error t) :
    t = { s with entityIndex := t.entityIndex } := by
  unfold addEntities at ended
  split at ended
  · simp only [reduceCtorEq,false_or,Except.error.injEq] at ended
    exact ended ▸ rfl
  · rw [within_eq_ok,within_eq_error] at ended
    rcases ended with ⟨idx,_,rfl⟩ | ⟨idx,_,rfl⟩ <;> rfl

theorem addLinks_frame (ended : s.addLinks values entry = .ok t ∨ s.addLinks values entry = .error t) :
    t = { s with relationships := t.relationships } := by
  unfold addLinks at ended
  split at ended
  · simp only [reduceCtorEq,false_or,Except.error.injEq] at ended
    exact ended ▸ rfl
  · rw [within_eq_ok,within_eq_error] at ended
    rcases ended with ⟨idx,_,rfl⟩ | ⟨idx,_,rfl⟩ <;> rfl

omit [DecidableEq ν] in
theorem addEmbedding_frame (ended : s.addEmbedding rules cfg entry = .ok t ∨ s.addEmbedding rules cfg entry = .error t) :
    t = { s with embeddings := t.embeddings } := by
  unfold addEmbedding at ended
  split at ended
  · simp only [reduceCtorEq,or_false,Except.ok.injEq] at ended
    exact ended ▸ rfl
  · split at ended
    · simp only [reduceCtorEq,false_or,Except.error.injEq] at ended
      exact ended ▸ rfl
    · simp only [reduceCtorEq,or_false,Except.ok.injEq] at ended
      exact ended ▸ rfl

theorem addEntities_records (ended : s.addEntities values entry = .ok t ∨ s.addEntities values entry = .error t) :
    SameRecords s t := by
  rw [addEntities_frame ended]
  exact ⟨rfl,rfl,rfl⟩

theorem addLinks_records (ended : s.addLinks values entry = .ok t ∨ s.addLinks values entry = .error t) :
    SameRecords s t := by
  rw [addLinks_frame ended]
  exact ⟨rfl,rfl,rfl⟩

omit [DecidableEq ν] in
theorem addEmbedding_records
    (ended : s.addEmbedding rules cfg entry = .ok t ∨ s.addEmbedding rules cfg entry = .error t) : SameRecords s t := by
  rw [addEmbedding_frame ended]
  exact ⟨rfl,rfl,rfl⟩

theorem indexEntities_isOk_iff (domain : ν) (key : String) (entities : List ν) (idx : NestedIndex ν ν String) :
    (∃ left, indexEntities values domain key entities idx = .ok left) ↔
      ∀ entity ∈ entities, values.hashable domain = true ∧ values.hashable entity = true := by
  rw [indexEntities,NestedIndex.appendAll_isOk_iff]
  simp only [Bool.or_eq_false_iff,Bool.not_eq_false']

theorem indexLinks_isOk_iff (key : String) (links : List (ν × ν × ν)) (idx : NestedIndex ν String (ν × ν)) :
    (∃ left, indexLinks values key links idx = .ok left) ↔ ∀ link ∈ links, values.hashable link.1 = true := by
  rw [indexLinks,NestedIndex.appendAll_isOk_iff]
  simp only [Bool.not_eq_false']

/-- A first entity that is refused leaves the index alone if no dictionary is made for the domain. -/
theorem indexEntities_error_self_iff (domain : ν) (key : String) (entity : ν) (rest : List ν)
    (idx : NestedIndex ν ν String) : indexEntities values domain key (entity :: rest) idx = .error idx ↔
      values.hashable domain = false ∨ values.hashable entity = false ∧ domain ∈ idx.keys := by
  rw [indexEntities,NestedIndex.appendAll_error_self_iff fun _ => list_touchDomain domain]
  simp only [List.cons.injEq,touchDomain_eq_self_iff]
  cases values.hashable domain with
  | false => simp
  | true => simp

theorem indexLinks_error_self_iff (key : String) (link : ν × ν × ν) (rest : List (ν × ν × ν))
    (idx : NestedIndex ν String (ν × ν)) :
    indexLinks values key (link :: rest) idx = .error idx ↔ values.hashable link.1 = false := by
  rw [indexLinks,NestedIndex.appendAll_error_self_iff fun _ _ _ _ => rfl]
  simp

/-- The index of the entities changes as soon as one is accepted. -/
theorem indexEntities_changes {domain : ν} {key : String} {entity : ν} {rest : List ν} {idx left : NestedIndex ν ν String}
    (ok : indexEntities values domain key (entity :: rest) idx = .ok left) : left ≠ idx := by
  obtain ⟨hashed,entity⟩ := (indexEntities_isOk_iff domain key _ idx).mp ⟨left,ok⟩ entity List.mem_cons_self
  exact NestedIndex.appendAll_changes (fun _ => list_touchDomain domain) (by simp [hashed,entity]) rest (.inl ok)

theorem indexLinks_changes {key : String} {link : ν × ν × ν} {rest : List (ν × ν × ν)}
    {idx left : NestedIndex ν String (ν × ν)} (ok : indexLinks values key (link :: rest) idx = .ok left) : left ≠ idx := by
  have hashed := (indexLinks_isOk_iff key _ idx).mp ⟨left,ok⟩ link List.mem_cons_self
  exact NestedIndex.appendAll_changes (fun _ _ _ _ => rfl) (by simp [hashed]) rest (.inl ok)

theorem addEntities_isOk_iff : (∃ t, s.addEntities values entry = .ok t) ↔
    ∃ entities, values.entities entry.metadata = some entities ∧
      ∀ entity ∈ entities, values.hashable (values.domain entry.metadata) = true ∧ values.hashable entity = true := by
  unfold addEntities
  cases values.entities entry.metadata with
  | none => simp
  | some entities =>
    simp only [within_eq_ok,Option.some.injEq,exists_eq_left',← indexEntities_isOk_iff _ entry.key entities s.entityIndex]
    exact ⟨fun ⟨_,idx,ok,_⟩ => ⟨idx,ok⟩,fun ⟨idx,ok⟩ => ⟨_,idx,ok,rfl⟩⟩

theorem addLinks_isOk_iff : (∃ t, s.addLinks values entry = .ok t) ↔
    ∃ links, values.links entry.metadata = some links ∧ ∀ link ∈ links, values.hashable link.1 = true := by
  unfold addLinks
  cases values.links entry.metadata with
  | none => simp
  | some links =>
    simp only [within_eq_ok,Option.some.injEq,exists_eq_left',← indexLinks_isOk_iff entry.key links s.relationships]
    exact ⟨fun ⟨_,idx,ok,_⟩ => ⟨idx,ok⟩,fun ⟨idx,ok⟩ => ⟨_,idx,ok,rfl⟩⟩

omit [DecidableEq ν] in
theorem addEmbedding_isOk_iff :
    (∃ t, s.addEmbedding rules cfg entry = .ok t) ↔ SemanticMemory.Embeds rules cfg entry.content := by
  rw [← SemanticMemory.embeds_iff]
  unfold addEmbedding
  cases cfg.enableVectorSearch with
  | false => simp
  | true =>
    cases rules.embed cfg.embeddingDim entry.content with
    | none => simp
    | some vector => simp

/-! ### What is left behind -/

omit [DecidableEq ν] in
theorem addEmbedding_error_iff : s.addEmbedding rules cfg entry = .error t ↔
    t = s ∧ ¬SemanticMemory.Embeds rules cfg entry.content := by
  rw [← SemanticMemory.embeds_iff]
  unfold addEmbedding
  cases cfg.enableVectorSearch with
  | false => simp
  | true =>
    cases rules.embed cfg.embeddingDim entry.content with
    | none => simp [eq_comm]
    | some vector => simp

theorem addLinks_error_self_iff :
    (s.addLinks values entry >>= fun s => s.addEmbedding rules cfg entry) = .error s ↔
      match values.links entry.metadata with
      | none => True
      | some (link :: _) => values.hashable link.1 = false
      | some [] => ¬SemanticMemory.Embeds rules cfg entry.content := by
  cases found : values.links entry.metadata with
  | none => simp [addLinks,found,bind,Except.bind]
  | some links =>
    cases links with
    | nil =>
      have same : s.addLinks values entry = .ok s := by
        simp only [addLinks,found]
        rfl
      simp only [same,bind,Except.bind,addEmbedding_error_iff,true_and]
    | cons link rest =>
      dsimp only
      rw [← indexLinks_error_self_iff entry.key link rest s.relationships,bind_eq_error]
      simp only [addLinks,found,within_eq_error,within_eq_ok]
      constructor
      · rintro (⟨idx,error,same⟩ | ⟨t,⟨idx,ok,rfl⟩,error⟩)
        · rw [error,← same]
        · have kept := addEmbedding_frame (.inr error)
          exact absurd (congrArg relationships kept).symm (indexLinks_changes ok)
      · intro error
        exact .inl ⟨_,error,rfl⟩

/-- Nothing at all changes exactly if the first thing to be indexed fails. -/
theorem addEntities_error_self_iff :
    (s.addEntities values entry >>= fun s => s.addLinks values entry >>= fun s => s.addEmbedding rules cfg entry) =
        .error s ↔
      match values.entities entry.metadata with
      | none => True
      | some (entity :: _) =>
        values.hashable (values.domain entry.metadata) = false ∨
          values.hashable entity = false ∧ values.domain entry.metadata ∈ s.entityIndex.keys
      | some [] =>
        match values.links entry.metadata with
        | none => True
        | some (link :: _) => values.hashable link.1 = false
        | some [] => ¬SemanticMemory.Embeds rules cfg entry.content := by
  cases found : values.entities entry.metadata with
  | none => simp [addEntities,found,bind,Except.bind]
  | some entities =>
    cases entities with
    | nil =>
      have same : s.addEntities values entry = .ok s := by
        simp only [addEntities,found]
        rfl
      rw [same]
      exact addLinks_error_self_iff
    | cons entity rest =>
      dsimp only
      rw [← indexEntities_error_self_iff _ entry.key entity rest s.entityIndex,bind_eq_error]
      simp only [addEntities,found,within_eq_error,within_eq_ok]
      constructor
      · rintro (⟨idx,error,same⟩ | ⟨t,⟨idx,ok,rfl⟩,error⟩)
        · rw [error,← same]
        · have kept : s.entityIndex = idx := by
            rcases bind_eq_error.mp error with linked | ⟨u,linked,embedded⟩
            · exact congrArg entityIndex (addLinks_frame (.inr linked))
            · have kept := congrArg entityIndex (addEmbedding_frame (.inr embedded))
              exact kept.trans (congrArg entityIndex (addLinks_frame (.inl linked)))
          exact absurd kept.symm (indexEntities_changes ok)
      · intro error
        exact .inl ⟨_,error,rfl⟩

end

section

variable {values : PythonValues ν} {rules : SemanticRules α ρ} {text? : α → Option String} {cfg : MemoryConfig} {now : Int}
  {key : String} {content : α} {metadata : OrderedDict String ν} {s t : SemanticStore α ν ρ}

omit [DecidableEq ν] in
/-- An entry without tokens costs nothing. -/
theorem record_eq_self (recorded : Recorded (newEntry values text? now key content metadata) s) :
    s.record (newEntry values text? now key content metadata) = s := by
  have free : (newEntry values text? now key content metadata).costUsd = 0 := by
    have tokens := recorded.2
    simp only [newEntry] at tokens ⊢
    simp [Metering.calculateCost,tokens]
  rw [record,OrderedDict.set_eq_self recorded.1,recorded.2,free,Nat.add_zero,add_zero]

theorem store_isOk_iff : (∃ t, s.store values rules text? cfg now key content metadata = .ok t) ↔
    Completes values rules cfg content metadata := by
  let entry := newEntry values text? now key content metadata
  have entities (r : SemanticStore α ν ρ) : (∃ t, r.addEntities values entry = .ok t) ↔ _ := addEntities_isOk_iff
  have links (r : SemanticStore α ν ρ) : (∃ t, r.addLinks values entry = .ok t) ↔ _ := addLinks_isOk_iff
  have embedding (r : SemanticStore α ν ρ) : (∃ t, r.addEmbedding rules cfg entry = .ok t) ↔ _ := addEmbedding_isOk_iff
  simp only [entry,newEntry,factMetadata_domain,factMetadata_entities,factMetadata_links] at entities links embedding
  constructor
  · rintro ⟨t,ok⟩
    obtain ⟨r,indexed,ok⟩ := bind_eq_ok.mp ok
    obtain ⟨u,linked,embedded⟩ := bind_eq_ok.mp ok
    exact ⟨(entities _).mp ⟨r,indexed⟩,(links r).mp ⟨u,linked⟩,(embedding u).mp ⟨t,embedded⟩⟩
  · intro completes
    obtain ⟨r,indexed⟩ := (entities (s.record (newEntry values text? now key content metadata))).mpr completes.entities
    obtain ⟨u,linked⟩ := (links r).mpr completes.links
    obtain ⟨t,embedded⟩ := (embedding u).mpr completes.embeds
    exact ⟨t,bind_eq_ok.mpr ⟨r,indexed,bind_eq_ok.mpr ⟨u,linked,embedded⟩⟩⟩

/-- The fact and the totals are written in any case. -/
theorem store_frame (error : s.store values rules text? cfg now key content metadata = .error t) :
    SameRecords (s.record (newEntry values text? now key content metadata)) t := by
  rcases bind_eq_error.mp error with indexed | ⟨r,indexed,error⟩
  · exact addEntities_records (.inr indexed)
  · refine (addEntities_records (.inl indexed)).trans ?_
    rcases bind_eq_error.mp error with linked | ⟨u,linked,embedded⟩
    · exact addLinks_records (.inr linked)
    · exact (addLinks_records (.inl linked)).trans (addEmbedding_records (.inr embedded))

theorem store_error_self_iff : s.store values rules text? cfg now key content metadata = .error s ↔
    Recorded (newEntry values text? now key content metadata) s ∧ FailsFirst values rules cfg content metadata s := by
  have first : FailsFirst values rules cfg content metadata s ↔
      ((s.addEntities values (newEntry values text? now key content metadata) >>= fun s =>
        s.addLinks values (newEntry values text? now key content metadata) >>= fun s =>
          s.addEmbedding rules cfg (newEntry values text? now key content metadata)) = .error s) := by
    rw [addEntities_error_self_iff]
    simp only [newEntry,factMetadata_domain,factMetadata_entities,factMetadata_links,FailsFirst]
  have same (recorded : Recorded (newEntry values text? now key content metadata) s) :
      s.record (newEntry values text? now key content metadata) = s := record_eq_self recorded
  rw [first]
  constructor
  · intro error
    have records := store_frame error
    have recorded : Recorded (newEntry values text? now key content metadata) s := by
      constructor
      · rw [records.facts,record,OrderedDict.get?_set_same]
      · have tokens := records.tokens
        simp only [record] at tokens
        omega
    refine ⟨recorded,?_⟩
    simp only [store,same recorded] at error
    exact error
  · rintro ⟨recorded,failed⟩
    simp only [store,same recorded]
    exact failed

/-- Storing is all or nothing exactly if nothing fails, or if the entry is there already and the first thing fails that
would change an index. -/
theorem store_atomic_iff (values : PythonValues ν) (rules : SemanticRules α ρ) (text? : α → Option String)
    (cfg : MemoryConfig) (now : Int) (key : String) (content : α) (metadata : OrderedDict String ν)
    (s : SemanticStore α ν ρ) :
    (∀ t, s.store values rules text? cfg now key content metadata = .error t → t = s) ↔
      Completes values rules cfg content metadata ∨
        Recorded (newEntry values text? now key content metadata) s ∧ FailsFirst values rules cfg content metadata s := by
  rw [← store_isOk_iff,← store_error_self_iff]
  cases ended : s.store values rules text? cfg now key content metadata with
  | ok t => simp
  | error t => simp

end

/-! ### Well-formed metadata -/

/-- A link of a fact as values. -/
def linkValues (values : PythonValues ν) (link : String × String × Rat) : ν × ν × ν :=
  (values.str link.1,values.str link.2.1,values.num link.2.2)

/-- The values are those of metadata in which every field has its type. -/
structure Encodes (values : PythonValues ν) (raw : OrderedDict String ν) (metadata : FactMetadata) : Prop where
  type : raw.get? "type" = metadata.type.map values.str
  entities : (raw.get? "entities").map values.iterate =
    metadata.entities.map fun entities => some (entities.map values.str)
  domain : raw.get? "domain" = metadata.domain.map values.str
  confidence : raw.get? "confidence" = metadata.confidence.map values.num
  source : raw.get? "source" = metadata.source.map values.str
  relationships : ((raw.get? "relationships").map fun rels => (values.iterate rels).map (·.filterMap values.link)) =
    metadata.relationships.map fun rels => some ((rels.filterMap Relationship.link).map (linkValues values))

structure ShowsFact (values : PythonValues ν) (entry : FactEntry α ν) (fact : Fact α) : Prop where
  content : entry.content = fact.content
  factType : entry.metadata.get? "fact_type" = some (values.str fact.factType)
  entities : values.entities entry.metadata = some (fact.entities.map values.str)
  domain : values.domain entry.metadata = values.str fact.domain
  confidence : entry.metadata.get? "confidence" = some (values.num fact.confidence)
  source : entry.metadata.get? "source" = some (values.str fact.source)
  links : values.links entry.metadata = some (fact.links.map (linkValues values))

structure Shows (values : PythonValues ν) (s : SemanticStore α ν ρ) (t : SemanticMemory α ρ) : Prop where
  facts : ∀ key, Option.Rel (ShowsFact values) (s.facts.get? key) (t.facts.get? key)
  embeddings : s.embeddings = t.embeddings
  entityIndex : ∀ domain entity,
    s.entityIndex.list (values.str domain) (values.str entity) = t.entityIndex.list domain entity
  relationships : ∀ type key, s.relationships.list (values.str type) key =
    (t.relationships.list type key).map fun link => (values.str link.1,values.num link.2)

omit [DecidableEq ν] in
theorem newEntry_shows {values : PythonValues ν} {raw : OrderedDict String ν} {metadata : FactMetadata}
    (encodes : Encodes values raw metadata) (text? : α → Option String) (now : Int) (key : String) (content : α) :
    ShowsFact values (newEntry values text? now key content raw) (metadata.complete content) := by
  obtain ⟨type,entities,domain,confidence,source,relationships⟩ := encodes
  constructor
  · rfl
  · simp [newEntry,PythonValues.factMetadata,OrderedDict.update,type,FactMetadata.complete]
  · refine (factMetadata_entities raw).trans ?_
    rw [PythonValues.entities]
    cases given : metadata.entities with
    | none =>
      rw [given,Option.map_none,Option.map_eq_none_iff] at entities
      simp [entities,FactMetadata.complete,given,values.iterate_emptyList]
    | some listed =>
      rw [given] at entities
      obtain ⟨value,found,iterated⟩ := Option.map_eq_some_iff.mp entities
      simp [found,iterated,FactMetadata.complete,given]
  · refine (factMetadata_domain raw).trans ?_
    rw [PythonValues.domain,domain,Option.getD_map]
    rfl
  · simp [newEntry,PythonValues.factMetadata,OrderedDict.update,confidence,FactMetadata.complete]
  · simp [newEntry,PythonValues.factMetadata,OrderedDict.update,source,FactMetadata.complete]
  · refine (factMetadata_links raw).trans ?_
    rw [PythonValues.links]
    cases given : metadata.relationships with
    | none =>
      rw [given,Option.map_none,Option.map_eq_none_iff] at relationships
      simp [relationships,FactMetadata.complete,given,values.iterate_emptyList,Fact.links]
    | some listed =>
      rw [given] at relationships
      obtain ⟨value,found,iterated⟩ := Option.map_eq_some_iff.mp relationships
      simp [found,iterated,FactMetadata.complete,given,Fact.links]

section

variable {values : PythonValues ν} {entry : FactEntry α ν} {fact : Fact α}

theorem addEntities_shows (shows : ShowsFact values entry fact) (s : SemanticStore α ν ρ) : s.addEntities values entry =
    .ok { s with
      entityIndex := fact.entities.foldl
        (fun idx entity => idx.append (values.str fact.domain) (values.str entity) entry.key) s.entityIndex } := by
  simp only [addEntities,shows.entities,shows.domain,indexEntities]
  rw [NestedIndex.appendAll_accepted (fun entity member => ?_),List.foldl_map]
  · rfl
  · obtain ⟨text,_,rfl⟩ := List.mem_map.mp member
    simp [values.hashable_str]

theorem addLinks_shows (shows : ShowsFact values entry fact) (s : SemanticStore α ν ρ) : s.addLinks values entry =
    .ok { s with
      relationships := fact.links.foldl
        (fun idx link => idx.append (values.str link.1) entry.key (linkValues values link).2) s.relationships } := by
  simp only [addLinks,shows.links,indexLinks]
  rw [NestedIndex.appendAll_accepted (fun link member => ?_),List.foldl_map]
  · rfl
  · obtain ⟨link,_,rfl⟩ := List.mem_map.mp member
    simp [linkValues,values.hashable_str]

/-- Both ended in the same way, in states that show the same. -/
def EndAlike (values : PythonValues ν) (ended : Except (SemanticStore α ν ρ) (SemanticStore α ν ρ))
    (ended' : Except (SemanticMemory α ρ) (SemanticMemory α ρ)) : Prop :=
  (∃ s t, ended = .ok s ∧ ended' = .ok t ∧ Shows values s t) ∨ ∃ s t, ended = .error s ∧ ended' = .error t ∧ Shows values s t

/-- With such metadata a fact is stored as the memory of typed facts stores it. -/
theorem store_shows {rules : SemanticRules α ρ} {cfg : MemoryConfig} {raw : OrderedDict String ν} {metadata : FactMetadata}
    (encodes : Encodes values raw metadata) {s : SemanticStore α ν ρ} {t : SemanticMemory α ρ} (shows : Shows values s t)
    (text? : α → Option String) (now : Int) (key : String) (content : α) :
    EndAlike values (s.store values rules text? cfg now key content raw) (t.store rules cfg key content metadata) := by
  have fact := newEntry_shows encodes text? now key content
  have indexed : Shows values
      { (s.record (newEntry values text? now key content raw)) with
        entityIndex := (metadata.complete content).entities.foldl (fun idx entity =>
          idx.append (values.str (metadata.complete content).domain) (values.str entity) key) s.entityIndex
        relationships := (metadata.complete content).links.foldl (fun idx link =>
          idx.append (values.str link.1) key (linkValues values link).2) s.relationships }
      (t.index key (metadata.complete content)) := by
    constructor
    · intro k
      have named : (newEntry values text? now key content raw).key = key := rfl
      simp only [record,SemanticMemory.index,OrderedDict.get?_set,named]
      by_cases same : key = k
      · rw [if_pos same,if_pos same]
        exact .some fact
      · rw [if_neg same,if_neg same]
        exact shows.facts k
    · exact shows.embeddings
    · intro domain entity
      have same := NestedIndex.list_foldl_append_map (h := id) values.str_injective values.str_injective
        (fun entity => ((metadata.complete content).domain,entity,key)) (metadata.complete content).entities
        (fun a b => (shows.entityIndex a b).trans (List.map_id _).symm) domain entity
      exact same.trans (List.map_id _)
    · intro type k
      exact NestedIndex.list_foldl_append_map values.str_injective Function.injective_id
        (fun link => (link.1,key,link.2)) (metadata.complete content).links shows.relationships type k
  simp only [store,addEntities_shows fact,addLinks_shows fact,SemanticMemory.store,bind,Except.bind,addEmbedding]
  cases cfg.enableVectorSearch with
  | false => exact .inl ⟨_,_,rfl,rfl,indexed⟩
  | true =>
    dsimp only [Bool.not_true,Bool.false_eq_true,if_false,newEntry]
    cases rules.embed cfg.embeddingDim content with
    | none => exact .inr ⟨_,_,rfl,rfl,indexed⟩
    | some vector =>
      refine .inl ⟨_,_,rfl,rfl,indexed.facts,?_,indexed.entityIndex,indexed.relationships⟩
      exact congrArg (·.set key vector) shows.embeddings

end

/-! ### A fact that is left behind -/

/-- `None`, texts, numbers and the empty list. -/
inductive Plain where
  | null
  | str (text : String)
  | num (x : Rat)
  | emptyList
  deriving DecidableEq

def plainValues : PythonValues Plain where
  null := .null
  str := .str
  num := .num
  emptyList := .emptyList
  iterate
    | .str text => some (text.toList.map fun c => .str (String.ofList [c]))
    | .null | .num _ => none
    | .emptyList => some []
  hashable
    | .null | .str _ | .num _ => true
    | .emptyList => false
  less?
    | .num x, .num y => some (x < y)
    | .str a, .str b => some (a < b)
    | _, _ => none
  dict? _ := none
  iterate_emptyList := rfl
  hashable_str _ := rfl
  str_injective a b same := by
    cases same
    rfl

/-- The digest is too short for an embedding of the default dimension. -/
theorem wideEmbedding_left : ¬∀ (cfg : MemoryConfig) (content : String) (metadata : OrderedDict String Plain)
    (now : Int) (key : String) (s t : SemanticStore String Plain Nat),
    s.store plainValues SemanticMemory.plainRules some cfg now key content metadata = .error t → t = s := by
  intro atomic
  have same := atomic { enableVectorSearch := true } "1200" .empty 0 "price" {} _ rfl
  cases congrArg (fun s => s.tokenTotal) same

end SemanticStore

end IceOS
