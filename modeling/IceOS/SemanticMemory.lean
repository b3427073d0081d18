import IceOS.NestedIndex
import IceOS.WorkingMemory

/-! The semantic memory: facts by key, with indexes of their entities, relationships and embeddings that
every operation keeps up by itself. An operation that raises leaves what it has changed so far. -/
namespace IceOS

/-- An item of `relationships`; a dictionary may lack any field. -/
inductive Relationship where
  | dict (target type : Option String) (strength : Option Rat)
  | other
  deriving DecidableEq, Repr

/-- The metadata that come with a fact. -/
structure FactMetadata where
  type : Option String := none
  entities : Option (List String) := none
  domain : Option String := none
  confidence : Option Rat := none
  source : Option String := none
  relationships : Option (List Relationship) := none

structure Fact (α : Type) where
  content : α
  factType : String
  entities : List String
  domain : String
  confidence : Rat
  source : String
  relationships : List Relationship

def FactMetadata.complete (m : FactMetadata) (content : α) : Fact α where
  content := content
  factType := m.type.getD "general"
  entities := m.entities.getD []
  domain := m.domain.getD "general"
  confidence := m.confidence.getD 1
  source := m.source.getD "system"
  relationships := m.relationships.getD []

/-- What is indexed of a relationship: its type, and its target with the strength. -/
def Relationship.link : Relationship → Option (String × String × Rat)
  | .dict (some target) (some type) strength => some (type,target,strength.getD 1)
  | _ => none

def Relationship.type? : Relationship → Option String
  | .dict _ type _ => type
  | .other => none

namespace Fact

def links (fact : Fact α) : List (String × String × Rat) := fact.relationships.filterMap Relationship.link

def linkTypes (fact : Fact α) : List String := fact.relationships.filterMap Relationship.type?

/-- The links of one type. -/
def linksOf (fact : Fact α) (type : String) : List (String × Rat) :=
  (fact.links.filter fun link => link.1 = type).map Prod.snd

end Fact

/-- `sha384` hashes a content, or its JSON if it is no text, which may fail; `scale` brings a byte of the digest to
its share of a vector of length one. `listing` lists a set in some order. -/
structure SemanticRules (α ρ : Type) where
  sha384 : α → Option (List Nat)
  sha384_length : ∀ content bytes, sha384 content = some bytes → bytes.length = 48
  scale : List Nat → Nat → ρ
  mergedContent : List String → List α → Int → α
  listing : List String → List String
  listing_nodup : ∀ items, (listing items).Nodup
  mem_listing : ∀ items item, item ∈ listing items ↔ item ∈ items

namespace SemanticRules

variable {α ρ : Type}

/-- `_generate_embedding` -/
def generateEmbedding (rules : SemanticRules α ρ) (dim : Nat) (content : α) : Option (List ρ) :=
  (rules.sha384 content).map fun bytes => (bytes.take dim).map (rules.scale (bytes.take dim))

/-- An embedding of the dimension that is configured. -/
def embed (rules : SemanticRules α ρ) (dim : Nat) (content : α) : Option (List ρ) :=
  (rules.generateEmbedding dim content).filter fun vector => vector.length = dim

/-- The digest has 48 bytes. -/
theorem embed_isSome_iff (rules : SemanticRules α ρ) (dim : Nat) (content : α) :
    (rules.embed dim content).isSome = true ↔ (rules.sha384 content).isSome = true ∧ dim ≤ 48 := by
  unfold embed generateEmbedding
  cases hashed : rules.sha384 content with
  | none => simp
  | some bytes =>
    have size := rules.sha384_length content bytes hashed
    simp [size]

end SemanticRules

structure SemanticMemory (α ρ : Type) where
  facts : OrderedDict String (Fact α) := .empty
  embeddings : OrderedDict String (List ρ) := .empty
  relationships : NestedIndex String String (String × Rat) := .empty
  entityIndex : NestedIndex String String String := .empty

inductive SemanticRequest (α : Type) where
  | store (key : String) (content : α) (metadata : FactMetadata)
  | delete (key : String)
  | mergeFacts (keys : List String) (mergedKey : String) (now : Int)
  | clear (pattern : Option String)

namespace SemanticMemory

variable {α ρ : Type}

def getEntitiesByDomain (s : SemanticMemory α ρ) (domain : String) : List String :=
  (s.entityIndex.get? domain).elim [] OrderedDict.keys

def getFactsForEntityInDomain (s : SemanticMemory α ρ) (entity domain : String) : List String :=
  s.entityIndex.list domain entity

/-- The fact is put in place and indexed before the embedding is tried. -/
def index (key : String) (fact : Fact α) (s : SemanticMemory α ρ) : SemanticMemory α ρ where
  facts := s.facts.set key fact
  embeddings := s.embeddings
  relationships := fact.links.foldl (fun idx link => idx.append link.1 key link.2) s.relationships
  entityIndex := fact.entities.foldl (fun idx entity => idx.append fact.domain entity key) s.entityIndex

def store (rules : SemanticRules α ρ) (cfg : MemoryConfig) (key : String) (content : α) (metadata : FactMetadata)
    (s : SemanticMemory α ρ) : Except (SemanticMemory α ρ) (SemanticMemory α ρ) :=
  let s := s.index key (metadata.complete content)
  if !cfg.enableVectorSearch then .ok s
  else
    match rules.embed cfg.embeddingDim content with
    | none => .error s
    | some vector => .ok { s with embeddings := s.embeddings.set key vector }

def removeEntities (domain key : String) : List String → NestedIndex String String String →
    Except (NestedIndex String String String) (NestedIndex String String String)
  | [], idx => .ok idx
  | entity :: rest, idx =>
    match idx.remove? domain entity key with
    | none => .error idx
    | some idx => removeEntities domain key rest idx

def delete (key : String) (s : SemanticMemory α ρ) : Except (SemanticMemory α ρ) (Bool × SemanticMemory α ρ) :=
  match s.facts.get? key with
  | none => .ok (false,s)
  | some fact =>
    match removeEntities fact.domain key fact.entities s.entityIndex with
    | .error entityIndex => .error { s with entityIndex }
    | .ok entityIndex =>
      .ok (true,
        { facts := s.facts.erase key,embeddings := s.embeddings.erase key,entityIndex
          relationships := fact.linkTypes.foldl (fun idx type => idx.drop type key) s.relationships })

def deleteAll : List String → SemanticMemory α ρ → Except (SemanticMemory α ρ) (Nat × SemanticMemory α ρ)
  | [], s => .ok (0,s)
  | key :: rest, s => do
    let (deleted,s) ← s.delete key
    let (count,s) ← deleteAll rest s
    return (if deleted then count + 1 else count,s)

def clear (pattern : Option String) (s : SemanticMemory α ρ) : Except (SemanticMemory α ρ) (Nat × SemanticMemory α ρ) :=
  s.deleteAll (s.facts.keys.filter fun key => key.startsWith (pattern.getD ""))

/-- The metadata of the merged fact; a domain is not among them. -/
def mergedMetadata (rules : SemanticRules α ρ) (facts : List (Fact α)) : FactMetadata where
  type := "merged_fact"
  entities := rules.listing (facts.flatMap Fact.entities)
  relationships := facts.flatMap Fact.relationships
  source := "merge_operation"

def mergeFacts (rules : SemanticRules α ρ) (cfg : MemoryConfig) (keys : List String) (mergedKey : String) (now : Int)
    (s : SemanticMemory α ρ) : Except (SemanticMemory α ρ) (Bool × SemanticMemory α ρ) :=
  let factsToMerge := keys.filterMap s.facts.get?
  if factsToMerge.isEmpty then .ok (false,s)
  else do
    let content := rules.mergedContent keys (factsToMerge.map Fact.content) now
    let s ← s.store rules cfg mergedKey content (mergedMetadata rules factsToMerge)
    let (_,s) ← s.deleteAll keys
    return (true,s)

/-- Where an operation leaves the memory. -/
def left (ended : Except (SemanticMemory α ρ) (SemanticMemory α ρ)) : SemanticMemory α ρ :=
  match ended with
  | .error s | .ok s => s

def step (rules : SemanticRules α ρ) (cfg : MemoryConfig) (s : SemanticMemory α ρ) :
    SemanticRequest α → Option (SemanticMemory α ρ)
  | .store key content metadata => some (left (s.store rules cfg key content metadata))
  | .delete key => some (left ((s.delete key).map Prod.snd))
  | .mergeFacts keys mergedKey now => some (left ((s.mergeFacts rules cfg keys mergedKey now).map Prod.snd))
  | .clear pattern => some (left ((s.clear pattern).map Prod.snd))

end SemanticMemory

end IceOS
