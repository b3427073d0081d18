import IceOS.EpisodeSearches
import IceOS.SemanticIndexes

/-! The queries of the semantic memory for facts about an entity and for the graph of entities around it. The index of
the entities has the domains as its outer keys, and that of the relationships their types. -/
namespace IceOS

/-- The `str` of a content, and of the strength of a relationship. -/
structure KnowledgeTexts (α : Type) where
  str : α → String
  strength : Rat → String

/-- What is found under a key of the relationships: `[]` where there is none, else a dictionary. -/
inductive RelationshipsData where
  | list (items : List (String × Rat))
  | dict (inner : OrderedDict String (List (String × Rat)))

/-- The items of a list; nothing is read from a dictionary. -/
def RelationshipsData.read : RelationshipsData → List (String × Rat)
  | .list items => items
  | .dict _ => []

/-- A node has the key, the beginning of the content and the type of each of its facts. -/
structure KnowledgeNode where
  depth : Int
  facts : List (String × String × String)

structure KnowledgeEdge where
  source : String
  target : String
  type : String

structure KnowledgeGraph where
  nodes : OrderedDict String KnowledgeNode := .empty
  edges : List KnowledgeEdge := []

namespace SemanticMemory

open ActionRuns
open EpisodicMemory (sliceTo sliceTo_fits)

variable {α ρ : Type}

def relationshipsData (s : SemanticMemory α ρ) (key : String) : RelationshipsData :=
  match s.relationships.get? key with
  | none => .list []
  | some inner => .dict inner

/-- An empty type counts as none. -/
def given (relationshipType : Option String) : Option String := relationshipType.filter (· ≠ "")

def relatedFacts (s : SemanticMemory α ρ) (entity : String) (relationshipType : Option String) : List (String × Fact α) :=
  let factKeys := ((s.entityIndex.get? entity).elim [] OrderedDict.items).flatMap Prod.snd
  let entries := factKeys.filterMap fun key => (s.facts.get? key).map fun fact => (key,fact)
  entries.filter fun entry => (given relationshipType).all fun type =>
    (s.relationshipsData entry.1).read.any fun rel => rel.1 = type

def findRelated (entity : String) (relationshipType : Option String) (limit : Int) (s : SemanticMemory α ρ) :
    List (String × Fact α) :=
  sliceTo (s.relatedFacts entity relationshipType) limit

/-- The keys of the facts about an entity across all domains. -/
def factKeys (s : SemanticMemory α ρ) (entity : String) : List String :=
  s.entityIndex.items.flatMap fun domain => (domain.2.get? entity).getD []

/-- The facts about an entity that are looked at. -/
def factsShown (s : SemanticMemory α ρ) (entity : String) : List (String × Fact α) :=
  ((s.factKeys entity).take 5).filterMap fun key => (s.facts.get? key).map fun fact => (key,fact)

/-- The types and targets that are found for the facts about an entity. -/
def related (texts : KnowledgeTexts α) (s : SemanticMemory α ρ) (entity : String) : List (String × String) :=
  (s.factsShown entity).flatMap fun entry =>
    (s.relationshipsData entry.1).read.map fun rel => (rel.1,texts.strength rel.2)

theorem read_relationshipsData (s : SemanticMemory α ρ) (key : String) : (s.relationshipsData key).read = [] := by
  unfold relationshipsData
  cases s.relationships.get? key with
  | none => rfl
  | some inner => rfl

theorem related_eq_nil (texts : KnowledgeTexts α) (s : SemanticMemory α ρ) (entity : String) :
    s.related texts entity = [] := by
  simp [related,read_relationshipsData]

def node (texts : KnowledgeTexts α) (s : SemanticMemory α ρ) (entity : String) (depth : Int) : KnowledgeNode where
  depth := depth
  facts := (s.factsShown entity).map fun entry =>
    (entry.1,String.ofList ((texts.str entry.2.content).toList.take 100),entry.2.factType)

/-- The queue gets shorter, as nothing is ever found that would be added to it. -/
def explore (texts : KnowledgeTexts α) (maxDepth : Int) (s : SemanticMemory α ρ) :
    List (String × Int) → List String → KnowledgeGraph → KnowledgeGraph
  | [], _, graph => graph
  | (entity,depth) :: queue, visited, graph =>
    if entity ∈ visited ∨ maxDepth < depth then explore texts maxDepth s queue visited graph
    else
      let targets := if depth < maxDepth then (s.related texts entity).map fun rel => (rel.2,depth + 1) else []
      explore texts maxDepth s (queue ++ targets) (entity :: visited)
        { nodes := graph.nodes.set entity (s.node texts entity depth)
          edges := graph.edges ++ (s.related texts entity).map fun rel => ⟨entity,rel.2,rel.1⟩ }
termination_by queue => queue.length
decreasing_by
  · simp
  · simp [related_eq_nil]

def getKnowledgeGraph (texts : KnowledgeTexts α) (rootEntity : String) (maxDepth : Int) (s : SemanticMemory α ρ) :
    KnowledgeGraph :=
  s.explore texts maxDepth [(rootEntity,0)] [] {}

/-! ### What is expected of them -/

inductive KnowledgeQuery where
  | findRelated (entity : String) (relationshipType : Option String)
  | getKnowledgeGraph (rootEntity : String) (maxDepth : Int)

/-- A relationship of a fact about the one entity leads to the other. -/
def Leads (s : SemanticMemory α ρ) (source target : String) : Prop :=
  ∃ entry ∈ s.factsShown source, ∃ link ∈ entry.2.links, link.2.1 = target

/-- So many relationships lead from the one entity to the other. -/
inductive Path (s : SemanticMemory α ρ) (source : String) : Nat → String → Prop where
  | refl : Path s source 0 source
  | tail {n : Nat} {middle target : String} (path : Path s source n middle) (last : s.Leads middle target) :
    Path s source (n + 1) target

/-- The facts that list an entity are returned, those with a relationship of a given type; the nodes are the entities
within the depth. -/
def Answers (texts : KnowledgeTexts α) (s : SemanticMemory α ρ) : KnowledgeQuery → Prop
  | .findRelated entity relationshipType => ∃ enough : Nat, ∀ limit : Int, enough ≤ limit → ∀ key fact,
    (key,fact) ∈ s.findRelated entity relationshipType limit ↔
      s.facts.get? key = some fact ∧ entity ∈ fact.entities ∧
        ∀ type ∈ given relationshipType, ∃ link ∈ fact.links, link.1 = type
  | .getKnowledgeGraph rootEntity maxDepth => ∀ entity,
    entity ∈ (s.getKnowledgeGraph texts rootEntity maxDepth).nodes.keys ↔ ∃ n : Nat, n ≤ maxDepth ∧ s.Path rootEntity n entity

/-- Without a type, the keys of the stored facts stand under the entity as a domain exactly if the facts list it. With
a type, no such fact has a relationship of the type. No relationship leads away from a root, unless the depth is zero. -/
def Undisturbed (s : SemanticMemory α ρ) : KnowledgeQuery → Prop
  | .findRelated entity relationshipType =>
    match given relationshipType with
    | none => ∀ key fact, s.facts.get? key = some fact →
      ((∃ e, key ∈ s.getFactsForEntityInDomain e entity) ↔ entity ∈ fact.entities)
    | some type => ∀ key fact, s.facts.get? key = some fact → entity ∈ fact.entities → ∀ link ∈ fact.links, link.1 ≠ type
  | .getKnowledgeGraph rootEntity maxDepth => 0 < maxDepth → ∀ target, s.Leads rootEntity target → target = rootEntity

/-! ### Facts about an entity -/

theorem mem_outer_iff (s : SemanticMemory α ρ) (key entity : String) :
    key ∈ ((s.entityIndex.get? entity).elim [] OrderedDict.items).flatMap Prod.snd ↔
      ∃ e, key ∈ s.getFactsForEntityInDomain e entity := by
  simp only [getFactsForEntityInDomain,NestedIndex.list]
  cases s.entityIndex.get? entity with
  | none => simp
  | some inner =>
    simp only [Option.elim_some,List.mem_flatMap,Option.bind_some]
    constructor
    · rintro ⟨⟨e,keys⟩,member,listed⟩
      refine ⟨e,?_⟩
      rw [(OrderedDict.get?_eq_some inner e keys).mpr member]
      exact listed
    · rintro ⟨e,listed⟩
      cases found : inner.get? e with
      | none => simp [found] at listed
      | some keys =>
        rw [found] at listed
        exact ⟨(e,keys),(OrderedDict.get?_eq_some inner e keys).mp found,listed⟩

/-- The entity is looked up among the domains, and no fact passes as one with a relationship. -/
theorem mem_findRelated (s : SemanticMemory α ρ) (entity : String) (relationshipType : Option String) :
    ∃ enough : Nat, ∀ limit : Int, enough ≤ limit → ∀ key fact,
      (key,fact) ∈ s.findRelated entity relationshipType limit ↔
        given relationshipType = none ∧ s.facts.get? key = some fact ∧ ∃ e, key ∈ s.getFactsForEntityInDomain e entity := by
  refine ⟨(s.relatedFacts entity relationshipType).length,fun limit large key fact => ?_⟩
  rw [findRelated,sliceTo_fits (.inl large),if_pos large,relatedFacts,List.mem_filter,← mem_outer_iff,and_comm]
  refine and_congr ?_ ?_
  · cases given relationshipType with
    | none => simp
    | some type => simp [read_relationshipsData]
  · simp only [List.mem_filterMap,Option.map_eq_some_iff,Prod.mk.injEq]
    constructor
    · rintro ⟨k,listed,f,stored,rfl,rfl⟩
      exact ⟨stored,listed⟩
    · rintro ⟨stored,listed⟩
      exact ⟨key,listed,fact,stored,rfl,rfl⟩

theorem findRelated_answers_iff (texts : KnowledgeTexts α) (s : SemanticMemory α ρ) (entity : String)
    (relationshipType : Option String) : Answers texts s (.findRelated entity relationshipType) ↔
      Undisturbed s (.findRelated entity relationshipType) := by
  obtain ⟨enough,returned⟩ := mem_findRelated s entity relationshipType
  have answers : Answers texts s (.findRelated entity relationshipType) ↔ ∀ key fact,
      (given relationshipType = none ∧ s.facts.get? key = some fact ∧ ∃ e, key ∈ s.getFactsForEntityInDomain e entity) ↔
        s.facts.get? key = some fact ∧ entity ∈ fact.entities ∧
          ∀ type ∈ given relationshipType, ∃ link ∈ fact.links, link.1 = type := by
    constructor
    · rintro ⟨other,exact_⟩ key fact
      rw [← returned (max enough other) (by omega),exact_ (max enough other) (by omega)]
    · intro same
      refine ⟨enough,fun limit large key fact => ?_⟩
      rw [returned limit large,same]
  rw [answers]
  simp only [Undisturbed]
  cases given relationshipType with
  | none =>
    simp only [true_and,Option.not_mem_none,false_implies,implies_true,and_true]
    exact forall₂_congr fun key fact => and_congr_right_iff
  | some type =>
    simp only [reduceCtorEq,false_and,false_iff,Option.mem_some_iff,forall_eq',not_and,not_exists]

/-! ### The graph -/

theorem explore_root (texts : KnowledgeTexts α) (s : SemanticMemory α ρ) (rootEntity : String) (maxDepth : Int) (entity : String) :
    entity ∈ (s.getKnowledgeGraph texts rootEntity maxDepth).nodes.keys ↔ entity = rootEntity ∧ 0 ≤ maxDepth := by
  rw [getKnowledgeGraph,explore]
  by_cases deep : maxDepth < 0
  · rw [if_pos (.inr deep),explore]
    simp
    omega
  · rw [if_neg (by simpa using deep)]
    simp [related_eq_nil,explore]
    omega

theorem Path.eq_of_closed {s : SemanticMemory α ρ} {source : String}
    (closed : ∀ target, s.Leads source target → target = source) {n : Nat} {target : String} (path : s.Path source n target) :
    target = source := by
  induction path with
  | refl => rfl
  | tail _ last ih => exact closed _ (ih ▸ last)

theorem getKnowledgeGraph_answers_iff (texts : KnowledgeTexts α) (s : SemanticMemory α ρ) (rootEntity : String)
    (maxDepth : Int) : Answers texts s (.getKnowledgeGraph rootEntity maxDepth) ↔
      Undisturbed s (.getKnowledgeGraph rootEntity maxDepth) := by
  simp only [Answers,Undisturbed,explore_root]
  constructor
  · intro exact_ deep target leads
    exact ((exact_ target).mpr ⟨1,by omega,.tail .refl leads⟩).1
  · intro closed entity
    constructor
    · rintro ⟨rfl,deep⟩
      exact ⟨0,deep,.refl⟩
    · rintro ⟨n,within,path⟩
      refine ⟨?_,by omega⟩
      cases path with
      | refl => rfl
      | tail path last => exact Path.eq_of_closed (closed (by omega)) (.tail path last)

/-! ### Runs -/

inductive KnowledgeRequest (α : Type) where
  | change (request : SemanticRequest α)
  | ask (query : KnowledgeQuery)

/-- A query leaves the memory as it is. -/
def serve (rules : SemanticRules α ρ) (cfg : MemoryConfig) (s : SemanticMemory α ρ) :
    KnowledgeRequest α → Option (SemanticMemory α ρ)
  | .change request => s.step rules cfg request
  | .ask _ => some s

def Answered (texts : KnowledgeTexts α) (s : SemanticMemory α ρ) : KnowledgeRequest α → Prop
  | .change _ => True
  | .ask query => Answers texts s query

def Unhindered (s : SemanticMemory α ρ) : KnowledgeRequest α → Prop
  | .change _ => True
  | .ask query => Undisturbed s query

/-- All along a sequence of changes and queries the queries are answered exactly if each finds the memory undisturbed. -/
theorem queries_answered_iff (texts : KnowledgeTexts α) (rules : SemanticRules α ρ) (cfg : MemoryConfig)
    (requests : List (KnowledgeRequest α)) :
    Throughout (serve rules cfg) (Answered texts) requests {} ↔
      Throughout (serve rules cfg) Unhindered requests {} := by
  refine @throughout_congr _ _ _ _ _ (fun _ => True) (fun _ _ _ _ _ => trivial) (fun s request _ => ?_) requests _ trivial
  cases request with
  | change => exact Iff.rfl
  | ask query =>
    cases query with
    | findRelated entity relationshipType => exact findRelated_answers_iff texts s entity relationshipType
    | getKnowledgeGraph rootEntity maxDepth => exact getKnowledgeGraph_answers_iff texts s rootEntity maxDepth

/-- Where the indexes mirror the facts, the keys under a domain are those of its facts, so a query for an entity is
answered exactly if the facts that list it are those of the domain of that name which list any. -/
theorem mirrors_undisturbed_iff {rules : SemanticRules α ρ} {cfg : MemoryConfig} {s : SemanticMemory α ρ}
    (mirrors : Mirrors rules cfg s) (entity : String) : Undisturbed s (.findRelated entity none) ↔
      ∀ key fact, s.facts.get? key = some fact → (fact.domain = entity ∧ fact.entities ≠ [] ↔ entity ∈ fact.entities) := by
  refine forall₂_congr fun key fact => forall_congr' fun stored => iff_congr ?_ Iff.rfl
  have listed (e : String) : key ∈ s.getFactsForEntityInDomain e entity ↔ fact.domain = entity ∧ e ∈ fact.entities := by
    rw [← List.count_pos_iff,mirrors.entities,lists,stored]
    simp only [Option.any_some,Bool.and_eq_true,decide_eq_true_eq,List.contains_iff_mem]
    split
    · next both => exact iff_of_true Nat.one_pos both
    · next neither => exact iff_of_false (Nat.lt_irrefl 0) neither
  simp only [listed,exists_and_left]
  refine and_congr_right' ⟨?_,List.exists_mem_of_ne_nil _⟩
  rintro ⟨e,member⟩
  exact List.ne_nil_of_mem member

def plainTexts : KnowledgeTexts String where
  str := id
  strength _ := "1.0"

/-- The domain of a fact is not one of its entities. -/
theorem laptop_unrelated : ¬∀ requests : List (KnowledgeRequest String),
    Throughout (serve plainRules {}) (Answered plainTexts) requests {} := by
  intro answered
  have fine := answered [.change (.store "price" "1200" { entities := ["laptop"] }),.ask (.findRelated "laptop" none)]
  have undisturbed := (findRelated_answers_iff plainTexts _ "laptop" none).mp (fine.2 _ rfl).1
  obtain ⟨e,listed⟩ := (undisturbed "price" _ rfl).mpr (List.mem_singleton_self "laptop")
  cases listed

end SemanticMemory

end IceOS
