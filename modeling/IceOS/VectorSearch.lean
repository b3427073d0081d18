import IceOS.EpisodeSearches
import IceOS.NearestRows
import IceOS.SemanticStoring
import Mathlib.Algebra.Order.Group.Unbundled.Basic

/-! Searching the semantic memory: of twice as many entries as are asked for, which are the most similar to the query, the
newest are returned. Similarities are rational numbers here. -/
namespace IceOS

open NearestRows

namespace PythonValues

variable {ν : Type} [DecidableEq ν] (values : PythonValues ν)

/-- `set(value)` -/
def toSet (value : ν) : Option (List ν) := do
  let items ← values.iterate value
  if items.all values.hashable then some items else none

def matchFilters (filters metadata : OrderedDict String ν) : Option Bool := do
  if filters.items.isEmpty then return true
  if (filters.get? "type").any (· ≠ (metadata.get? "fact_type").getD values.null) then return false
  if (filters.get? "domain").any (· ≠ (metadata.get? "domain").getD values.null) then return false
  if let some wanted := filters.get? "entities" then
    let entryEntities ← values.toSet ((metadata.get? "entities").getD values.emptyList)
    let filterEntities ← values.toSet wanted
    if filterEntities.all (· ∉ entryEntities) then return false
  if let some least := filters.get? "min_confidence" then
    if ← values.less? ((metadata.get? "confidence").getD (values.num 0)) least then return false
  return true

end PythonValues

namespace SemanticStore

open EpisodicMemory (sliceTo sliceTo_fits)

variable {α ν : Type} [DecidableEq ν]

/-- The dot product, as far as both vectors go. -/
def similarity (queryEmbedding embedding : List Rat) : Rat := (queryEmbedding.zipWith (· * ·) embedding).sum

/-- The entries with an embedding that match the filters, with their similarities; `none` if that cannot be told. -/
def scored (values : PythonValues ν) (queryEmbedding : List Rat) (filters : OrderedDict String ν)
    (s : SemanticStore α ν Rat) : List (String × List Rat) → Option (List (Rat × FactEntry α ν))
  | [] => some []
  | (key,embedding) :: rest =>
    match s.facts.get? key with
    | none => scored values queryEmbedding filters s rest
    | some entry => do
      let passes ← values.matchFilters filters entry.metadata
      let others ← scored values queryEmbedding filters s rest
      return if passes then (similarity queryEmbedding embedding,entry) :: others else others

def bySimilarity (rows : List (Rat × FactEntry α ν)) : List (Rat × FactEntry α ν) :=
  rows.insertionSort fun a b => b.1 ≤ a.1

def vectorSearch (values : PythonValues ν) (queryEmbedding : List Rat) (limit : Int) (filters : OrderedDict String ν)
    (s : SemanticStore α ν Rat) : Option (List (FactEntry α ν)) := do
  let similarities ← s.scored values queryEmbedding filters s.embeddings.items
  return (sliceTo (bySimilarity similarities) limit).map Prod.snd

/-- The entries that match the filters and in whose text the query occurs. -/
def textSearch (values : PythonValues ν) (texts : TextRules α) (query : String) (filters : OrderedDict String ν) :
    List (FactEntry α ν) → Option (List (FactEntry α ν))
  | [] => some []
  | entry :: rest => do
    let passes ← values.matchFilters filters entry.metadata
    let others ← textSearch values texts query filters rest
    return if passes && PythonText.contains (texts.lower query) (texts.lower (texts.str entry.content)) then entry :: others
      else others

def newestFirst (entries : List (FactEntry α ν)) : List (FactEntry α ν) :=
  entries.insertionSort fun a b => b.timestamp ≤ a.timestamp

/-- `text` makes a content of the query. -/
def search (values : PythonValues ν) (rules : SemanticRules α Rat) (texts : TextRules α) (text : String → α)
    (cfg : MemoryConfig) (query : String) (limit : Int) (filters : OrderedDict String ν) (s : SemanticStore α ν Rat) :
    Option (List (FactEntry α ν)) := do
  let results ←
    if cfg.enableVectorSearch ∧ query ≠ "" then do
      let queryEmbedding ← rules.generateEmbedding cfg.embeddingDim (text query)
      s.vectorSearch values queryEmbedding (limit * 2) filters
    else textSearch values texts query filters (s.facts.items.map Prod.snd)
  return sliceTo (newestFirst results) limit

/-! ### What is returned -/

section

variable {values : PythonValues ν} {rules : SemanticRules α Rat} {texts : TextRules α} {text : String → α} {cfg : MemoryConfig}
  {query : String} {filters : OrderedDict String ν} {s : SemanticStore α ν Rat} {queryEmbedding : List Rat}

/-- The rows are the entries of the embeddings that match, with their similarities. -/
theorem mem_scored {items : List (String × List Rat)} {rows : List (Rat × FactEntry α ν)}
    (found : s.scored values queryEmbedding filters items = some rows) (row : Rat × FactEntry α ν) :
    row ∈ rows ↔ ∃ item ∈ items, s.facts.get? item.1 = some row.2 ∧ values.matchFilters filters row.2.metadata = some true ∧
      row.1 = similarity queryEmbedding item.2 := by
  induction items generalizing rows with
  | nil =>
    cases found
    simp
  | cons item rest ih =>
    rw [scored] at found
    cases stored : s.facts.get? item.1 with
    | none =>
      rw [stored] at found
      rw [ih found,List.exists_mem_cons_iff,stored]
      simp
    | some entry =>
      rw [stored] at found
      obtain ⟨passes,matched,found⟩ := Option.bind_eq_some_iff.mp found
      obtain ⟨others,later,found⟩ := Option.bind_eq_some_iff.mp found
      cases found
      rw [List.exists_mem_cons_iff,← ih later,stored]
      cases passes with
      | true =>
        simp only [if_true,List.mem_cons]
        refine or_congr_left ⟨?_,?_⟩
        · rintro rfl
          exact ⟨rfl,matched,rfl⟩
        · rintro ⟨same,_,similar⟩
          exact Prod.ext similar (Option.some.inj same).symm
      | false =>
        simp only [Bool.false_eq_true,if_false]
        refine (or_iff_right ?_).symm
        rintro ⟨same,passes,_⟩
        cases same
        cases matched.symm.trans passes

theorem sliceTo_natCast {τ : Type} (items : List τ) (n : Nat) : sliceTo items (n : Int) = items.take n := by
  simp [sliceTo]

omit [DecidableEq ν] in
theorem bySimilarity_closest (k : Nat) (rows : List (Rat × FactEntry α ν)) :
    Closest (fun row => -row.1) k rows (sliceTo (bySimilarity rows) (k : Int)) := by
  have order : bySimilarity rows = rows.insertionSort fun a b => -a.1 ≤ -b.1 := by
    simp only [bySimilarity,neg_le_neg_iff]
  rw [sliceTo_natCast,order]
  exact (insertionSort_nearest (fun row : Rat × FactEntry α ν => -row.1) k rows).closest

omit [DecidableEq ν] in
/-- Sorting by the timestamp what has been found keeps the entries with their similarities together. -/
theorem newestFirst_nearest (k : Nat) (rows : List (Rat × FactEntry α ν)) :
    Nearest (fun entry : FactEntry α ν => -entry.timestamp) k (rows.map Prod.snd)
      (sliceTo (newestFirst (rows.map Prod.snd)) (k : Int)) := by
  have order (entries : List (FactEntry α ν)) :
      newestFirst entries = entries.insertionSort fun a b => -a.timestamp ≤ -b.timestamp := by
    simp only [newestFirst,neg_le_neg_iff]
  rw [sliceTo_natCast,order]
  exact insertionSort_nearest (fun entry : FactEntry α ν => -entry.timestamp) k (rows.map Prod.snd)

/-- The entries are as many of the matching ones as are asked for, or all: the newest of twice as many, which are the most
similar. -/
theorem search_closest (enabled : cfg.enableVectorSearch = true) (asked : query ≠ "") (k : Nat)
    {results : List (FactEntry α ν)} (found : s.search values rules texts text cfg query k filters = some results) :
    ∃ queryEmbedding rows candidates chosen, rules.generateEmbedding cfg.embeddingDim (text query) = some queryEmbedding ∧
      s.scored values queryEmbedding filters s.embeddings.items = some rows ∧
      Closest (fun row => -row.1) (2 * k) rows candidates ∧ Closest (fun row => -row.2.timestamp) k candidates chosen ∧
      chosen.length = min k rows.length ∧ results = chosen.map Prod.snd ∧
      results.Pairwise fun a b => b.timestamp ≤ a.timestamp := by
  rw [search,if_pos ⟨enabled,asked⟩] at found
  obtain ⟨queryEmbedding,embedded,found⟩ := Option.bind_eq_some_iff.mp found
  obtain ⟨entries,searched,sliced⟩ := Option.bind_eq_some_iff.mp found
  obtain ⟨rows,listed,ranked⟩ := Option.bind_eq_some_iff.mp searched
  cases ranked
  cases sliced
  have twice : (k : Int) * 2 = (2 * k : Nat) := by omega
  have close := bySimilarity_closest (2 * k) rows
  have nearest := newestFirst_nearest k (sliceTo (bySimilarity rows) (2 * k : Nat))
  obtain ⟨chosen,recent,shown⟩ := (nearest_map_iff Prod.snd).mp nearest
  refine ⟨queryEmbedding,rows,_,chosen,embedded,listed,close,recent.closest,?_,?_,?_⟩
  · obtain ⟨_,_,size,_⟩ := close
    obtain ⟨_,_,size',_⟩ := recent.closest
    rw [size',size]
    omega
  · rw [twice]
    exact shown
  · rw [twice]
    exact nearest.pairwise.imp neg_le_neg_iff.mp

end

/-- What a search is for: the entries are as many of the matching ones as are asked for, or all, and none that is left out is
more similar to the query. -/
def BestMatches (values : PythonValues ν) (rules : SemanticRules α Rat) (text : String → α) (cfg : MemoryConfig)
    (query : String) (k : Nat) (filters : OrderedDict String ν) (s : SemanticStore α ν Rat)
    (results : List (FactEntry α ν)) : Prop :=
  ∃ queryEmbedding rows chosen, rules.generateEmbedding cfg.embeddingDim (text query) = some queryEmbedding ∧
    s.scored values queryEmbedding filters s.embeddings.items = some rows ∧ Closest (fun row => -row.1) k rows chosen ∧
    results = chosen.map Prod.snd

/-- A text and all others are as far apart as can be. -/
def axisRules : SemanticRules String Rat where
  sha384 content := some (if content = "price" then 255 :: List.replicate 47 0 else 0 :: 255 :: List.replicate 46 0)
  sha384_length content bytes hashed := by
    cases hashed
    split <;> rfl
  scale _ byte := byte / 255
  mergedContent keys _ _ := ", ".intercalate keys
  listing := List.dedup
  listing_nodup := List.nodup_dedup
  mem_listing _ _ := List.mem_dedup

def plainText : TextRules String := ⟨id,id⟩

def indexed : MemoryConfig := { enableVectorSearch := true,embeddingDim := 48 }

def filed (now : Int) (key content : String) (s : SemanticStore String Plain Rat) : SemanticStore String Plain Rat :=
  match s.store plainValues axisRules some indexed now key content .empty with
  | .ok s | .error s => s

def shelf : SemanticStore String Plain Rat := filed 1 "newer" "stock" (filed 0 "older" "price" {})

theorem shelf_closest : ∃ results, shelf.search plainValues axisRules plainText id indexed "price" (1 : Nat) .empty = some results ∧
    ∃ queryEmbedding rows candidates chosen, axisRules.generateEmbedding 48 "price" = some queryEmbedding ∧
      shelf.scored plainValues queryEmbedding .empty shelf.embeddings.items = some rows ∧
      Closest (fun row => -row.1) (2 * 1) rows candidates ∧ Closest (fun row => -row.2.timestamp) 1 candidates chosen ∧
      chosen.length = min 1 rows.length ∧ results = chosen.map Prod.snd ∧
      results.Pairwise fun a b => b.timestamp ≤ a.timestamp := by
  obtain ⟨results,found⟩ : ∃ results, shelf.search plainValues axisRules plainText id indexed "price" (1 : Nat) .empty =
      some results := Option.isSome_iff_exists.mp (by decide +kernel)
  exact ⟨results,found,search_closest rfl (by decide) 1 found⟩

/-- Of an entry with the text that is asked for and a newer one with another, the newer one is returned. -/
theorem newer_preferred : ¬∀ (cfg : MemoryConfig) (query : String) (k : Nat) (filters : OrderedDict String Plain)
    (s : SemanticStore String Plain Rat) (results : List (FactEntry String Plain)), cfg.enableVectorSearch = true →
    s.search plainValues axisRules plainText id cfg query k filters = some results →
    BestMatches plainValues axisRules id cfg query k filters s results := by
  intro best
  have keys : (shelf.search plainValues axisRules plainText id indexed "price" (1 : Nat) .empty).map
      (·.map FactEntry.key) = some ["newer"] := by decide +kernel
  have scores : ((axisRules.generateEmbedding 48 "price").bind fun queryEmbedding =>
      shelf.scored plainValues queryEmbedding .empty shelf.embeddings.items).map
        (·.map fun row => (row.1,row.2.key)) = some [(1,"older"),(0,"newer")] := by decide +kernel
  obtain ⟨results,found,shown⟩ := Option.map_eq_some_iff.mp keys
  obtain ⟨queryEmbedding,rows,chosen,embedded,scored,closest,rfl⟩ := best indexed "price" 1 .empty shelf results rfl found
  have embedded : axisRules.generateEmbedding 48 "price" = some queryEmbedding := embedded
  rw [embedded,Option.bind_some,scored,Option.map_some,Option.some.injEq] at scores
  rw [List.map_map] at shown
  obtain ⟨newer,first,named⟩ := List.mem_map.mp (shown ▸ List.mem_singleton_self "newer")
  obtain ⟨older,second,score⟩ := List.mem_map.mp (scores ▸ List.mem_cons_self)
  obtain ⟨one,other⟩ := Prod.mk.inj score
  have zero : newer.1 = 0 := by
    have member := List.mem_map_of_mem (closest.mem first) (f := fun row => (row.1,row.2.key))
    rw [scores] at member
    simpa [show newer.2.key = "newer" from named] using member
  have absent : older ∉ chosen := by
    intro inside
    have member := List.mem_map_of_mem inside (f := FactEntry.key ∘ Prod.snd)
    rw [shown,Function.comp_apply,other] at member
    revert member
    decide
  have closer : -newer.1 ≤ -older.1 := closest.le first second absent
  rw [zero,one] at closer
  revert closer
  decide +kernel

end SemanticStore

end IceOS
