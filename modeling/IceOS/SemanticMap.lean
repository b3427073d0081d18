import IceOS.LibraryAssets
import IceOS.NearestRows
import Mathlib.Data.Nat.Basic

/-! The semantic memory as a map with ranked search: ingestions, library assets and vectors are entries under an
organisation, a scope and a key. -/
namespace IceOS.SemanticMap

open SemanticTable UpsertTable NearestRows LibraryAssets

variable {φ ε δ : Type}

/-! ### The writers -/

/-- The inputs of an ingestion, with the text that was fetched for its source. -/
structure IngestionInputs (φ : Type) where
  content : String
  scope : String := "kb"
  chunkSize : Int := 1000
  overlap : Int := 200
  metadata : Option (OrderedDict String (Json φ)) := none
  orgId : Option String := none
  userId : Option String := none

/-- The chunks of a text, the first of them after `skip` characters; the next one starts `step` characters on. -/
def pieces (size step : Nat) : Nat → List Char → List (List Char)
  | _, [] => []
  | 0, c :: rest => (c :: rest).take size :: pieces size step (step - 1) rest
  | skip + 1, _ :: rest => pieces size step skip rest

/-- `_chunk` -/
def chunk (text : String) (size overlap : Int) : List String :=
  if size ≤ 0 then [text]
  else (pieces size.toNat (max 1 (size - overlap)).toNat 0 text.toList).map String.ofList

/-- The database with the settings of the process: the model that embeds texts and the dimension of the index. -/
structure Deployment (φ ε : Type) extends Database φ ε where
  embeddingsModel : String := "text-embedding-3-small"
  embeddingDimension : Nat := dimension

/-- One insert: a chunk of an ingestion with the vector that the embedder returned for it, an asset, or a vector of
the index. The chunks of an ingestion are inserted in any order, and others may write between them. -/
inductive Write (φ : Type) where
  | chunk (args : IngestionInputs φ) (idx : Nat) (vec : List φ)
  | asset (payload : LibraryAssetIn)
  | vector (scope key : String) (embedding : List φ) (modelVersion : String)

/-- The insert of a chunk. -/
def IngestionInputs.insert (args : IngestionInputs φ) (x : Deployment φ ε) (idx : Nat) (text : String)
    (vec : List φ) : Insert φ where
  scope := args.scope
  key := s!"_ing:{idx}:{String.ofList ((x.sha256 text).toList.take 12)}"
  contentHash := x.sha256 text
  metaJson := (args.metadata.getD .empty).set "content" (.str text)
  embeddingVec := some vec
  orgId := args.orgId
  userId := args.userId
  modelVersion := some x.embeddingsModel

/-- `PgVectorIndex.upsert`, after the check of the dimension. -/
def indexInsert (x : Deployment φ ε) (scope key : String) (embedding : List φ) (modelVersion : String) :
    Insert φ where
  scope := scope
  key := key
  contentHash := x.sha256 s!"{scope}:{key}:{modelVersion}"
  metaJson := .empty
  embeddingVec := some embedding
  orgId := none
  userId := none
  modelVersion := some modelVersion

/-- What a write inserts, if it comes to that. -/
def Write.insert (x : Deployment φ ε) : Write φ → Option (Insert φ)
  | .chunk args idx vec => (SemanticMap.chunk args.content args.chunkSize args.overlap)[idx]?.map (args.insert x idx · vec)
  | .asset payload => if payload.reject = none then some (payload.insert x.toDatabase) else none
  | .vector scope key embedding modelVersion =>
    if embedding.length = x.embeddingDimension then some (indexInsert x scope key embedding modelVersion) else none

/-! ### The search -/

/-- The operators of the database: the distances `<->` and `<=>` of vectors, `->>` and `@>` of documents, and the
similarity that goes with a cosine distance. -/
structure Operators (φ ε δ : Type) where
  euclidean : ε → ε → δ
  cosine : ε → ε → δ
  text : Json φ → Option String
  includes : OrderedDict String (Json φ) → OrderedDict String (Json φ) → Bool
  fromOne : δ → δ

structure Filter where
  scope : Option String
  orgId : Option String := none
  category : Option String := none
  tags : List String := []

def Filter.selects (f : Filter) (ops : Operators φ ε δ) (r : SemanticRow φ ε) : Bool :=
  (∀ scope ∈ f.scope, r.scope = scope) && (∀ org ∈ f.orgId, r.orgId = org) &&
    (∀ category ∈ f.category, (r.metaJson.get? "category").bind ops.text = some category) &&
    (f.tags = [] || ops.includes r.metaJson (.ofList [("tags",.list (f.tags.map .str))]))

/-- The selected rows that have a vector, with it. -/
def Filter.rows (f : Filter) (ops : Operators φ ε δ) (rows : List (SemanticRow φ ε)) : List (SemanticRow φ ε × ε) :=
  rows.filterMap fun r => if f.selects ops r then r.embedding.map (r,·) else none

/-- The rows that a search may answer with, and their vectors. -/
def searchSemantic [LinearOrder δ] (ops : Operators φ ε δ) (f : Filter) (query : ε) (limit : Nat) (rows : List (SemanticRow φ ε)) :
    List (SemanticRow φ ε × ε) → Prop :=
  Nearest (fun hit => ops.euclidean hit.2 query) limit (f.rows ops rows)

/-- `PgVectorIndex.query`, after the check of the dimension: keys and similarities. -/
def query [LinearOrder δ] (x : Deployment φ ε) (ops : Operators φ ε δ) (scope : String) (embedding : List φ)
    (k : Nat) (orgId : Option String) (rows : List (SemanticRow φ ε)) (out : List (String × δ)) : Prop :=
  ∃ hits, searchSemantic ops { scope := some scope,orgId } (x.vector embedding) k rows hits ∧
    out = hits.map fun hit => (hit.1.key,ops.fromOne (ops.cosine hit.2 (x.vector embedding)))

/-! ### What a memory is for -/

/-- Organisation, scope and key. -/
abbrev Place := String × String × String

@[ext] structure Entry (φ ε : Type) where
  content : Option (Json φ)
  embedding : Option ε

/-- A write that has no content or no embedding leaves what was last written there. -/
def Entry.overwrite (new : Entry φ ε) (old : Option (Entry φ ε)) : Entry φ ε where
  content := new.content.or (old.bind (·.content))
  embedding := new.embedding.or (old.bind (·.embedding))

/-- What a row is an entry of. -/
def entryOf (r : SemanticRow φ ε) : Entry φ ε := ⟨r.metaJson.get? "content",r.embedding⟩

/-- The table, and the map of what was last written where. -/
structure State (φ ε : Type) where
  rows : List (SemanticRow φ ε) := []
  entries : OrderedDict Place (Entry φ ε) := .empty

/-- An insert that the repository takes is also written to the map. -/
def insertEntry (x : Deployment φ ε) (s : State φ ε) (i : Insert φ) : State φ ε :=
  match insertWithSession x.toDatabase i s.rows with
  | .error _ => s
  | .ok rows =>
    let new := i.row x.toDatabase
    ⟨rows,s.entries.set (layout.place new) ((entryOf new).overwrite (s.entries.get? (layout.place new)))⟩

def step (x : Deployment φ ε) (s : State φ ε) (w : Write φ) : Option (State φ ε) :=
  match w.insert x with
  | none => some s
  | some i => some (insertEntry x s i)

/-- What is retrieved under a key. -/
def find (rows : List (SemanticRow φ ε)) (place : Place) : Option (Entry φ ε) := (newest layout place rows).map entryOf

/-- The entries of a scope that have a vector, with it. -/
def entriesIn (scope : String) (orgId : Option String) (entries : OrderedDict Place (Entry φ ε)) : List (Place × ε) :=
  entries.items.filterMap fun item =>
    if item.1.2.1 = scope ∧ ∀ org ∈ orgId, item.1.1 = org then item.2.embedding.map (item.1,·) else none

/-- The row that an insert of `new` goes to. -/
def conflict (new : SemanticRow φ ε) (rows : List (SemanticRow φ ε)) : Option (SemanticRow φ ε) :=
  rows.find? (layout.key · = layout.key new)

/-- The row `new` goes to no row that is found under another key, nor to one behind a newer row of its key; no other
row of the key has a vector; and it brings a content and a vector, or the row that it goes to has the content of the
key and there is no vector. -/
structure Fits (new : SemanticRow φ ε) (rows : List (SemanticRow φ ε)) : Prop where
  clean : Clean layout new rows
  lone : ∀ r ∈ rows, layout.place r = layout.place new → layout.key r ≠ layout.key new → r.embedding = none
  content : (entryOf new).content = none → (conflict new rows).bind (entryOf · |>.content) =
    (find rows (layout.place new)).bind (·.content)
  embedding : new.embedding = none → (find rows (layout.place new)).bind (·.embedding) = none

/-- What the write inserts, if it is taken, fits the table. -/
def Tidy (x : Deployment φ ε) (s : State φ ε) (w : Write φ) : Prop :=
  ∀ i ∈ w.insert x, i.Taken x.toDatabase → Fits (i.row x.toDatabase) s.rows

/-- Everything is found that was last written, and rows with a vector are found. -/
structure Kept (s : State φ ε) : Prop where
  unique : Unique layout s.rows
  lone : ∀ r ∈ s.rows, r.embedding ≠ none → newest layout (layout.place r) s.rows = some r
  found : ∀ place, find s.rows place = s.entries.get? place

theorem kept_start : Kept ({} : State φ ε) :=
  ⟨List.nodup_nil,fun _ member => by contradiction,fun _ => rfl⟩

/-- What an insert leaves in its row. -/
theorem entryOf_written (new : SemanticRow φ ε) (rows : List (SemanticRow φ ε)) :
    (entryOf (written layout new rows)).content =
      (entryOf new).content.or ((conflict new rows).bind (entryOf · |>.content)) ∧
      (entryOf (written layout new rows)).embedding = new.embedding := by
  rcases key_cases (t := layout) new rows with fresh | ⟨before,old,later,rfl,same,first⟩
  · have absent : conflict new rows = none := List.find?_eq_none.mpr fun r member => by simpa using fresh r member
    rw [(fresh_upsert fresh).2.1,absent,Option.bind_none,Option.or_none]
    exact ⟨rfl,rfl⟩
  · have present : conflict new (before ++ old :: later) = some old := by
      refine List.find?_eq_some_iff_append.mpr ⟨by simpa using same,before,later,rfl,fun r member => ?_⟩
      simpa using first r member
    rw [(known_upsert later first same).2.1,present,Option.bind_some]
    exact ⟨OrderedDict.get?_update_items _ _ _,rfl⟩

section Steps

variable {x : Deployment φ ε} {s : State φ ε} {new : SemanticRow φ ε}

theorem Kept.find_upsert (kept : Kept s) (fits : Fits new s.rows) (place : Place) :
    find (upsert layout new s.rows) place = (s.entries.set (layout.place new)
      ((entryOf new).overwrite (s.entries.get? (layout.place new)))).get? place := by
  rw [OrderedDict.get?_set]
  split
  · next here =>
    obtain ⟨content,embedding⟩ := entryOf_written new s.rows
    rw [← here,find,newest_written fits.clean,Option.map_some,← kept.found]
    refine congrArg some (Entry.ext ?_ ?_)
    · rw [content,Entry.overwrite]
      cases own : (entryOf new).content with
      | some value => rfl
      | none => exact fits.content own
    · rw [embedding,Entry.overwrite]
      cases own : new.embedding with
      | some value => simp [entryOf,own]
      | none => simp [entryOf,own,fits.embedding own]
  · next other => rw [find,newest_other fits.clean (Ne.symm other),← find,kept.found]

theorem Kept.upsert (kept : Kept s) (fits : Fits new s.rows) :
    Kept ⟨upsert layout new s.rows,s.entries.set (layout.place new)
      ((entryOf new).overwrite (s.entries.get? (layout.place new)))⟩ := by
  have unique := unique_upsert new kept.unique
  have found := newest_written fits.clean
  refine ⟨unique,fun r member vector => ?_,kept.find_upsert fits⟩
  rcases mem_upsert member with old | rfl
  · by_cases here : layout.place r = layout.place new
    · by_cases own : layout.key r = layout.key new
      · -- the row of the key is the one that was written
        have same := List.inj_on_of_nodup_map unique member (newest_some found).1 (own.trans (key_written new s.rows).symm)
        rw [here,found,same]
      · exact absurd (fits.lone r old here own) vector
    · simp only [newest_other fits.clean here]
      exact kept.lone r old vector
  · rw [place_written]
    exact found

theorem step_taken {w : Write φ} {i : Insert φ} (inserts : w.insert x = some i) (taken : i.Taken x.toDatabase) :
    step x s w = some ⟨UpsertTable.upsert layout (i.row x.toDatabase) s.rows,
      s.entries.set (layout.place (i.row x.toDatabase)) ((entryOf (i.row x.toDatabase)).overwrite
        (s.entries.get? (layout.place (i.row x.toDatabase))))⟩ := by
  simp only [step,inserts,insertEntry,insertWithSession_taken taken]

theorem Kept.step {t : State φ ε} {w : Write φ} (kept : Kept s) (tidy : Tidy x s w) (stepped : step x s w = some t) :
    Kept t := by
  cases inserts : w.insert x with
  | none =>
    simp only [SemanticMap.step,inserts,Option.some.injEq] at stepped
    exact stepped ▸ kept
  | some i =>
    by_cases taken : i.Taken x.toDatabase
    · rw [step_taken inserts taken,Option.some.injEq] at stepped
      subst stepped
      exact kept.upsert (tidy i inserts taken)
    · obtain ⟨text,refused⟩ := insertWithSession_refused taken s.rows
      simp only [SemanticMap.step,inserts,insertEntry,refused,Option.some.injEq] at stepped
      exact stepped ▸ kept

end Steps

/-! ### Searches -/

section Searches

variable {s : State φ ε} {ops : Operators φ ε δ}

/-- Where a hit was found, and its vector. -/
def located (hit : SemanticRow φ ε × ε) : Place × ε := (layout.place hit.1,hit.2)

theorem mem_rows {scope : String} {orgId : Option String} {rows : List (SemanticRow φ ε)} {hit : SemanticRow φ ε × ε} :
    hit ∈ ({ scope := some scope,orgId } : Filter).rows ops rows ↔
      hit.1 ∈ rows ∧ hit.1.embedding = some hit.2 ∧ hit.1.scope = scope ∧ ∀ org ∈ orgId, hit.1.orgId = org := by
  simp only [Filter.rows,List.mem_filterMap,Filter.selects]
  constructor
  · rintro ⟨r,member,selected⟩
    split at selected
    · next fits =>
      obtain ⟨v,vector,rfl⟩ := Option.map_eq_some_iff.mp selected
      simp at fits
      exact ⟨member,vector,fits.1,fits.2⟩
    · contradiction
  · rintro ⟨member,vector,here,org⟩
    exact ⟨hit.1,member,by simp [here,vector]; exact org⟩

theorem mem_entriesIn {scope : String} {orgId : Option String} {entries : OrderedDict Place (Entry φ ε)}
    {hit : Place × ε} : hit ∈ entriesIn scope orgId entries ↔
      ((entries.get? hit.1).bind (·.embedding) = some hit.2 ∧ hit.1.2.1 = scope ∧ ∀ org ∈ orgId, hit.1.1 = org) := by
  simp only [entriesIn,List.mem_filterMap]
  constructor
  · rintro ⟨⟨place,entry⟩,member,selected⟩
    split at selected
    · next fits =>
      obtain ⟨v,vector,rfl⟩ := Option.map_eq_some_iff.mp selected
      rw [(entries.get?_eq_some place entry).mpr member]
      exact ⟨vector,fits⟩
    · contradiction
  · rintro ⟨known,fits⟩
    obtain ⟨entry,present,vector⟩ := Option.bind_eq_some_iff.mp known
    refine ⟨(hit.1,entry),(entries.get?_eq_some _ _).mp present,?_⟩
    simp only
    rw [if_pos fits,vector]
    rfl

theorem entriesIn_nodup (scope : String) (orgId : Option String) (entries : OrderedDict Place (Entry φ ε)) :
    (entriesIn scope orgId entries).Nodup := by
  refine List.pairwise_filterMap.mpr ((List.pairwise_map.mp entries.nodup).imp ?_)
  intro first second apart hit selected hit' selected' same
  split at selected
  · split at selected'
    · obtain ⟨v,_,rfl⟩ := Option.map_eq_some_iff.mp selected
      obtain ⟨v',_,rfl⟩ := Option.map_eq_some_iff.mp selected'
      exact apart (Prod.mk.inj same).1
    · contradiction
  · contradiction

/-- A row with a vector is the entry of its key. -/
theorem Kept.entry (kept : Kept s) {hit : SemanticRow φ ε × ε} (member : hit.1 ∈ s.rows)
    (vector : hit.1.embedding = some hit.2) : newest layout (layout.place hit.1) s.rows = some hit.1 := by
  refine kept.lone hit.1 member ?_
  rw [vector]
  exact Option.some_ne_none hit.2

theorem Kept.rows_nodup (kept : Kept s) (scope : String) (orgId : Option String) :
    ((({ scope := some scope,orgId } : Filter).rows ops s.rows).map located).Nodup := by
  refine List.Nodup.map_on (fun hit member hit' member' same => ?_) ?_
  · obtain ⟨inside,vector,_⟩ := mem_rows.mp member
    obtain ⟨inside',vector',_⟩ := mem_rows.mp member'
    simp only [located,Prod.mk.injEq] at same
    have found := kept.entry inside vector
    rw [same.1,kept.entry inside' vector'] at found
    exact Prod.ext (Option.some.inj found).symm same.2
  · refine List.Nodup.filterMap (fun r r' hit selected selected' => ?_) (List.Nodup.of_map layout.key kept.unique)
    simp only [Option.mem_def] at selected selected'
    split at selected
    · split at selected'
      · obtain ⟨v,_,rfl⟩ := Option.map_eq_some_iff.mp selected
        obtain ⟨v',_,same⟩ := Option.map_eq_some_iff.mp selected'
        exact (congrArg Prod.fst same).symm
      · contradiction
    · contradiction

/-- The rows that a search selects are the entries of the scope, each of them once. -/
theorem Kept.rows_perm (kept : Kept s) (scope : String) (orgId : Option String) :
    ((({ scope := some scope,orgId } : Filter).rows ops s.rows).map located).Perm
      (entriesIn scope orgId s.entries) := by
  refine (List.perm_ext_iff_of_nodup (kept.rows_nodup scope orgId) (entriesIn_nodup scope orgId s.entries)).mpr
    fun hit => ?_
  rw [List.mem_map,mem_entriesIn,← kept.found,find]
  constructor
  · rintro ⟨source,member,rfl⟩
    obtain ⟨inside,vector,here,org⟩ := mem_rows.mp member
    refine ⟨?_,here,org⟩
    rw [located,kept.entry inside vector]
    exact vector
  · rintro ⟨known,here,org⟩
    obtain ⟨entry,present,vector⟩ := Option.bind_eq_some_iff.mp known
    obtain ⟨r,found,rfl⟩ := Option.map_eq_some_iff.mp present
    obtain ⟨inside,place⟩ := newest_some found
    refine ⟨(r,hit.2),mem_rows.mpr ⟨inside,vector,?_,fun org' given => ?_⟩,Prod.ext place rfl⟩
    · rw [← place] at here
      exact here
    · rw [← org org' given,← place]
      rfl

/-- The answers are the most similar entries of the scope exactly where the two distances agree on them. -/
theorem Kept.ranked_iff [LinearOrder δ] (kept : Kept s) (scope : String) (orgId : Option String) (query : ε) (k : Nat) :
    (∀ hits, searchSemantic ops { scope := some scope,orgId } query k s.rows hits →
      Nearest (fun hit => ops.cosine hit.2 query) k (entriesIn scope orgId s.entries) (hits.map located)) ↔
      Agree (fun hit => ops.euclidean hit.2 query) (fun hit => ops.cosine hit.2 query) k
        (entriesIn scope orgId s.entries) := by
  have same : ((({ scope := some scope,orgId } : Filter).rows ops s.rows).map located).Perm _ :=
    kept.rows_perm scope orgId
  rw [← nearest_iff_agree]
  constructor
  · intro always out nearest
    obtain ⟨hits,answer,rfl⟩ := (nearest_map_iff located).mp (nearest.perm same.symm)
    exact always hits answer
  · intro always hits answer
    have shown : Nearest (fun hit => ops.euclidean hit.2 query) k _ (hits.map located) :=
      (nearest_map_iff located).mpr ⟨hits,answer,rfl⟩
    exact always _ (shown.perm same)

/-- The keys and similarities that the index answers with. -/
theorem Kept.query_ranked [LinearOrder δ] (kept : Kept s) {x : Deployment φ ε} {scope : String} {orgId : Option String}
    {embedding : List φ} {k : Nat} {out : List (String × δ)}
    (agree : Agree (fun hit => ops.euclidean hit.2 (x.vector embedding)) (fun hit => ops.cosine hit.2 (x.vector embedding))
      k (entriesIn scope orgId s.entries)) (answer : query x ops scope embedding k orgId s.rows out) :
    ∃ hits, Nearest (fun hit => ops.cosine hit.2 (x.vector embedding)) k (entriesIn scope orgId s.entries) hits ∧
      out = hits.map fun hit => (hit.1.2.2,ops.fromOne (ops.cosine hit.2 (x.vector embedding))) := by
  obtain ⟨hits,found,rfl⟩ := answer
  refine ⟨_,(kept.ranked_iff scope orgId (x.vector embedding) k).mpr agree hits found,?_⟩
  rw [List.map_map]
  rfl

end Searches

/-- In every run of tidy writes everything is found that was last written, and searches answer with the most similar
entries of their scope exactly where the two distances agree on them. -/
theorem memory_kept [LinearOrder δ] {x : Deployment φ ε} (ops : Operators φ ε δ) {writes : List (Write φ)} {t : State φ ε}
    (tidy : ActionRuns.Throughout (step x) (Tidy x) writes {}) (ran : ActionRuns.run (step x) writes {} = some t) :
    (∀ place, find t.rows place = t.entries.get? place) ∧ ∀ scope orgId query k,
      (∀ hits, searchSemantic ops { scope := some scope,orgId } query k t.rows hits →
        Nearest (fun hit => ops.cosine hit.2 query) k (entriesIn scope orgId t.entries) (hits.map located)) ↔
        Agree (fun hit => ops.euclidean hit.2 query) (fun hit => ops.cosine hit.2 query) k
          (entriesIn scope orgId t.entries) := by
  have stays (s : State φ ε) (w : Write φ) (t : State φ ε) (kept : Kept s) (fine : Tidy x s w)
      (stepped : step x s w = some t) : Kept t := kept.step fine stepped
  have kept := ActionRuns.run_invariant stays ran kept_start tidy
  exact ⟨kept.found,kept.ranked_iff⟩

theorem step_total (x : Deployment φ ε) (s : State φ ε) (w : Write φ) : ∃ t, step x s w = some t := by
  cases inserts : w.insert x <;> simp [step,inserts]

/-- A row of which the table has neither key nor place fits. -/
theorem fits_fresh {new : SemanticRow φ ε} {rows : List (SemanticRow φ ε)}
    (fresh : ∀ r ∈ rows, layout.key r ≠ layout.key new ∧ layout.place r ≠ layout.place new) : Fits new rows := by
  have absent : newest layout (layout.place new) rows = none := newest_eq_none.mpr fun r member => (fresh r member).2
  have updates : conflict new rows = none :=
    List.find?_eq_none.mpr fun r member => by simpa using (fresh r member).1
  refine ⟨(fresh_upsert fun r member => (fresh r member).1).2.2,fun r member here => ?_,fun _ => ?_,fun _ => ?_⟩
  · exact absurd here (fresh r member).2
  · rw [updates,find,absent]
    rfl
  · rw [find,absent]
    rfl

/-- Vectors as they are written, under a digest that keeps all texts apart. -/
abbrev plainDeployment : Deployment Int (List Int) where
  toDatabase := ⟨id,id,fun _ => none⟩

/-- Vectors are as far as they are unlike. -/
abbrev unlike (a b : List Int) : Nat := if a = b then 0 else 1

abbrev discreteOperators : Operators Int (List Int) Nat := ⟨unlike,unlike,fun _ => none,fun _ _ => false,(1 - ·)⟩

abbrev firstText : IngestionInputs Int := { content := "text" }

abbrev twoWrites : List (Write Int) :=
  [.chunk firstText 0 (List.replicate 1536 1),.asset { label := "notes",content := "other",scope := "kb" }]

/-- A text and an asset that has another one. -/
theorem twoWrites_kept : ∃ t, ActionRuns.run (step plainDeployment) twoWrites {} = some t ∧
    ∀ place, find t.rows place = t.entries.get? place := by
  obtain ⟨t,ran⟩ := ActionRuns.run_total (step_total plainDeployment) twoWrites {}
  have tidy : ActionRuns.Throughout (step plainDeployment) (Tidy plainDeployment) twoWrites {} := by
    refine ⟨fun i _ _ => fits_fresh fun _ member => by contradiction,fun u stepped => ⟨?_,fun _ _ => trivial⟩⟩
    have inserts : (twoWrites.head (by decide)).insert plainDeployment =
        some (firstText.insert plainDeployment 0 "text" (List.replicate 1536 1)) := rfl
    have taken : (firstText.insert plainDeployment 0 "text" (List.replicate 1536 1)).Taken
        plainDeployment.toDatabase := by
      refine ⟨fun vec given => ?_,rfl⟩
      cases given
      exact List.length_replicate
    cases (step_taken inserts taken).symm.trans stepped
    intro i second _
    cases second
    exact fits_fresh fun r member => by
      cases List.mem_singleton.mp member
      decide
  exact ⟨t,ran,(memory_kept discreteOperators tidy ran).1⟩

/-- One text that is stored in two scopes is found in the second one only. -/
theorem second_scope_takes_over :
    ¬∀ (writes : List (Write Nat)) (t : State Nat Unit), ActionRuns.run (step { toDatabase := plainTable }) writes {} =
      some t → ∀ place, find t.rows place = t.entries.get? place := by
  intro always
  have found := always [.asset { label := "notes",content := "same" },
    .asset { label := "notes",content := "same",scope := "kb" }] _ rfl
    ("_default_org","library","asset:_default_user:notes")
  exact absurd (congrArg Option.isSome found) (by decide)

end IceOS.SemanticMap
