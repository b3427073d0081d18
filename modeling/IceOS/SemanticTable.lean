import IceOS.PythonJson
import IceOS.UpsertTable

/-! The table `semantic_memory` and the repository that writes it: library assets, ingested texts and vectors are
rows of the one table, unique by organisation and content hash. -/
namespace IceOS

/-- A row, in the order of `created_at` with the others. `ε` is what the vector column holds. -/
structure SemanticRow (φ ε : Type) where
  scope : String
  key : String
  contentHash : String
  modelVersion : Option String
  metaJson : OrderedDict String (Json φ)
  embedding : Option ε
  orgId : String
  userId : String

namespace SemanticTable

variable {φ ε : Type}

/-- The constraint is on organisation and content hash; the row that is there keeps its user and its time. -/
def layout : UpsertTable.Layout (SemanticRow φ ε) (String × String) (String × String × String) where
  key r := (r.orgId,r.contentHash)
  place r := (r.orgId,r.scope,r.key)
  merge old new :=
    { old with
      key := new.key
      scope := new.scope
      modelVersion := new.modelVersion
      metaJson := old.metaJson.update new.metaJson.items
      embedding := new.embedding }
  key_merge _ _ := rfl
  place_merge old new same := by
    simp only [Prod.mk.injEq] at same
    simp only [same.1]

/-- What is not under the repository: the digest, the vector literal with six decimals as the column takes it, and
the error for a row that the database refuses, such as a value too long for its column. -/
structure Database (φ ε : Type) where
  sha256 : String → String
  vector : List φ → ε
  refuses : SemanticRow φ ε → Option String

/-- `value or default` -/
def orDefault (value : Option String) (default : String) : String :=
  match value with
  | some text => if text = "" then default else text
  | none => default

/-- The dimension of the column. -/
def dimension : Nat := 1536

/-- The values of an insert. -/
structure Insert (φ : Type) where
  scope : String
  key : String
  contentHash : String
  metaJson : OrderedDict String (Json φ)
  embeddingVec : Option (List φ)
  orgId : Option String
  userId : Option String
  modelVersion : Option String

def Insert.row (i : Insert φ) (db : Database φ ε) : SemanticRow φ ε where
  scope := i.scope
  key := i.key
  contentHash := i.contentHash
  modelVersion := i.modelVersion
  metaJson := i.metaJson
  embedding := i.embeddingVec.map db.vector
  orgId := orDefault i.orgId "_default_org"
  userId := orDefault i.userId "_default_user"

/-- `_insert_with_session`, or the text of what it raises. -/
def insertWithSession (db : Database φ ε) (i : Insert φ) (rows : List (SemanticRow φ ε)) :
    Except String (List (SemanticRow φ ε)) :=
  match i.embeddingVec.filter (·.length ≠ dimension) with
  | some vec => .error s!"Embedding dimension mismatch: expected 1536, got {vec.length}"
  | none =>
    match db.refuses (i.row db) with
    | some text => .error text
    | none => .ok (UpsertTable.upsert layout (i.row db) rows)

/-- The vector has the dimension of the column, and the database takes the row. -/
def Insert.Taken (i : Insert φ) (db : Database φ ε) : Prop :=
  (∀ vec ∈ i.embeddingVec, vec.length = dimension) ∧ db.refuses (i.row db) = none

theorem insertWithSession_taken {db : Database φ ε} {i : Insert φ} (taken : i.Taken db)
    (rows : List (SemanticRow φ ε)) : insertWithSession db i rows = .ok (UpsertTable.upsert layout (i.row db) rows) := by
  have fits : i.embeddingVec.filter (·.length ≠ dimension) = none :=
    Option.filter_eq_none_iff.mpr fun vec given => by simpa using taken.1 vec given
  simp only [insertWithSession,fits,taken.2]

theorem insertWithSession_refused {db : Database φ ε} {i : Insert φ} (refused : ¬i.Taken db)
    (rows : List (SemanticRow φ ε)) : ∃ text, insertWithSession db i rows = .error text := by
  simp only [insertWithSession]
  split
  · exact ⟨_,rfl⟩
  · next fits =>
    split
    · exact ⟨_,rfl⟩
    · next taken =>
      refine absurd ⟨fun vec given => ?_,taken⟩ refused
      simpa using Option.filter_eq_none_iff.mp fits vec given

end SemanticTable

end IceOS
