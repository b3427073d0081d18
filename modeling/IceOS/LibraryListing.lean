import IceOS.PythonText
import Mathlib.Data.List.Perm.Subperm
import Mathlib.Order.Lattice

/-! The listing of components and blueprints. Each statement reads the newest rows of its table; the text is looked for
afterwards. -/
namespace IceOS.LibraryListing

structure LibraryListItem where
  kind : String
  name : String
  type : Option String := none
  updatedAt : Option String
  deriving DecidableEq

/-- A row; the type is that of the definition of a component, if it is a map. -/
structure Row (τ : Type) where
  id : String
  type : Option String := none
  updatedAt : τ

/-- A table with the order in which `ORDER BY updated_at DESC` reads it. -/
structure Table (τ : Type) [LinearOrder τ] where
  stored : List (Row τ)
  rows : List (Row τ)
  perm : rows.Perm stored
  newest : rows.Pairwise fun r later => later.updatedAt ≤ r.updatedAt

structure Tables (τ : Type) [LinearOrder τ] where
  components : Table τ
  blueprints : Table τ

structure Request where
  q : Option String := none
  kind : Option String := none
  limit : Nat := 50
  ge : 1 ≤ limit := by decide
  le : limit ≤ 200 := by decide

/-- Lower-casing, and how a time is written; what is not a time is left out. -/
structure Texts (τ : Type) where
  lower : String → String
  isoformat : τ → Option String

/-- `session.execute` of a statement with `LIMIT :limit`. Without a value for `limit` it is refused. -/
def execute {ρ : Type} (rows : List ρ) : Option Nat → Except String (List ρ)
  | none => .error "A value is required for bind parameter 'limit'"
  | some limit => .ok (rows.take limit)

variable {τ : Type}

def Request.asks (r : Request) (kind : String) : Bool := r.kind = none ∨ r.kind = some kind

/-- The rows whose name contains the text. -/
def Request.found (u : Texts τ) (r : Request) (row : Row τ) : Bool :=
  r.q.all fun q => q = "" || PythonText.contains (u.lower q) (u.lower row.id)

def component (u : Texts τ) (row : Row τ) : LibraryListItem := ⟨"component",row.id,row.type,u.isoformat row.updatedAt⟩

def blueprint (u : Texts τ) (row : Row τ) : LibraryListItem := ⟨"blueprint",row.id,none,u.isoformat row.updatedAt⟩

/-- The items of one table. -/
def list (u : Texts τ) (r : Request) (kind : String) (item : Row τ → LibraryListItem) (given : Option Nat)
    (rows : List (Row τ)) : Except String (List LibraryListItem) :=
  if r.asks kind then do
    let rows ← execute rows given
    return (rows.filter (r.found u)).map item
  else return []

theorem list_none (u : Texts τ) (r : Request) (kind : String) (item : Row τ → LibraryListItem) (rows : List (Row τ)) :
    list u r kind item none rows =
      if r.asks kind then .error "A value is required for bind parameter 'limit'" else .ok [] := by
  rw [list]
  split <;> rfl

theorem list_some (u : Texts τ) (r : Request) (kind : String) (item : Row τ → LibraryListItem) (limit : Nat)
    (rows : List (Row τ)) :
    list u r kind item (some limit) rows =
      .ok (if r.asks kind then ((rows.take limit).filter (r.found u)).map item else []) := by
  rw [list]
  split <;> rfl

/-- The items of these rows that are asked for. -/
def wanted (u : Texts τ) (r : Request) (components blueprints : List (Row τ)) : List LibraryListItem :=
  (if r.asks "component" then (components.filter (r.found u)).map (component u) else []) ++
    if r.asks "blueprint" then (blueprints.filter (r.found u)).map (blueprint u) else []

theorem wanted_perm (u : Texts τ) (r : Request) {components components' blueprints blueprints' : List (Row τ)}
    (first : components.Perm components') (second : blueprints.Perm blueprints') :
    (wanted u r components blueprints).Perm (wanted u r components' blueprints') := by
  refine List.Perm.append ?_ ?_
  · split
    · exact (first.filter _).map _
    · rfl
  · split
    · exact (second.filter _).map _
    · rfl

theorem wanted_sublist (u : Texts τ) (r : Request) {components components' blueprints blueprints' : List (Row τ)}
    (first : components.Sublist components') (second : blueprints.Sublist blueprints') :
    (wanted u r components blueprints).Sublist (wanted u r components' blueprints') := by
  refine List.Sublist.append ?_ ?_
  · split
    · exact (first.filter _).map _
    · exact .refl _
  · split
    · exact (second.filter _).map _
    · exact .refl _

variable [LinearOrder τ]

/-- The route, with what is given to the statements as their limit. -/
def listWith (given : Option Nat) (u : Texts τ) (s : Tables τ) (r : Request) : Except String (List LibraryListItem) := do
  let components ← list u r "component" (component u) given s.components.rows
  let blueprints ← list u r "blueprint" (blueprint u) given s.blueprints.rows
  return (components ++ blueprints).take r.limit

/-- Nothing is given to the statements of the route. -/
def listLibrary (u : Texts τ) (s : Tables τ) (r : Request) : Except String (List LibraryListItem) := listWith none u s r

/-! ### What is listed -/

/-- All that is stored and asked for. -/
def stored (u : Texts τ) (s : Tables τ) (r : Request) : List LibraryListItem :=
  wanted u r s.components.stored s.blueprints.stored

/-- What is asked for among the newest of each table. -/
def newest (u : Texts τ) (s : Tables τ) (r : Request) : List LibraryListItem :=
  wanted u r (s.components.rows.take r.limit) (s.blueprints.rows.take r.limit)

/-- As many items as there are up to the limit, each of another asset that is asked for. -/
def Complete (u : Texts τ) (s : Tables τ) (r : Request) (result : Except String (List LibraryListItem)) : Prop :=
  ∃ items, result = .ok items ∧ items.length = min r.limit (stored u s r).length ∧ items.Subperm (stored u s r)

/-- When the listing is complete; and when it were if the statements were given the limit. -/
structure ListingLaw (u : Texts τ) (s : Tables τ) (r : Request) : Prop where
  asWritten : Complete u s r (listLibrary u s r) ↔ r.asks "component" = false ∧ r.asks "blueprint" = false
  limited : Complete u s r (listWith (some r.limit) u s r) ↔
    r.limit ≤ (newest u s r).length ∨ (newest u s r).length = (stored u s r).length

theorem listWith_limit (u : Texts τ) (s : Tables τ) (r : Request) :
    listWith (some r.limit) u s r = .ok ((newest u s r).take r.limit) := by
  rw [listWith,list_some,list_some]
  rfl

/-- The newest of what is asked for are stored. -/
theorem newest_subperm (u : Texts τ) (s : Tables τ) (r : Request) : (newest u s r).Subperm (stored u s r) :=
  (wanted_sublist u r (List.take_sublist ..) (List.take_sublist ..)).subperm.trans
    (wanted_perm u r s.components.perm s.blueprints.perm).subperm

theorem stored_nil (u : Texts τ) (s : Tables τ) {r : Request} (components : r.asks "component" = false)
    (blueprints : r.asks "blueprint" = false) : stored u s r = [] := by
  simp [stored,wanted,components,blueprints]

theorem listLibrary_complete_iff (u : Texts τ) (s : Tables τ) (r : Request) :
    Complete u s r (listLibrary u s r) ↔ r.asks "component" = false ∧ r.asks "blueprint" = false := by
  constructor
  · rintro ⟨items,answer,_⟩
    rw [listLibrary,listWith,list_none,list_none] at answer
    cases components : r.asks "component" <;> cases blueprints : r.asks "blueprint"
    · exact ⟨rfl,rfl⟩
    all_goals
      rw [components,blueprints] at answer
      cases answer
  · rintro ⟨components,blueprints⟩
    have empty := stored_nil u s components blueprints
    refine ⟨[],?_,by simp [empty],List.nil_subperm⟩
    rw [listLibrary,listWith,list_none,list_none,components,blueprints]
    simp [pure,Except.pure,bind,Except.bind]

theorem limited_complete_iff (u : Texts τ) (s : Tables τ) (r : Request) :
    Complete u s r (listWith (some r.limit) u s r) ↔
      r.limit ≤ (newest u s r).length ∨ (newest u s r).length = (stored u s r).length := by
  have below := (newest_subperm u s r).length_le
  have counted : ((newest u s r).take r.limit).length = min r.limit (stored u s r).length ↔
      r.limit ≤ (newest u s r).length ∨ (newest u s r).length = (stored u s r).length := by
    rw [List.length_take]
    omega
  rw [listWith_limit,← counted]
  constructor
  · rintro ⟨items,answer,count,_⟩
    cases answer
    exact count
  · exact fun count => ⟨_,rfl,count,(List.take_sublist ..).subperm.trans (newest_subperm u s r)⟩

theorem listing_law (u : Texts τ) (s : Tables τ) (r : Request) : ListingLaw u s r :=
  ⟨listLibrary_complete_iff u s r,limited_complete_iff u s r⟩

/-- One component is asked for and another one is newer. -/
def hidden : Tables Nat where
  components :=
    { stored := [⟨"tool:mean",some "tool",1⟩,⟨"tool:parse",some "tool",2⟩]
      rows := [⟨"tool:parse",some "tool",2⟩,⟨"tool:mean",some "tool",1⟩]
      perm := .swap ..
      newest := by simp }
  blueprints := ⟨[],[],.refl _,.nil⟩

def plainTexts : Texts Nat := ⟨id,fun _ => none⟩

def meanAsked : Request := { q := some "mean",limit := 1 }

theorem listing_incomplete : (stored plainTexts hidden meanAsked).length = 1 ∧
    ¬Complete plainTexts hidden meanAsked (listLibrary plainTexts hidden meanAsked) ∧
    ¬Complete plainTexts hidden meanAsked (listWith (some 1) plainTexts hidden meanAsked) := by
  refine ⟨by decide +kernel,?_,?_⟩
  · rintro ⟨items,answer,_⟩
    cases answer
  · rintro ⟨items,answer,count,_⟩
    obtain rfl : [] = items := Except.ok.inj (answer.symm.trans (by decide +kernel)).symm
    exact absurd count (by decide +kernel)

end IceOS.LibraryListing
