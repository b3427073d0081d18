import Mathlib.Data.List.Nodup

/-! Tables whose rows are unique by one thing and looked up by another. Rows stand in the order in which they were
inserted; an upsert merges what it writes into the row of the same key, which stays where it stands. -/
namespace UpsertTable

variable {ρ κ π : Type} [DecidableEq κ] [DecidableEq π]

/-- What rows are unique by, where they are looked up, and how a row is updated. -/
structure Layout (ρ κ π : Type) where
  key : ρ → κ
  place : ρ → π
  merge : ρ → ρ → ρ
  key_merge : ∀ old new, key (merge old new) = key old
  place_merge : ∀ old new, key old = key new → place (merge old new) = place new

variable (t : Layout ρ κ π)

/-- `INSERT … ON CONFLICT (key) DO UPDATE` -/
@[grind =] def upsert (new : ρ) : List ρ → List ρ
  | [] => [new]
  | r :: rest => if t.key r = t.key new then t.merge r new :: rest else r :: upsert new rest

/-- The row of a place that was inserted last. -/
@[grind =] def newest (p : π) : List ρ → Option ρ
  | [] => none
  | r :: rest => (newest p rest).or (if t.place r = p then some r else none)

/-- Delete all rows of a place. -/
def erase (p : π) (rows : List ρ) : List ρ := rows.filter (t.place · ≠ p)

/-- No two rows have the same key. -/
def Unique (rows : List ρ) : Prop := (rows.map t.key).Nodup

/-- What an upsert leaves of what it writes. -/
@[grind =] def written (new : ρ) : List ρ → ρ
  | [] => new
  | r :: rest => if t.key r = t.key new then t.merge r new else written new rest

/-- The row of the same key, if there is one, is not what is found at another place, and no newer row is found where
it goes. -/
@[grind =] def Clean (new : ρ) : List ρ → Prop
  | [] => True
  | r :: rest =>
    if t.key r = t.key new then
      newest t (t.place new) rest = none ∧ (t.place r = t.place new ∨ (newest t (t.place r) rest).isSome)
    else Clean new rest

variable {t}

omit [DecidableEq κ] in
theorem newest_append (p : π) (first second : List ρ) :
    newest t p (first ++ second) = (newest t p second).or (newest t p first) := by
  induction first with
  | nil => simp [newest]
  | cons r rest ih => simp only [List.cons_append,newest,ih,Option.or_assoc]

omit [DecidableEq κ] in
theorem newest_some {p : π} {rows : List ρ} {r : ρ} (found : newest t p rows = some r) :
    r ∈ rows ∧ t.place r = p := by
  induction rows with
  | nil => contradiction
  | cons a rest ih =>
    simp only [newest,Option.or_eq_some_iff] at found
    rcases found with later | ⟨_,here⟩
    · obtain ⟨member,place⟩ := ih later
      exact ⟨List.mem_cons_of_mem a member,place⟩
    · split at here
      · next place =>
        cases here
        exact ⟨List.mem_cons_self,place⟩
      · contradiction

omit [DecidableEq κ] in
theorem newest_eq_none {p : π} {rows : List ρ} : newest t p rows = none ↔ ∀ r ∈ rows, t.place r ≠ p := by
  induction rows with
  | nil => simp [newest]
  | cons a rest ih => simp [newest,ih,and_comm]

omit [DecidableEq κ] in
/-- The same as a query. -/
theorem newest_eq_getLast? (p : π) (rows : List ρ) : newest t p rows = (rows.filter (t.place · = p)).getLast? := by
  induction rows with
  | nil => rfl
  | cons a rest ih =>
    by_cases own : t.place a = p
    · simp [newest,ih,own,List.getLast?_cons]
    · simp [newest,ih,own]

omit [DecidableEq κ] in
theorem newest_erase (p q : π) (rows : List ρ) :
    newest t q (erase t p rows) = if q = p then none else newest t q rows := by
  induction rows with
  | nil => simp [erase,newest]
  | cons a rest ih =>
    simp only [erase,List.filter_cons] at ih ⊢
    by_cases own : t.place a = p
    · simp only [own,newest,ne_eq,not_true,decide_false,Bool.false_eq_true,if_false,ih]
      by_cases same : q = p
      · simp [same]
      · simp [same,Ne.symm same]
    · simp only [own,newest,ne_eq,not_false_iff,decide_true,if_true,ih]
      by_cases same : q = p
      · simp [same,own]
      · simp [same]

omit [DecidableEq π] in
/-- Either no row has the key, or one has it and the rows before it have not. -/
theorem key_cases (new : ρ) (rows : List ρ) :
    (∀ r ∈ rows, t.key r ≠ t.key new) ∨ ∃ before old later, rows = before ++ old :: later ∧
      t.key old = t.key new ∧ ∀ r ∈ before, t.key r ≠ t.key new := by
  induction rows with
  | nil => exact .inl fun _ member => by contradiction
  | cons a rest ih =>
    by_cases own : t.key a = t.key new
    · exact .inr ⟨[],a,rest,rfl,own,fun _ member => by contradiction⟩
    · rcases ih with fresh | ⟨before,old,later,rfl,same,first⟩
      · exact .inl (List.forall_mem_cons.mpr ⟨own,fresh⟩)
      · exact .inr ⟨a :: before,old,later,rfl,same,List.forall_mem_cons.mpr ⟨own,first⟩⟩

theorem fresh_upsert {new : ρ} {rows : List ρ} (fresh : ∀ r ∈ rows, t.key r ≠ t.key new) :
    upsert t new rows = rows ++ [new] ∧ written t new rows = new ∧ Clean t new rows := by
  induction rows with
  | nil => exact ⟨rfl,rfl,trivial⟩
  | cons a rest ih =>
    obtain ⟨own,fresh⟩ := List.forall_mem_cons.mp fresh
    obtain ⟨appended,kept,clean⟩ := ih fresh
    simp only [upsert,written,Clean,own,if_false,appended,kept,List.cons_append]
    exact ⟨trivial,trivial,clean⟩

theorem known_upsert (later : List ρ) {new old : ρ} {before : List ρ} (first : ∀ r ∈ before, t.key r ≠ t.key new)
    (same : t.key old = t.key new) :
    upsert t new (before ++ old :: later) = before ++ t.merge old new :: later ∧
      written t new (before ++ old :: later) = t.merge old new ∧
      (Clean t new (before ++ old :: later) ↔ newest t (t.place new) later = none ∧
        (t.place old = t.place new ∨ (newest t (t.place old) later).isSome)) := by
  induction before with
  | nil => simp [upsert,written,Clean,same]
  | cons a rest ih =>
    obtain ⟨own,first⟩ := List.forall_mem_cons.mp first
    obtain ⟨replaced,kept,clean⟩ := ih first
    simp only [List.cons_append,upsert,written,Clean,own,if_false,replaced,kept]
    exact ⟨trivial,trivial,clean⟩

theorem unique_upsert (new : ρ) {rows : List ρ} (unique : Unique t rows) : Unique t (upsert t new rows) := by
  rcases key_cases (t := t) new rows with fresh | ⟨before,old,later,rfl,same,first⟩
  · rw [(fresh_upsert fresh).1]
    simp only [Unique,List.map_append,List.map_cons,List.map_nil] at unique ⊢
    refine List.Nodup.append unique (List.nodup_singleton _) fun k member own => ?_
    obtain ⟨r,inside,rfl⟩ := List.mem_map.mp member
    exact fresh r inside (List.mem_singleton.mp own)
  · rw [(known_upsert later first same).1]
    simp only [Unique,List.map_append,List.map_cons,t.key_merge] at unique ⊢
    exact unique

omit [DecidableEq κ] in
theorem unique_erase {p : π} {rows : List ρ} (unique : Unique t rows) : Unique t (erase t p rows) :=
  unique.sublist (List.filter_sublist.map t.key)

theorem key_written (new : ρ) (rows : List ρ) : t.key (written t new rows) = t.key new := by
  rcases key_cases (t := t) new rows with fresh | ⟨before,old,later,rfl,same,first⟩
  · rw [(fresh_upsert fresh).2.1]
  · rw [(known_upsert later first same).2.1,t.key_merge,same]

theorem place_written (new : ρ) (rows : List ρ) : t.place (written t new rows) = t.place new := by
  rcases key_cases (t := t) new rows with fresh | ⟨before,old,later,rfl,same,first⟩
  · rw [(fresh_upsert fresh).2.1]
  · rw [(known_upsert later first same).2.1,t.place_merge old new same]

/-- A row that an upsert leaves was there, or is what was written. -/
theorem mem_upsert {new r : ρ} {rows : List ρ} (member : r ∈ upsert t new rows) : r ∈ rows ∨ r = written t new rows := by
  rcases key_cases (t := t) new rows with fresh | ⟨before,old,later,rfl,same,first⟩
  · obtain ⟨appended,kept,_⟩ := fresh_upsert fresh
    simpa [appended,kept] using member
  · obtain ⟨replaced,kept,_⟩ := known_upsert later first same
    rw [replaced,List.mem_append,List.mem_cons] at member
    rw [kept,List.mem_append,List.mem_cons]
    tauto

/-- A clean upsert can be looked up again. -/
theorem newest_written {new : ρ} {rows : List ρ} (clean : Clean t new rows) :
    newest t (t.place new) (upsert t new rows) = some (written t new rows) := by
  rcases key_cases (t := t) new rows with fresh | ⟨before,old,later,rfl,same,first⟩
  · obtain ⟨appended,kept,_⟩ := fresh_upsert fresh
    rw [appended,kept,newest_append]
    simp [newest]
  · obtain ⟨replaced,kept,iff⟩ := known_upsert later first same
    rw [replaced,kept,newest_append,newest,(iff.mp clean).1,t.place_merge old new same]
    simp

/-- It changes nothing at any other place. -/
theorem newest_other {new : ρ} {rows : List ρ} (clean : Clean t new rows) {p : π} (other : p ≠ t.place new) :
    newest t p (upsert t new rows) = newest t p rows := by
  rcases key_cases (t := t) new rows with fresh | ⟨before,old,later,rfl,same,first⟩
  · rw [(fresh_upsert fresh).1,newest_append]
    simp [newest,Ne.symm other]
  · obtain ⟨replaced,_,iff⟩ := known_upsert later first same
    rw [replaced,newest_append,newest_append]
    simp only [newest,t.place_merge old new same,Ne.symm other,if_false,Option.or_none]
    by_cases own : t.place old = p
    · obtain ⟨r,found⟩ := Option.isSome_iff_exists.mp ((iff.mp clean).2.resolve_left fun place => other (own ▸ place))
      rw [own] at found
      simp [found]
    · simp [own]

/-- An upsert that can be looked up again and hides no row of another place is clean. -/
theorem clean_of {new : ρ} {rows : List ρ} (unique : Unique t rows)
    (found : ∃ r, newest t (t.place new) (upsert t new rows) = some r ∧ t.key r = t.key new)
    (others : ∀ r, newest t (t.place r) rows = some r → t.place r ≠ t.place new →
      ∃ r', newest t (t.place r) (upsert t new rows) = some r' ∧ t.key r' = t.key r) : Clean t new rows := by
  rcases key_cases (t := t) new rows with fresh | ⟨before,old,later,rfl,same,first⟩
  · exact (fresh_upsert fresh).2.2
  · obtain ⟨replaced,_,iff⟩ := known_upsert later first same
    rw [replaced] at found others
    refine iff.mpr ⟨?_,or_iff_not_imp_left.mpr fun place => ?_⟩
    · obtain ⟨r,here,key⟩ := found
      cases behind : newest t (t.place new) later with
      | none => rfl
      | some x =>
        rw [newest_append,newest,behind,Option.some_or,Option.some_or,Option.some.injEq] at here
        subst here
        have twice : t.key x = t.key old := key.trans same.symm
        simp only [Unique,List.map_append,List.map_cons] at unique
        have apart := (List.nodup_cons.mp (List.nodup_append.mp unique).2.1).1
        exact absurd (List.mem_map.mpr ⟨x,(newest_some behind).1,twice⟩) apart
    · cases behind : newest t (t.place old) later with
      | some x => rfl
      | none =>
        obtain ⟨r',here,key⟩ := others old (by simp [newest_append,newest,behind]) place
        rw [newest_append,newest,behind,t.place_merge old new same,if_neg (Ne.symm place)] at here
        have early := (newest_some (by simpa using here)).1
        exact absurd (key.trans same) (first r' early)

end UpsertTable
