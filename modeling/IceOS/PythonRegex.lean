import Mathlib.Data.List.Basic

/-! Regular expressions that are matched by backtracking, as Python's: a greedy repetition tries to go on before it
stops, a lazy one to stop before it goes on, and the first way through the whole expression counts. -/
namespace PythonRegex

/-- Texts of the groups, by number. -/
abbrev Captures := List (Nat × List Char)

inductive Regex where
  | empty
  | one (p : Char → Bool)
  | many (p : Char → Bool) (lazily : Bool)
  | seq (r s : Regex)
  | group (n : Nat) (r : Regex)
  | either (r s : Regex)
  | lineEnd
  | textEnd

/-- What is to be matched behind an expression. -/
abbrev Rest := List Char → Captures → Option (Captures × List Char)

/-- Repetitions of one character; the text that is left tells how far it went. -/
@[grind =] def repeatGreedily (p : Char → Bool) (k : List Char → Option α) : List Char → Option α
  | [] => k []
  | c :: cs => if p c then (repeatGreedily p k cs).or (k (c :: cs)) else k (c :: cs)

@[grind =] def repeatLazily (p : Char → Bool) (k : List Char → Option α) : List Char → Option α
  | [] => k []
  | c :: cs => (k (c :: cs)).or (if p c then repeatLazily p k cs else none)

/-- The end of a line, as `$` with `re.MULTILINE`. -/
def atLineEnd (cs : List Char) : Bool := cs.head?.all (· = '\n')

namespace Regex

@[grind =] def run : Regex → Rest → Rest
  | empty,k,cs,caps => k cs caps
  | one _,_,[],_ => none
  | one p,k,c :: cs,caps => if p c then k cs caps else none
  | many p lazily,k,cs,caps =>
    if lazily then repeatLazily p (k · caps) cs else repeatGreedily p (k · caps) cs
  | seq r s,k,cs,caps => r.run (s.run k) cs caps
  | group n r,k,cs,caps =>
    r.run (fun rest caps => k rest (caps ++ [(n,cs.take (cs.length - rest.length))])) cs caps
  | either r s,k,cs,caps => (r.run k cs caps).or (s.run k cs caps)
  | lineEnd,k,cs,caps => if atLineEnd cs then k cs caps else none
  | textEnd,k,cs,caps => if cs = [] ∨ cs = ['\n'] then k cs caps else none

/-- `x+`, and `x+?` if lazily. -/
def atLeastOne (p : Char → Bool) (lazily : Bool) : Regex := seq (one p) (many p lazily)

def optional (r : Regex) : Regex := either r empty

def literal (same : Char → Char → Bool) : List Char → Regex
  | [] => empty
  | c :: cs => seq (one (same c)) (literal same cs)

def ofList (parts : List Regex) : Regex := parts.foldr seq empty

/-- `match` at the start of the text: the groups, and the text behind. -/
def matchAt (r : Regex) (cs : List Char) : Option (Captures × List Char) := r.run (fun rest caps => some (caps,rest)) cs []

/-- `finditer`, for an expression that does not match the empty text: `skip` counts the characters of a match that are
still to be passed over. -/
@[grind =] def findIter (r : Regex) : Nat → List Char → List Captures
  | _,[] => []
  | skip + 1,_ :: cs => r.findIter skip cs
  | 0,c :: cs =>
    match r.matchAt (c :: cs) with
    | some (caps,rest) => caps :: r.findIter (cs.length - rest.length) cs
    | none => r.findIter 0 cs

/-- `sub(r, "", text, count=1)` -/
def removeFirst (r : Regex) : List Char → List Char
  | [] => []
  | c :: cs =>
    match r.matchAt (c :: cs) with
    | some (_,rest) => rest
    | none => c :: r.removeFirst cs

end Regex

/-- Where a letter is compared without its case; the long s is an s, the dotless and the dotted i an i, and the sign of
the kelvin a k. -/
def ignoreCase (c d : Char) : Bool :=
  c.toLower = d.toLower || (c.toLower = 's' && d = 'ſ') || (c.toLower = 'i' && (d = 'ı' || d = 'İ')) ||
    (c.toLower = 'k' && d = '\u212a')

/-- The text of a group, if it took part in the match. -/
def textOf (caps : Captures) (n : Nat) : Option String := (caps.lookup n).map String.ofList

/-- `findall`, for an expression without groups. -/
def findAll (r : Regex) (text : String) : List String :=
  ((Regex.group 0 r).findIter 0 text.toList).filterMap (textOf · 0)

/-! ### Repetitions -/

variable {α : Type} {p : Char → Bool} {k : List Char → Option α} {pre rest : List Char} {x : α}

/-- A greedy repetition goes as far as it can, if the rest matches there. -/
theorem repeatGreedily_eq (all : ∀ c ∈ pre, p c = true) (stops : ∀ c ∈ rest.head?, p c = false) (found : k rest = some x) :
    repeatGreedily p k (pre ++ rest) = some x := by
  induction pre with
  | nil =>
    cases rest with
    | nil => exact found
    | cons c cs => simpa [repeatGreedily,stops c rfl] using found
  | cons c pre ih =>
    have ⟨here,later⟩ := List.forall_mem_cons.mp all
    simp [repeatGreedily,here,ih later]

/-- A lazy repetition stops where the rest matches first. -/
theorem repeatLazily_eq (all : ∀ c ∈ pre, p c = true)
    (first : ∀ left right, pre = left ++ right → right ≠ [] → k (right ++ rest) = none) (found : k rest = some x) :
    repeatLazily p k (pre ++ rest) = some x := by
  induction pre with
  | nil => cases rest <;> simp [repeatLazily,found]
  | cons c pre ih =>
    have ⟨here,later⟩ := List.forall_mem_cons.mp all
    have missed := first [] (c :: pre) rfl (by simp)
    have found := ih later fun left right parts => first (c :: left) right (by simp [parts])
    rw [List.cons_append] at missed ⊢
    rw [repeatLazily,missed,here,if_pos rfl,found]
    rfl

namespace Regex

variable {r : Regex} {k : Rest} {caps : Captures} {cs : List Char} {x : Captures × List Char} {n : Nat} {c : Char}
  {k' : List Char → Option α} {y : α}

@[simp] theorem run_ofList_nil : (ofList []).run k cs caps = k cs caps := rfl

@[simp] theorem run_ofList_cons (parts : List Regex) : (ofList (r :: parts)).run k = r.run ((ofList parts).run k) := rfl

theorem run_optional : (optional r).run k cs caps = (r.run k cs caps).or (k cs caps) := rfl

theorem run_one (fits : p c = true) : (one p).run k (c :: cs) caps = k cs caps := by
  simp [run,fits]

theorem run_many (all : ∀ c ∈ pre, p c = true) (stops : ∀ c ∈ rest.head?, p c = false) (found : k rest caps = some x) :
    (many p false).run k (pre ++ rest) caps = some x :=
  repeatGreedily_eq all stops found

/-- What a group has taken of the text. -/
theorem taken (pre rest : List Char) : (pre ++ rest).take ((pre ++ rest).length - rest.length) = pre := by
  rw [List.length_append,Nat.add_sub_cancel,List.take_left]

theorem run_atLeastOne (nonempty : pre ≠ []) (all : ∀ c ∈ pre, p c = true) (stops : ∀ c ∈ rest.head?, p c = false)
    (found : k rest caps = some x) : (atLeastOne p false).run k (pre ++ rest) caps = some x := by
  obtain ⟨c,pre,rfl⟩ := List.exists_cons_of_ne_nil nonempty
  have ⟨here,later⟩ := List.forall_mem_cons.mp all
  rw [List.cons_append,atLeastOne,run,run_one here]
  exact run_many later stops found

/-- A greedy group takes all characters of its kind. -/
theorem run_group_greedy (nonempty : pre ≠ []) (all : ∀ c ∈ pre, p c = true) (stops : ∀ c ∈ rest.head?, p c = false)
    (found : k rest (caps ++ [(n,pre)]) = some x) :
    (group n (atLeastOne p false)).run k (pre ++ rest) caps = some x := by
  rw [run]
  refine run_atLeastOne nonempty all stops ?_
  rw [taken]
  exact found

/-- A lazy group takes what stands before the first place behind its first character where the rest matches. -/
theorem run_group_lazy {first : Char} (all : ∀ c ∈ first :: pre, p c = true)
    (missed : ∀ left right caps, pre = left ++ right → right ≠ [] → k (right ++ rest) caps = none)
    (found : k rest (caps ++ [(n,first :: pre)]) = some x) :
    (group n (atLeastOne p true)).run k (first :: pre ++ rest) caps = some x := by
  have ⟨here,later⟩ := List.forall_mem_cons.mp all
  have whole : (first :: pre ++ rest).take ((first :: pre ++ rest).length - rest.length) = first :: pre :=
    taken (first :: pre) rest
  rw [run,List.cons_append,atLeastOne,run,run_one here,run,if_pos rfl]
  refine repeatLazily_eq later (fun left right parts nonempty => missed left right _ parts nonempty) ?_
  rw [← List.cons_append,whole]
  exact found

/-! ### Literals -/

/-- What is left of a text behind a literal. -/
def behind (same : Char → Char → Bool) : List Char → List Char → Option (List Char)
  | [],cs => some cs
  | c :: word,d :: cs => if same c d then behind same word cs else none
  | _ :: _,[] => none

theorem run_literal (same : Char → Char → Bool) (word cs : List Char) :
    (literal same word).run k cs caps = (behind same word cs).bind (k · caps) := by
  induction word generalizing cs with
  | nil => rfl
  | cons c word ih =>
    cases cs with
    | nil => rfl
    | cons d cs =>
      simp only [literal,run,behind]
      split
      · exact ih cs
      · rfl

theorem behind_self {same : Char → Char → Bool} (refl : ∀ c, same c c = true) (word cs : List Char) :
    behind same word (word ++ cs) = some cs := by
  induction word with
  | nil => rfl
  | cons c word ih => simpa [behind,refl c] using ih

/-- A literal does not go on over a character that it has not. -/
theorem behind_append {same : Char → Char → Bool} {word : List Char} {d : Char} (other : ∀ c ∈ word, same c d = false)
    (nonempty : word ≠ []) (cs more : List Char) :
    behind same word (cs ++ d :: more) = (behind same word cs).map (· ++ d :: more) := by
  induction word generalizing cs with
  | nil => contradiction
  | cons c word ih =>
    have ⟨here,later⟩ := List.forall_mem_cons.mp other
    cases cs with
    | nil => simp [behind,here]
    | cons e cs =>
      simp only [List.cons_append,behind]
      split
      · cases word with
        | nil => rfl
        | cons f word => exact ih later (by simp) cs
      · rfl

/-! ### Searching -/

theorem findIter_skip (r : Regex) (pre rest : List Char) : r.findIter pre.length (pre ++ rest) = r.findIter 0 rest := by
  induction pre with
  | nil => rfl
  | cons c pre ih => exact ih

theorem findIter_found {rest : List Char} (nonempty : pre ≠ []) (found : r.matchAt (pre ++ rest) = some (caps,rest)) :
    r.findIter 0 (pre ++ rest) = caps :: r.findIter 0 rest := by
  obtain ⟨c,pre,rfl⟩ := List.exists_cons_of_ne_nil nonempty
  rw [List.cons_append] at found ⊢
  rw [findIter,found]
  simp only [List.length_append,Nat.add_sub_cancel]
  rw [findIter_skip]

theorem findIter_missed (missed : r.matchAt (c :: cs) = none) : r.findIter 0 (c :: cs) = r.findIter 0 cs := by
  rw [findIter,missed]

/-- What is found is found at some place. -/
theorem findIter_place {skip : Nat} (found : caps ∈ r.findIter skip cs) :
    ∃ here rest, here <:+ cs ∧ r.matchAt here = some (caps,rest) := by
  induction cs generalizing skip with
  | nil => cases skip <;> cases found
  | cons c cs ih =>
    have later {skip : Nat} (found : caps ∈ r.findIter skip cs) :
        ∃ here rest, here <:+ c :: cs ∧ r.matchAt here = some (caps,rest) := by
      obtain ⟨here,rest,inside,place⟩ := ih found
      exact ⟨here,rest,inside.trans (List.suffix_cons c cs),place⟩
    cases skip with
    | succ skip => exact later found
    | zero =>
      rw [findIter] at found
      split at found
      · next place =>
        obtain rfl | found := List.mem_cons.mp found
        · exact ⟨c :: cs,_,List.suffix_rfl,place⟩
        · exact later found
      · exact later found

/-! ### What a match has come through -/

theorem repeatGreedily_stops (found : repeatGreedily p k' cs = some y) :
    ∃ pre rest, cs = pre ++ rest ∧ (∀ c ∈ pre, p c = true) ∧ k' rest = some y := by
  induction cs with
  | nil => exact ⟨[],[],rfl,by simp,found⟩
  | cons c cs ih =>
    rw [repeatGreedily] at found
    split at found
    · next fits =>
      obtain further | ⟨-,here⟩ := Option.or_eq_some_iff.mp found
      · obtain ⟨pre,rest,parts,all,found⟩ := ih further
        exact ⟨c :: pre,rest,by rw [parts,List.cons_append],by simpa [fits] using all,found⟩
      · exact ⟨[],c :: cs,rfl,by simp,here⟩
    · exact ⟨[],c :: cs,rfl,by simp,found⟩

theorem repeatLazily_stops (found : repeatLazily p k' cs = some y) :
    ∃ pre rest, cs = pre ++ rest ∧ (∀ c ∈ pre, p c = true) ∧ k' rest = some y := by
  induction cs with
  | nil => exact ⟨[],[],rfl,by simp,found⟩
  | cons c cs ih =>
    rw [repeatLazily] at found
    obtain here | ⟨-,further⟩ := Option.or_eq_some_iff.mp found
    · exact ⟨[],c :: cs,rfl,by simp,here⟩
    · split at further
      · next fits =>
        obtain ⟨pre,rest,parts,all,found⟩ := ih further
        exact ⟨c :: pre,rest,by rw [parts,List.cons_append],by simpa [fits] using all,found⟩
      · cases further

theorem run_many_stops {lazily : Bool} (found : (many p lazily).run k cs caps = some x) :
    ∃ pre rest, cs = pre ++ rest ∧ (∀ c ∈ pre, p c = true) ∧ k rest caps = some x := by
  rw [run] at found
  split at found
  · exact repeatLazily_stops found
  · exact repeatGreedily_stops found

/-- A match goes on behind the expression, with its groups. -/
theorem run_goes_on (found : r.run k cs caps = some x) : ∃ pre rest more, cs = pre ++ rest ∧ k rest (caps ++ more) = some x := by
  induction r generalizing k cs caps with
  | empty => exact ⟨[],cs,[],rfl,by simpa [run] using found⟩
  | one p =>
    cases cs with
    | nil => cases found
    | cons c cs =>
      rw [run] at found
      split at found
      · exact ⟨[c],cs,[],rfl,by simpa using found⟩
      · cases found
  | many p lazily =>
    obtain ⟨pre,rest,parts,-,found⟩ := run_many_stops found
    exact ⟨pre,rest,[],parts,by simpa using found⟩
  | seq r s first second =>
    obtain ⟨left,middle,more,parts,found⟩ := first (by simpa [run] using found)
    obtain ⟨right,rest,later,split,found⟩ := second found
    exact ⟨left ++ right,rest,more ++ later,by rw [parts,split,List.append_assoc],by simpa using found⟩
  | group n r ih =>
    obtain ⟨pre,rest,more,parts,found⟩ := ih (by simpa [run] using found)
    exact ⟨pre,rest,_,parts,by simpa using found⟩
  | either r s first second =>
    rw [run] at found
    obtain found | ⟨-,found⟩ := Option.or_eq_some_iff.mp found
    · exact first found
    · exact second found
  | lineEnd =>
    rw [run] at found
    split at found
    · exact ⟨[],cs,[],rfl,by simpa using found⟩
    · cases found
  | textEnd =>
    rw [run] at found
    split at found
    · exact ⟨[],cs,[],rfl,by simpa using found⟩
    · cases found

/-- What a group of one or more characters has taken. -/
theorem run_group_took {lazily : Bool} (found : (group n (atLeastOne p lazily)).run k cs caps = some x) :
    ∃ pre rest, pre ≠ [] ∧ (∀ c ∈ pre, p c = true) ∧ k rest (caps ++ [(n,pre)]) = some x := by
  cases cs with
  | nil => cases found
  | cons c cs =>
    rw [run,atLeastOne,run,run] at found
    split at found
    · next fits =>
      obtain ⟨pre,rest,rfl,all,found⟩ := run_many_stops found
      rw [← List.cons_append,taken] at found
      exact ⟨c :: pre,rest,by simp,by simpa [fits] using all,found⟩
    · cases found

end Regex

end PythonRegex
