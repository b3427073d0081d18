import IceOS.PythonText

/-! The words of a text, and the text of a list of words. -/
namespace PythonText

/-- The words between runs of white space. -/
def wordsOf (cs : List Char) : List (List Char) := (cs.splitOnP isSpace).filter (· ≠ [])

/-- `text.split()` -/
def words (text : String) : List String := (wordsOf text.toList).map String.ofList

/-- `" ".join(words)` -/
def joinWords (words : List String) : String := String.ofList ([' '].intercalate (words.map String.toList))

/-- What `split` may return: no word is empty or holds white space. -/
def IsWord (w : List Char) : Prop := w ≠ [] ∧ ∀ c ∈ w, isSpace c = false

theorem splitOnP_clear (cs : List Char) : ∀ piece ∈ cs.splitOnP isSpace, ∀ c ∈ piece, isSpace c = false := by
  induction cs with
  | nil => simp
  | cons c rest ih =>
    rw [List.splitOnP_cons_eq_if_modifyHead]
    cases space : isSpace c with
    | true =>
      intro piece member
      rcases List.mem_cons.mp member with rfl | later
      · intro d none
        cases none
      · exact ih piece later
    | false =>
      cases pieces : rest.splitOnP isSpace with
      | nil => exact absurd pieces (List.splitOnP_ne_nil isSpace rest)
      | cons first others =>
        rw [pieces] at ih
        obtain ⟨own,behind⟩ := List.forall_mem_cons.mp ih
        exact List.forall_mem_cons.mpr ⟨List.forall_mem_cons.mpr ⟨space,own⟩,behind⟩

theorem wordsOf_isWord (cs : List Char) : ∀ w ∈ wordsOf cs, IsWord w := by
  intro w member
  obtain ⟨piece,some⟩ := List.mem_filter.mp member
  exact ⟨of_decide_eq_true some,splitOnP_clear cs w piece⟩

/-- Words that are joined are split again. -/
theorem wordsOf_intercalate (ws : List (List Char)) (wordwise : ∀ w ∈ ws, IsWord w) :
    wordsOf ([' '].intercalate ws) = ws := by
  induction ws with
  | nil => rfl
  | cons first rest ih =>
    obtain ⟨⟨some,clear⟩,later⟩ := List.forall_mem_cons.mp wordwise
    cases rest with
    | nil => simp [wordsOf,List.intercalate,List.splitOnP_eq_singleton clear,some]
    | cons second rest =>
      have space : isSpace ' ' = true := by decide
      have split := ih later
      simp only [wordsOf] at split ⊢
      rw [List.intercalate_cons_cons,List.append_assoc,List.singleton_append,
        List.splitOnP_append_cons_of_forall_mem clear ' ' space,List.filter_cons_of_pos (by simpa using some),split]

theorem intercalate_head? {first : List Char} (some : first ≠ []) (rest : List (List Char)) :
    ([' '].intercalate (first :: rest)).head? = first.head? := by
  cases rest with
  | nil => simp [List.intercalate]
  | cons second rest =>
    rw [List.intercalate_cons_cons,List.append_assoc,List.head?_append_of_ne_nil _ some]

theorem intercalate_getLast? (ws : List (List Char)) (wordwise : ∀ w ∈ ws, IsWord w) :
    ∀ c ∈ ([' '].intercalate ws).getLast?, isSpace c = false := by
  induction ws with
  | nil =>
    intro c none
    cases none
  | cons first rest ih =>
    obtain ⟨⟨-,clear⟩,later⟩ := List.forall_mem_cons.mp wordwise
    cases rest with
    | nil =>
      intro c last
      exact clear c (List.mem_of_getLast? (by simpa [List.intercalate] using last))
    | cons second rest =>
      rw [List.intercalate_cons_cons,List.getLast?_append_of_ne_nil]
      · exact ih later
      · intro empty
        have split := wordsOf_intercalate (second :: rest) later
        rw [empty] at split
        cases split

/-- Joined words have no white space at their ends. -/
theorem stripChars_intercalate (ws : List (List Char)) (wordwise : ∀ w ∈ ws, IsWord w) :
    stripChars ([' '].intercalate ws) = [' '].intercalate ws := by
  refine stripChars_eq_self ?_ (intercalate_getLast? ws wordwise)
  cases ws with
  | nil =>
    intro c none
    cases none
  | cons first rest =>
    obtain ⟨some,clear⟩ := wordwise first List.mem_cons_self
    rw [intercalate_head? some]
    exact fun c head => clear c (List.mem_of_mem_head? head)

/-- Joining some words of a text, stripping and splitting again gives the same words. -/
theorem words_strip_joinWords (text : String) {some : List String} (taken : ∀ w ∈ some, w ∈ words text) :
    words (strip (joinWords some)) = some := by
  have wordwise : ∀ w ∈ some.map String.toList, IsWord w := by
    intro w member
    obtain ⟨word,inside,rfl⟩ := List.mem_map.mp member
    obtain ⟨w,inText,rfl⟩ := List.mem_map.mp (taken word inside)
    rw [String.toList_ofList]
    exact wordsOf_isWord text.toList w inText
  simp only [words,strip,joinWords,String.toList_ofList]
  rw [stripChars_intercalate _ wordwise,wordsOf_intercalate _ wordwise]
  simp

end PythonText
