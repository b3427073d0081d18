import IceOS.JsonRoundTrip
import IceOS.PythonText

/-! What may stand around a value: blanks that change nothing, and a fence behind it that cannot be read. -/
namespace PythonJson

variable {φ : Type} (f : FloatTexts φ)

theorem loads_eq_some {text : String} {v : Json φ} : loads f text = some v ↔
    ∃ rest, scanValue f (2 * (skipSpace text.toList).length + 1) (skipSpace text.toList) = some (v,rest) ∧ skipSpace rest = [] := by
  simp only [loads]
  split
  · next w rest scanned =>
    rw [scanned]
    constructor
    · intro loaded
      split at loaded
      · next blank =>
        cases loaded
        exact ⟨rest,rfl,blank⟩
      · cases loaded
    · rintro ⟨left,same,blank⟩
      cases same
      rw [if_pos blank]
  · next failed => simp [failed]

theorem edge_shown {c : Char} (edge : atEdge c = true) : PythonText.isSpace c = false ∧ c ≠ '\x60' := by
  simp only [atEdge,Bool.or_eq_true,decide_eq_true_eq] at edge
  obtain edge | digit := edge
  · have shown : "\"[]\x7b\x7d-ntfNIley".toList.all (fun c => !PythonText.isSpace c && c != '\x60') = true := by decide
    have own := List.all_eq_true.mp shown c (by simpa [or_assoc] using edge)
    simpa using own
  · refine ⟨PythonText.isSpace_digit digit,?_⟩
    rintro rfl
    cases digit

theorem space_blank {c : Char} (space : isSpace c = true) : PythonText.isSpace c = true ∧ c ≠ '\x60' := by
  simp only [isSpace,Bool.or_eq_true,beq_iff_eq] at space
  obtain ((rfl | rfl) | rfl) | rfl := space <;> decide

theorem blanks_of_skipSpace {cs : List Char} (blank : skipSpace cs = []) : ∀ c ∈ cs, isSpace c = true :=
  List.dropWhile_eq_nil_iff.mp blank

theorem scan_head {c : Char} {cs : List Char} {read : Numeral × List Char} (scanned : Numeral.scan (c :: cs) = some read) :
    atEdge c = true := by
  obtain ⟨whole,found,-⟩ := Option.map_eq_some_iff.mp scanned
  by_cases minus : c = '-'
  · rw [minus]
    rfl
  · rw [Numeral.scanMinus,if_neg minus] at found
    simp only [Numeral.scanWhole] at found
    split at found
    · next zero =>
      rw [zero]
      rfl
    · split at found
      · next digit => simp [atEdge,digit]
      · cases found

/-- What a value begins with. -/
theorem scanValue_head {fuel : Nat} {c : Char} {cs rest : List Char} {v : Json φ}
    (scanned : scanValue f fuel (c :: cs) = some (v,rest)) : atEdge c = true := by
  cases fuel with
  | zero => cases scanned
  | succ fuel =>
    by_cases quote : c = '"'
    · rw [quote]
      rfl
    by_cases bracket : c = '['
    · rw [bracket]
      rfl
    by_cases brace : c = '{'
    · rw [brace]
      rfl
    rw [scanValue_plain f quote bracket brace] at scanned
    obtain constant | ⟨-,number⟩ := Option.or_eq_some_iff.mp scanned
    · obtain ⟨word,listed,text,-⟩ := scanWord_again constant
      simp only [constants,List.mem_cons,Prod.mk.injEq,List.not_mem_nil,or_false] at listed
      rcases listed with ⟨rfl,-⟩ | ⟨rfl,-⟩ | ⟨rfl,-⟩ | ⟨rfl,-⟩ | ⟨rfl,-⟩ | ⟨rfl,-⟩ <;>
        (obtain ⟨rfl,-⟩ := List.cons.inj text; rfl)
    · obtain ⟨read,found,-⟩ := Option.bind_eq_some_iff.mp number
      exact scan_head found

/-- A text that is read is a value with blanks around it. -/
theorem loads_parts {text : String} {v : Json φ} (loaded : loads f text = some v) : ∃ blanks core after,
    text.toList = blanks ++ core ++ after ∧ (∀ c ∈ blanks, isSpace c = true) ∧ (∀ c ∈ after, isSpace c = true) ∧
      Closed core ∧ (∀ c ∈ core.head?, atEdge c = true) ∧ loads f (String.ofList core) = some v := by
  obtain ⟨rest,scanned,blank⟩ := (loads_eq_some f).mp loaded
  obtain ⟨core,split,closed,again⟩ := (scanners_read f _).1 _ _ _ scanned
  obtain ⟨first,more,rfl⟩ := closed.cons_eq
  have edge : atEdge first = true := scanValue_head f (by rw [split] at scanned; exact scanned)
  refine ⟨text.toList.takeWhile isSpace,first :: more,rest,?_,fun c => List.mem_takeWhile_imp,blanks_of_skipSpace blank,closed,
    by simpa using edge,?_⟩
  · rw [List.append_assoc,← split,skipSpace,List.takeWhile_append_dropWhile]
  · have start : skipSpace (first :: more) = first :: more := List.dropWhile_cons_of_neg (by simp [edge_visible edge])
    have whole := again [] List.nil_prefix
    rw [List.append_nil] at whole
    have longer : 2 * (first :: more).length + 1 ≤ 2 * (skipSpace text.toList).length + 1 := by
      rw [split,List.length_append]
      omega
    have fuel : 2 * (skipSpace (String.ofList (first :: more)).toList).length < 2 * (skipSpace text.toList).length + 1 := by
      rw [String.toList_ofList,start]
      omega
    rw [loads_fuel f _ fuel,String.toList_ofList,start,whole]
    rfl

/-- `strip` takes nothing of a value. -/
theorem loads_strip {text : String} {v : Json φ} (loaded : loads f text = some v) :
    loads f (PythonText.strip text) = some v ∧ ∀ c ∈ (PythonText.strip text).toList.head?, c ≠ '\x60' := by
  obtain ⟨blanks,core,after,split,front,back,⟨last,ends,edge⟩,first,own⟩ := loads_parts f loaded
  have stripped : PythonText.stripChars text.toList = core := by
    rw [split]
    refine PythonText.stripChars_around (fun c member => (space_blank (front c member)).1)
      (fun c member => (space_blank (back c member)).1) (fun c member => (edge_shown (first c member)).1) ?_ ?_
    · rw [ends]
      rintro c same
      exact Option.some.inj same ▸ (edge_shown edge).1
    · rintro rfl
      cases ends
  rw [PythonText.strip,stripped,String.toList_ofList]
  exact ⟨own,fun c member => (edge_shown (first c member)).2⟩

/-- Nothing that ends with a backquote is read. -/
theorem loads_backquote {text : String} (fenced : text.toList.getLast? = some '\x60') : loads f text = none := by
  by_contra loaded
  obtain ⟨v,loaded⟩ := Option.ne_none_iff_exists'.mp loaded
  obtain ⟨blanks,core,after,split,-,back,⟨last,ends,edge⟩,-,-⟩ := loads_parts f loaded
  rw [split,List.getLast?_append] at fenced
  cases final : after.getLast? with
  | none =>
    rw [final,Option.none_or,List.getLast?_append,ends,Option.some_or] at fenced
    exact (edge_shown edge).2 (Option.some.inj fenced)
  | some c =>
    rw [final,Option.some_or] at fenced
    exact (space_blank (back c (List.mem_of_getLast? final))).2 (Option.some.inj fenced)

/-! ### Lengths -/

theorem joinUnits_length (us : List Nat) : (joinUnits us).length ≤ us.length := by
  fun_induction joinUnits us with
  | case1 => exact Nat.le_refl _
  | case2 => exact Nat.le_refl _
  | case3 u v rest pair ih =>
    simp only [List.length_cons]
    omega
  | case4 u v rest single ih =>
    simp only [List.length_cons] at ih ⊢
    omega

theorem scanString_length {cs rest : List Char} {text : String} (scanned : scanString cs = some (text,rest)) :
    text.length ≤ cs.length := by
  obtain ⟨⟨us,left⟩,units,same⟩ := Option.map_eq_some_iff.mp scanned
  cases same
  obtain ⟨pre,split,short,-⟩ := scanUnits_reads units
  have joined := joinUnits_length us
  rw [String.length_ofList,split,List.length_append]
  dsimp only at short ⊢
  omega

/-- A string is shorter than the text it is read from. -/
theorem scanValue_str {fuel : Nat} {cs rest : List Char} {text : String} (scanned : scanValue f fuel cs = some (.str text,rest)) :
    text.length < cs.length := by
  cases fuel with
  | zero => cases scanned
  | succ fuel =>
    cases cs with
    | nil => cases scanned
    | cons c cs =>
      simp only [scanValue] at scanned
      split at scanned
      · obtain ⟨⟨string,left⟩,found,same⟩ := Option.map_eq_some_iff.mp scanned
        cases same
        exact Nat.lt_succ_of_le (scanString_length found)
      split at scanned
      · split at scanned
        · cases scanned
        · obtain ⟨read,-,same⟩ := Option.map_eq_some_iff.mp scanned
          cases same
      split at scanned
      · split at scanned
        · cases scanned
        · obtain ⟨read,-,same⟩ := Option.map_eq_some_iff.mp scanned
          cases same
      obtain constant | ⟨-,number⟩ := Option.or_eq_some_iff.mp scanned
      · obtain ⟨word,listed,-⟩ := scanWord_again constant
        simp [constants] at listed
      · obtain ⟨read,-,value⟩ := Option.bind_eq_some_iff.mp number
        obtain ⟨w,made,same⟩ := Option.map_eq_some_iff.mp value
        cases same
        rw [numeralValue] at made
        split at made
        · cases made
        · split at made <;> cases made

theorem loads_str_length {text string : String} (loaded : loads f text = some (.str string)) : string.length < text.length := by
  obtain ⟨rest,scanned,-⟩ := (loads_eq_some f).mp loaded
  have shorter := scanValue_str f scanned
  have skipped := skipSpace_length text.toList
  rw [← String.length_toList (s := text)]
  omega

end PythonJson
