import Mathlib.Data.List.DropRight
import Mathlib.Data.List.Infix
import Mathlib.Data.List.TakeWhile

/-! The string operations of Python that the orchestrator applies to error texts and
to output paths. -/
namespace PythonText

/-- Pieces between the occurrences of `sep`, found from left to right. `skip` counts the
characters of a found separator that are still to be passed over. -/
def cut (sep : List Char) : Nat → List Char → List (List Char)
  | _, [] => [[]]
  | skip + 1, _ :: rest => cut sep skip rest
  | 0, c :: rest =>
    if sep.isPrefixOf (c :: rest) then [] :: cut sep (sep.length - 1) rest
    else (cut sep 0 rest).modifyHead (c :: ·)

/-- `text.split(sep)` for a separator that is not empty. -/
def split (sep text : String) : List String := (cut sep.toList 0 text.toList).map String.ofList

/-- `sub in text` -/
def contains (sub text : String) : Bool := text.toList.tails.any sub.toList.isPrefixOf

/-- Code points of the zeros that open the runs of ten decimal digits. -/
def decimalZeros : List Nat :=
  [0x30,0x660,0x6f0,0x7c0,0x966,0x9e6,0xa66,0xae6,0xb66,0xbe6,0xc66,0xce6,0xd66,0xde6,0xe50,0xed0,
    0xf20,0x1040,0x1090,0x17e0,0x1810,0x1946,0x19d0,0x1a80,0x1a90,0x1b50,0x1bb0,0x1c40,0x1c50,0xa620,
    0xa8d0,0xa900,0xa9d0,0xa9f0,0xaa50,0xabf0,0xff10,0x104a0,0x10d30,0x11066,0x110f0,0x11136,0x111d0,
    0x112f0,0x11450,0x114d0,0x11650,0x116c0,0x11730,0x118e0,0x11950,0x11c50,0x11d50,0x11da0,0x16a60,
    0x16ac0,0x16b50,0x1d7ce,0x1d7d8,0x1d7e2,0x1d7ec,0x1d7f6,0x1e140,0x1e2f0,0x1e950,0x1fbf0]

def digit? (c : Char) : Option Nat :=
  (decimalZeros.find? fun first => first ≤ c.toNat && c.toNat < first + 10).map (c.toNat - ·)

/-- What `int` strips from both ends of its argument. -/
def isIntSpace (c : Char) : Bool :=
  let n := c.toNat
  (9 ≤ n && n ≤ 13) || n == 0x20 || n == 0x85 || n == 0xa0 || n == 0x1680 ||
    (0x2000 ≤ n && n ≤ 0x200a) || n == 0x2028 || n == 0x2029 || n == 0x202f || n == 0x205f || n == 0x3000

/-- Digits with single underscores between them; `afterDigit` allows an underscore next. -/
def digits? (afterDigit : Bool) (acc : Nat) : List Char → Option Nat
  | [] => if afterDigit then some acc else none
  | '_' :: rest => if afterDigit then digits? false acc rest else none
  | c :: rest => (digit? c).bind fun d => digits? true (10 * acc + d) rest

/-- The interpreter refuses to convert longer literals. -/
def maxStrDigits : Nat := 4300

/-- `int(text)`; `none` is a `ValueError`. -/
def int? (text : String) : Option Int :=
  let body := ((text.toList.dropWhile isIntSpace).reverse.dropWhile isIntSpace).reverse
  let unsigned (cs : List Char) : Option Nat :=
    if maxStrDigits < cs.countP (· != '_') then none else digits? false 0 cs
  match body with
  | '-' :: rest => (unsigned rest).map fun n => -(n : Int)
  | '+' :: rest => (unsigned rest).map Int.ofNat
  | cs => (unsigned cs).map Int.ofNat

def hexDigits (n : Nat) : List Char := [(n / 16).digitChar,(n % 16).digitChar]

/-- `repr(text)`, with every character beyond ASCII taken as printable. -/
def repr (text : String) : String :=
  let quote : Char := if text.toList.contains '\'' && !text.toList.contains '"' then '"' else '\''
  let escape (c : Char) : List Char :=
    if c == quote || c == '\\' then ['\\',c]
    else if c == '\n' then ['\\','n']
    else if c == '\r' then ['\\','r']
    else if c == '\t' then ['\\','t']
    else if c.toNat < 32 || c.toNat == 127 then ['\\','x'] ++ hexDigits c.toNat
    else [c]
  String.ofList (quote :: text.toList.flatMap escape ++ [quote])

/-- `reprlib.repr` of an object that is no container: the middle of a long text is left out. -/
def reprlib (shown : String) : String :=
  let cs := shown.toList
  if 30 < cs.length then String.ofList (cs.take 13 ++ ['.','.','.'] ++ cs.drop (cs.length - 14)) else shown

/-! ### Reading a text back between two separators -/

/-- No occurrence of `sep` starts inside `pre`. -/
def StartsAfter (sep pre rest : List Char) : Prop :=
  ∀ left right, pre = left ++ right → right ≠ [] → ¬sep <+: right ++ rest

theorem cut_ne_nil (sep : List Char) (skip : Nat) (text : List Char) : cut sep skip text ≠ [] := by
  induction text generalizing skip with
  | nil => simp [cut]
  | cons c rest ih =>
    cases skip with
    | zero => simp only [cut]; split <;> simp [ih]
    | succ skip => exact ih skip

theorem cut_prepend (sep pre rest : List Char) (clear : StartsAfter sep pre rest) :
    cut sep 0 (pre ++ rest) = (cut sep 0 rest).modifyHead (pre ++ ·) := by
  induction pre with
  | nil => cases h : cut sep 0 rest <;> simp [h]
  | cons c pre ih =>
    have here : ¬sep <+: c :: (pre ++ rest) := clear [] (c :: pre) rfl (by simp)
    have later := ih fun left right parts some => clear (c :: left) right (by simp [parts]) some
    simp [cut,here,later,List.modifyHead_modifyHead,Function.comp_def]

theorem cut_found (sep rest : List Char) (some : sep ≠ []) :
    cut sep 0 (sep ++ rest) = [] :: cut sep 0 rest := by
  have skipped (skip : List Char) : cut sep skip.length (skip ++ rest) = cut sep 0 rest := by
    induction skip with
    | nil => rfl
    | cons c skip ih => exact ih
  cases sep with
  | nil => contradiction
  | cons c sep => simpa [cut] using skipped sep

/-- A separator of one character does not start where the character does not stand. -/
theorem startsAfter_char {c : Char} {pre : List Char} (absent : c ∉ pre) (rest : List Char) : StartsAfter [c] pre rest := by
  intro left right parts some here
  obtain ⟨d,right,rfl⟩ := List.exists_cons_of_ne_nil some
  have same := (List.cons_prefix_cons.mp here).1
  exact absent (parts ▸ List.mem_append_right left (same ▸ List.mem_cons_self))

/-- A prefix of a concatenation ends in the first part or reaches into the second. -/
theorem prefix_append_cases {sep r tail : List Char} (found : sep <+: r ++ tail) :
    sep <+: r ∨ ∃ k, k ≠ [] ∧ sep = r ++ k ∧ k <+: tail := by
  rcases List.prefix_or_prefix_of_prefix found (List.prefix_append r tail) with inside | ⟨k,rfl⟩
  · exact .inl inside
  · cases k with
    | nil => exact .inl (by simp)
    | cons c k => exact .inr ⟨c :: k,by simp,rfl,(List.prefix_append_right_inj r).mp found⟩

theorem contains_iff (sub text : String) : contains sub text = true ↔ sub.toList <:+: text.toList := by
  simp [contains,List.infix_iff_prefix_suffix,and_comm]

/-- A text without the separator is one piece. -/
theorem cut_clear {sep text : List Char} (clear : ¬sep <:+: text) : cut sep 0 text = [text] := by
  have starts : StartsAfter sep text [] := by
    intro left right parts _ here
    rw [List.append_nil] at here
    obtain ⟨rest,rfl⟩ := here
    exact clear ⟨left,rest,by rw [parts,List.append_assoc]⟩
  have whole := cut_prepend sep text [] starts
  rw [List.append_nil] at whole
  simpa [cut] using whole

theorem cut_head_begins {sep text piece : List Char} {more : List (List Char)} (cuts : cut sep 0 text = piece :: more) :
    piece <+: text := by
  induction text generalizing piece more with
  | nil =>
    cases cuts
    exact List.nil_prefix
  | cons c rest ih =>
    simp only [cut] at cuts
    split at cuts
    · cases cuts
      exact List.nil_prefix
    · obtain ⟨head,tail,later⟩ := List.exists_cons_of_ne_nil (cut_ne_nil sep 0 rest)
      rw [later] at cuts
      cases cuts
      exact (List.prefix_cons_inj c).mpr (ih later)

/-- No piece contains the separator. -/
theorem cut_pieces_clear {sep : List Char} (some : sep ≠ []) (skip : Nat) (text : List Char) :
    ∀ piece ∈ cut sep skip text, ¬sep <:+: piece := by
  have empty : ¬sep <:+: [] := fun inside => some (List.infix_nil.mp inside)
  induction text generalizing skip with
  | nil => simpa [cut] using some
  | cons c rest ih =>
    cases skip with
    | succ skip => exact ih skip
    | zero =>
      simp only [cut]
      split
      · exact List.forall_mem_cons.mpr ⟨empty,ih _⟩
      · next here =>
        obtain ⟨head,tail,later⟩ := List.exists_cons_of_ne_nil (cut_ne_nil sep 0 rest)
        have ⟨first,others⟩ := List.forall_mem_cons.mp (later ▸ ih 0)
        rw [later]
        refine List.forall_mem_cons.mpr ⟨fun inside => ?_,others⟩
        rcases List.infix_cons_iff.mp inside with starts | deeper
        · refine here (List.isPrefixOf_iff_prefix.mpr (starts.trans ?_))
          exact (List.prefix_cons_inj c).mpr (cut_head_begins later)
        · exact first deeper

/-! ### Surrounding white space -/

/-- What `str.strip` removes: the separators U+001C to U+001F besides the spaces of `int`. -/
def isSpace (c : Char) : Bool := isIntSpace c || (0x1c ≤ c.toNat && c.toNat ≤ 0x1f)

def stripChars (cs : List Char) : List Char := (cs.dropWhile isSpace).rdropWhile isSpace

/-- `text.strip()` -/
def strip (text : String) : String := String.ofList (stripChars text.toList)

theorem stripChars_inside (cs : List Char) : stripChars cs <:+: cs :=
  (List.rdropWhile_prefix _ _).isInfix.trans (List.dropWhile_suffix _).isInfix

/-- Stripping takes away spaces only. -/
theorem count_stripChars {c : Char} (visible : isSpace c = false) (cs : List Char) : (stripChars cs).count c = cs.count c := by
  have dropped (cs : List Char) : (cs.dropWhile isSpace).count c = cs.count c := by
    induction cs with
    | nil => rfl
    | cons d rest ih =>
      rw [List.dropWhile_cons]
      split
      · next space =>
        have other : d ≠ c := fun same => by rw [same,visible] at space; cases space
        rw [ih,List.count_cons_of_ne other]
      · rfl
  rw [stripChars,List.rdropWhile,List.count_reverse,dropped,List.count_reverse,dropped]

/-- A stripped text neither starts nor ends with a space. -/
theorem stripped_ends {cs : List Char} (stripped : stripChars cs = cs) :
    (∀ c ∈ cs.head?, isSpace c = false) ∧ ∀ c ∈ cs.getLast?, isSpace c = false := by
  have shorter := (List.rdropWhile_prefix isSpace (cs.dropWhile isSpace)).length_le
  have whole : cs.length = (List.rdropWhile isSpace (cs.dropWhile isSpace)).length := by rw [← stripChars,stripped]
  have front : cs.dropWhile isSpace = cs :=
    (List.dropWhile_suffix isSpace).eq_of_length_le (by omega)
  have back : cs.rdropWhile isSpace = cs := by rwa [stripChars,front] at stripped
  constructor
  · intro c first
    cases cs with
    | nil => cases first
    | cons d rest =>
      cases first
      simpa using List.dropWhile_eq_self_iff.mp front (Nat.succ_pos _)
  · intro c last
    obtain ⟨nonempty,rfl⟩ := List.mem_getLast?_eq_getLast last
    simpa using List.rdropWhile_eq_self_iff.mp back nonempty

theorem stripChars_eq_self {cs : List Char} (first : ∀ c ∈ cs.head?, isSpace c = false)
    (last : ∀ c ∈ cs.getLast?, isSpace c = false) : stripChars cs = cs := by
  have front : cs.dropWhile isSpace = cs := by
    cases cs with
    | nil => rfl
    | cons c rest => simp [first c rfl]
  rw [stripChars,front,List.rdropWhile_eq_self_iff]
  intro some
  simp [last (cs.getLast some) (List.getLast?_eq_some_getLast some)]

/-- The spaces around a text are what is stripped. -/
theorem stripChars_around {before text after : List Char} (front : ∀ c ∈ before, isSpace c = true)
    (back : ∀ c ∈ after, isSpace c = true) (first : ∀ c ∈ text.head?, isSpace c = false)
    (last : ∀ c ∈ text.getLast?, isSpace c = false) (nonempty : text ≠ []) : stripChars (before ++ text ++ after) = text := by
  have started : (before ++ text ++ after).dropWhile isSpace = text ++ after := by
    rw [List.append_assoc,List.dropWhile_append_of_pos front]
    obtain ⟨c,rest,rfl⟩ := List.exists_cons_of_ne_nil nonempty
    rw [List.cons_append,List.dropWhile_cons_of_neg (by simp [first c rfl])]
  have trailing : ∀ c ∈ after.reverse, isSpace c = true := fun c member => back c (List.mem_reverse.mp member)
  rw [stripChars,started,List.rdropWhile,List.reverse_append,List.dropWhile_append_of_pos trailing,← List.rdropWhile,
    List.rdropWhile_eq_self_iff]
  intro some
  simp [last (text.getLast some) (List.getLast?_eq_some_getLast some)]

theorem stripChars_idem (cs : List Char) : stripChars (stripChars cs) = stripChars cs := by
  -- what is left starts where the text without its leading spaces starts
  have front : (stripChars cs).dropWhile isSpace = stripChars cs := by
    rw [List.dropWhile_eq_self_iff]
    intro some
    have longer := (List.rdropWhile_prefix isSpace (cs.dropWhile isSpace)).length_le
    have first := (List.rdropWhile_prefix isSpace (cs.dropWhile isSpace)).getElem some
    have stays := List.dropWhile_eq_self_iff.mp (List.dropWhile_idempotent isSpace cs) (some.trans_le longer)
    rw [← first] at stays
    exact stays
  calc stripChars (stripChars cs) = (stripChars cs).rdropWhile isSpace := congrArg (List.rdropWhile isSpace) front
    _ = stripChars cs := List.rdropWhile_idempotent isSpace _

@[simp] theorem strip_strip (text : String) : strip (strip text) = strip text := by
  simp [strip,stripChars_idem]

theorem strip_space_append (text : String) : strip (" " ++ text) = strip text := by
  have space : isSpace ' ' = true := by decide
  simp [strip,stripChars,space]

/-! ### Numbers -/

section

variable {c : Char} {cs : List Char} {n : Nat}

theorem decimal_plain (decimal : (digit? c).isSome = true) : isIntSpace c = false ∧ c ≠ '_' ∧ c ≠ '-' ∧ c ≠ '+' := by
  rw [digit?,Option.isSome_map,List.find?_isSome] at decimal
  obtain ⟨first,member,fits⟩ := decimal
  simp only [Bool.and_eq_true,decide_eq_true_eq] at fits
  have value : c = Char.ofNat (first + (c.toNat - first)) := by
    rw [Nat.add_sub_cancel' fits.1,Char.ofNat_toNat]
  have plain : ∀ first ∈ decimalZeros, ∀ k < 10, isIntSpace (Char.ofNat (first + k)) = false ∧ Char.ofNat (first + k) ≠ '_' ∧
    Char.ofNat (first + k) ≠ '-' ∧ Char.ofNat (first + k) ≠ '+' := by decide
  rw [value]
  exact plain first member _ (by omega)

theorem dropWhile_clear {p : Char → Bool} (clear : ∀ c ∈ cs, p c = false) : cs.dropWhile p = cs := by
  cases cs with
  | nil => rfl
  | cons c rest => simp [clear c List.mem_cons_self]

theorem digits?_isSome (decimals : ∀ c ∈ cs, (digit? c).isSome = true) {afterDigit : Bool}
    (some : afterDigit = true ∨ cs ≠ []) (acc : Nat) : (digits? afterDigit acc cs).isSome = true := by
  induction cs generalizing afterDigit acc with
  | nil => simpa [digits?] using some
  | cons c cs ih =>
    have ⟨here,later⟩ := List.forall_mem_cons.mp decimals
    obtain ⟨d,value⟩ := Option.isSome_iff_exists.mp here
    rw [digits?,value,Option.bind_some]
    · exact ih later (.inl rfl) _
    · exact (decimal_plain here).2.1

/-- Digits are read, unless they are too many. -/
theorem int?_decimals (decimals : ∀ c ∈ cs, (digit? c).isSome = true) (nonempty : cs ≠ []) :
    int? (String.ofList cs) = if maxStrDigits < cs.length then none else (digits? false 0 cs).map Int.ofNat := by
  have trimmed : ((cs.dropWhile isIntSpace).reverse.dropWhile isIntSpace).reverse = cs := by
    rw [dropWhile_clear fun c member => (decimal_plain (decimals c member)).1,dropWhile_clear,List.reverse_reverse]
    exact fun c member => (decimal_plain (decimals c (List.mem_reverse.mp member))).1
  have counted : cs.countP (· != '_') = cs.length := by
    rw [List.countP_eq_length]
    exact fun c member => bne_iff_ne.mpr (decimal_plain (decimals c member)).2.1
  obtain ⟨c,rest,rfl⟩ := List.exists_cons_of_ne_nil nonempty
  have ⟨_,_,minus,plus⟩ := decimal_plain (decimals c List.mem_cons_self)
  rw [int?,String.toList_ofList,trimmed]
  dsimp only
  split
  · next same => exact absurd (List.cons.inj same).1 minus
  · next same => exact absurd (List.cons.inj same).1 plus
  · rw [counted]
    split <;> rfl

theorem digits?_none {text : List Char} (member : c ∈ text) (other : digit? c = none) (underscore : c ≠ '_')
    (afterDigit : Bool) (acc : Nat) : digits? afterDigit acc text = none := by
  fun_induction digits? afterDigit acc text with
  | case1 => cases member
  | case2 => cases member
  | case3 acc rest ih =>
    obtain rfl | later := List.mem_cons.mp member
    · exact absurd rfl underscore
    · exact ih later
  | case4 => rfl
  | case5 afterDigit acc d rest plain ih =>
    obtain rfl | later := List.mem_cons.mp member
    · rw [other]
      rfl
    · cases digit? d with
      | none => rfl
      | some value => exact ih value later

theorem mem_dropWhile {p : Char → Bool} {text : List Char} (member : c ∈ text) (stays : p c = false) : c ∈ text.dropWhile p := by
  rw [← List.takeWhile_append_dropWhile (p := p) (l := text),List.mem_append] at member
  obtain before | behind := member
  · rw [List.mem_takeWhile_imp before] at stays
    cases stays
  · exact behind

/-- A text with a character that belongs to no number is none. -/
theorem int?_none {text : String} (member : c ∈ text.toList) (space : isIntSpace c = false) (other : digit? c = none)
    (signs : c ∉ ['_','-','+']) : int? text = none := by
  simp only [List.mem_cons,List.not_mem_nil,or_false,not_or] at signs
  obtain ⟨underscore,minus,plus⟩ := signs
  have inside : c ∈ ((text.toList.dropWhile isIntSpace).reverse.dropWhile isIntSpace).reverse :=
    List.mem_reverse.mpr (mem_dropWhile (List.mem_reverse.mpr (mem_dropWhile member space)) space)
  rw [int?]
  generalize ((text.toList.dropWhile isIntSpace).reverse.dropWhile isIntSpace).reverse = body at inside
  have unread (cs : List Char) (member : c ∈ cs) :
      (if maxStrDigits < cs.countP (· != '_') then none else digits? false 0 cs) = none := by
    rw [digits?_none member other underscore,ite_self]
  dsimp only
  split
  · rw [unread _ (List.mem_of_ne_of_mem minus inside)]
    rfl
  · rw [unread _ (List.mem_of_ne_of_mem plus inside)]
    rfl
  · rw [unread _ inside]
    rfl

/-! Those in ASCII. -/

theorem digit_code (digit : c.isDigit = true) : 0x30 ≤ c.toNat ∧ c.toNat ≤ 0x39 := Char.isDigit_iff_toNat.mp digit

theorem digit?_ascii (digit : c.isDigit = true) : digit? c = some (c.toNat - '0'.toNat) := by
  have ⟨low,high⟩ := digit_code digit
  have fits : (decide (0x30 ≤ c.toNat) && decide (c.toNat < 0x30 + 10)) = true := by
    simp only [Bool.and_eq_true,decide_eq_true_eq]
    omega
  have found : decimalZeros.find? (fun first => first ≤ c.toNat && c.toNat < first + 10) = some 0x30 :=
    List.find?_cons_of_pos (l := decimalZeros.tail) fits
  rw [digit?,found]
  rfl

theorem isSpace_digit (digit : c.isDigit = true) : isSpace c = false := by
  have plain := (decimal_plain (c := c) (by simp [digit?_ascii digit])).1
  have ⟨low,high⟩ := digit_code digit
  simp only [isSpace,plain,Bool.false_or,Bool.and_eq_false_iff,decide_eq_false_iff_not]
  omega

theorem digits?_ascii (digits : ∀ c ∈ cs, c.isDigit = true) {afterDigit : Bool} (some : afterDigit = true ∨ cs ≠ [])
    (acc : Nat) : digits? afterDigit acc cs = .some (Nat.ofDigitChars 10 cs acc) := by
  induction cs generalizing afterDigit acc with
  | nil => simpa [digits?] using some
  | cons c cs ih =>
    have ⟨here,later⟩ := List.forall_mem_cons.mp digits
    rw [digits?,digit?_ascii here,Option.bind_some,ih later (.inl rfl),Nat.ofDigitChars_cons]
    exact (decimal_plain (c := c) (by simp [digit?_ascii here])).2.1

/-- A number is read back, unless it is too long. -/
theorem int?_toDigits (n : Nat) :
    int? (String.ofList (Nat.toDigits 10 n)) =
      if maxStrDigits < (Nat.toDigits 10 n).length then none else some (n : Int) := by
  have digits : ∀ c ∈ Nat.toDigits 10 n, c.isDigit = true := fun c member =>
    Nat.isDigit_of_mem_toDigits (by decide) (by decide) member
  have value : Nat.ofDigitChars 10 (Nat.toDigits 10 n) 0 = n := Nat.ofDigitChars_ten_toDigits
  rw [int?_decimals (fun c member => by simp [digit?_ascii (digits c member)]) Nat.toDigits_ne_nil,
    digits?_ascii digits (.inr Nat.toDigits_ne_nil),value]
  rfl

end

end PythonText
