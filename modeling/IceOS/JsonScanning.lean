import IceOS.PythonJson
import Mathlib.Data.List.TakeWhile

/-! What a scanner reads ends with a sign, a letter or a digit, and it is read alike if the text stops anywhere behind
it. -/
namespace PythonJson

/-- The characters that a value may begin and end with. -/
def atEdge (c : Char) : Bool :=
  c = '"' || c = '[' || c = ']' || c = '{' || c = '}' || c = '-' || c = 'n' || c = 't' || c = 'f' || c = 'N' || c = 'I' ||
    c = 'l' || c = 'e' || c = 'y' || c.isDigit

def Closed (pre : List Char) : Prop := ∃ last, pre.getLast? = some last ∧ atEdge last = true

/-- The reading of `pre` in front of `rest`, and of what is kept of it. -/
structure ReadAs (scanner : List Char → Option (α × List Char)) (cs pre rest : List Char) (v : α) : Prop where
  text : cs = pre ++ rest
  closed : Closed pre
  again : ∀ kept, kept <+: rest → scanner (pre ++ kept) = some (v,kept)

/-- Whatever is scanned is read. -/
def Reads (scanner : List Char → Option (α × List Char)) : Prop :=
  ∀ cs v rest, scanner cs = some (v,rest) → ∃ pre, ReadAs scanner cs pre rest v

theorem Closed.append {pre : List Char} (closed : Closed pre) (front : List Char) : Closed (front ++ pre) := by
  obtain ⟨last,ends,edge⟩ := closed
  refine ⟨last,?_,edge⟩
  rw [List.getLast?_append,ends]
  rfl

theorem Closed.cons {pre : List Char} (closed : Closed pre) (c : Char) : Closed (c :: pre) := closed.append [c]

theorem Closed.append_part {pre part : List Char} (closed : Closed pre) (ends : part = [] ∨ Closed part) :
    Closed (pre ++ part) := by
  obtain rfl | ends := ends
  · rwa [List.append_nil]
  · exact ends.append pre

theorem closed_concat {last : Char} (edge : atEdge last = true) (front : List Char) : Closed (front ++ [last]) :=
  ⟨last,by simp,edge⟩

theorem Closed.cons_eq {pre : List Char} (closed : Closed pre) : ∃ first more, pre = first :: more := by
  obtain ⟨last,ends,-⟩ := closed
  exact List.exists_cons_of_ne_nil (by rintro rfl; cases ends)

theorem prefix_cons_append {a b : List Char} (inside : a <+: b) (front : List Char) : front ++ a <+: front ++ b :=
  (List.prefix_append_right_inj front).mpr inside

theorem prefix_behind {a b : List Char} (inside : a <+: b) (front : List Char) (c : Char) :
    front ++ c :: a <+: front ++ c :: b :=
  prefix_cons_append (List.cons_prefix_cons.mpr ⟨rfl,inside⟩) front

/-! ### Blanks -/

/-- The blanks in front of a character are passed over, whatever stands behind it. -/
theorem skipSpace_again {cs rest : List Char} {c : Char} (skipped : skipSpace cs = c :: rest) :
    ∃ blanks, cs = blanks ++ c :: rest ∧ ∀ other, skipSpace (blanks ++ c :: other) = c :: other := by
  refine ⟨cs.takeWhile isSpace,?_,fun other => ?_⟩
  · rw [← skipped,skipSpace,List.takeWhile_append_dropWhile]
  · have visible : isSpace c = false := by
      rw [skipSpace] at skipped
      have first := List.head_dropWhile_not isSpace (l := cs) (by simp [skipped])
      simpa [skipped] using first
    rw [skipSpace,List.dropWhile_append_of_pos fun d => List.mem_takeWhile_imp,
      List.dropWhile_cons_of_neg (by simp [visible])]

theorem edge_visible {c : Char} (edge : atEdge c = true) : isSpace c = false := by
  by_contra space
  simp only [isSpace,Bool.not_eq_false,Bool.or_eq_true,beq_iff_eq] at space
  rcases space with ((rfl | rfl) | rfl) | rfl <;> cases edge

/-- What a text begins with behind its blanks, does not depend on where it stops. -/
theorem Closed.begins {pre : List Char} (closed : Closed pre) :
    ∃ first more, ∀ rest, skipSpace (pre ++ rest) = first :: (more ++ rest) := by
  obtain ⟨last,ends,edge⟩ := closed
  have visible : skipSpace pre ≠ [] := fun blank => by
    have space := List.dropWhile_eq_nil_iff.mp blank last (List.mem_of_getLast? ends)
    rw [edge_visible edge] at space
    cases space
  obtain ⟨first,more,same⟩ := List.exists_cons_of_ne_nil visible
  refine ⟨first,more,fun rest => ?_⟩
  rw [skipSpace] at same
  simp [skipSpace,List.dropWhile_append,same]

theorem Closed.begins_other {pre rest : List Char} {c : Char} (closed : Closed pre)
    (other : ∀ left, skipSpace (pre ++ rest) ≠ c :: left) (kept left : List Char) : skipSpace (pre ++ kept) ≠ c :: left := by
  obtain ⟨first,more,skipped⟩ := closed.begins
  intro same
  rw [skipped] at same
  exact other _ ((skipped rest).trans (by rw [(List.cons.inj same).1]))

/-! ### Strings -/

theorem scanUnits_reads {cs : List Char} {read : List Nat × List Char} (scanned : scanUnits cs = some read) :
    ∃ pre, cs = pre ++ '"' :: read.2 ∧ read.1.length ≤ pre.length ∧
      ∀ kept, scanUnits (pre ++ '"' :: kept) = some (read.1,kept) := by
  fun_induction scanUnits cs generalizing read with
  | case1 => cases scanned
  | case2 rest =>
    cases scanned
    exact ⟨[],rfl,Nat.le_refl _,fun kept => by rw [List.nil_append,scanUnits.eq_def]; simp⟩
  | case3 => cases scanned
  | case4 a b c d rest _ ih =>
    obtain ⟨u,unit,mapped⟩ := Option.bind_eq_some_iff.mp scanned
    obtain ⟨more,later,rfl⟩ := Option.map_eq_some_iff.mp mapped
    obtain ⟨pre,parts,short,again⟩ := ih later
    refine ⟨'\\' :: 'u' :: a :: b :: c :: d :: pre,by simp [parts],?_,fun kept => ?_⟩
    · simp only [List.length_cons]
      omega
    · rw [List.cons_append,scanUnits.eq_def]
      simp [unit,again kept]
  | case5 => cases scanned
  | case6 letter rest other _ ih =>
    obtain ⟨u,unit,mapped⟩ := Option.bind_eq_some_iff.mp scanned
    obtain ⟨more,later,rfl⟩ := Option.map_eq_some_iff.mp mapped
    obtain ⟨pre,parts,short,again⟩ := ih later
    refine ⟨'\\' :: letter :: pre,by simp [parts],?_,fun kept => ?_⟩
    · simp only [List.length_cons]
      omega
    · rw [List.cons_append,scanUnits.eq_def]
      simp [unit,again kept,other]
  | case7 => cases scanned
  | case8 c rest quote escape control ih =>
    obtain ⟨more,later,rfl⟩ := Option.map_eq_some_iff.mp scanned
    obtain ⟨pre,parts,short,again⟩ := ih later
    refine ⟨c :: pre,by simp [parts],?_,fun kept => ?_⟩
    · simp only [List.length_cons]
      omega
    · rw [List.cons_append,scanUnits.eq_def]
      simp [quote,escape,control,again kept]

theorem scanString_reads : Reads scanString := by
  intro cs text rest scanned
  obtain ⟨⟨us,later⟩,units,same⟩ := Option.map_eq_some_iff.mp scanned
  cases same
  obtain ⟨pre,rfl,-,again⟩ := scanUnits_reads units
  refine ⟨pre ++ ['"'],by simp,closed_concat rfl pre,fun kept _ => ?_⟩
  rw [List.append_assoc,scanString,List.singleton_append,again kept]
  rfl

/-! ### Numerals -/

theorem not_digit_of_shorter {kept rest : List Char} (inside : kept <+: rest) {p : Char → Bool}
    (ends : ∀ c, rest.head? = some c → p c = false) : ∀ c, kept.head? = some c → p c = false := by
  intro c first
  obtain ⟨more,rfl⟩ := inside
  refine ends c ?_
  cases kept with
  | nil => cases first
  | cons d kept => exact first

/-- Digits are read up to the first character that is none. -/
theorem span_reads (cs : List Char) : ∃ digits rest, cs.span Char.isDigit = (digits,rest) ∧ cs = digits ++ rest ∧
    (∀ c ∈ digits, c.isDigit = true) ∧ ∀ kept, kept <+: rest → (digits ++ kept).span Char.isDigit = (digits,kept) := by
  have ends : ∀ c, (cs.dropWhile Char.isDigit).head? = some c → c.isDigit = false := by
    intro c first
    obtain ⟨more,same⟩ : ∃ more, cs.dropWhile Char.isDigit = c :: more := List.head?_eq_some_iff.mp first
    have visible := List.head_dropWhile_not Char.isDigit (l := cs) (by simp [same])
    simpa [same] using visible
  have all : ∀ c ∈ cs.takeWhile Char.isDigit, c.isDigit = true := fun c => List.mem_takeWhile_imp
  exact ⟨cs.takeWhile Char.isDigit,cs.dropWhile Char.isDigit,List.span_eq_takeWhile_dropWhile _ _,
    List.takeWhile_append_dropWhile.symm,all,fun kept inside => Numeral.span_digits all (not_digit_of_shorter inside ends)⟩

theorem closed_digits {digits : List Char} (some : digits ≠ []) (all : ∀ c ∈ digits, c.isDigit = true) : Closed digits :=
  ⟨digits.getLast some,List.getLast?_eq_some_getLast some,by simp [atEdge,all _ (List.getLast_mem some)]⟩

/-- A part of a numeral that may be missing is read. -/
def ReadsPart (scanner : List Char → α × List Char) : Prop :=
  ∀ cs, ∃ pre, cs = pre ++ (scanner cs).2 ∧ (pre = [] ∨ Closed pre) ∧
    ∀ kept, kept <+: (scanner cs).2 → scanner (pre ++ kept) = ((scanner cs).1,kept)

theorem prefix_cons {kept rest : List Char} {c : Char} (inside : kept <+: c :: rest) :
    kept = [] ∨ ∃ later, kept = c :: later ∧ later <+: rest := by
  cases kept with
  | nil => exact .inl rfl
  | cons d later =>
    obtain ⟨rfl,behind⟩ := List.cons_prefix_cons.mp inside
    exact .inr ⟨later,rfl,behind⟩

namespace Numeral

theorem scanWhole_reads : Reads scanWhole := by
  intro cs whole rest scanned
  cases cs with
  | nil => cases scanned
  | cons c later =>
    simp only [scanWhole] at scanned
    split at scanned
    · next digit =>
      cases scanned
      refine ⟨[c],rfl,⟨c,rfl,by simp [digit,atEdge]⟩,fun kept _ => ?_⟩
      simp [scanWhole,digit]
    · next other =>
      split at scanned
      · next digit =>
        obtain ⟨digits,left,spanned,parts,all,again⟩ := span_reads (c :: later)
        have some : digits ≠ [] := by
          rintro rfl
          rw [List.span_eq_takeWhile_dropWhile,List.takeWhile_cons_of_pos digit] at spanned
          cases spanned
        rw [spanned] at scanned
        cases scanned
        refine ⟨whole,parts,closed_digits some all,fun kept inside => ?_⟩
        obtain ⟨d,digits,rfl⟩ := List.exists_cons_of_ne_nil some
        obtain ⟨same,-⟩ := List.cons.inj parts
        rw [List.cons_append,scanWhole,if_neg (same ▸ other),if_pos (same ▸ digit)]
        exact congrArg Option.some (again kept inside)
      · cases scanned

section

variable {rest left digits : List Char} {c d : Char}

theorem scanFraction_none (spanned : rest.span Char.isDigit = ([],left)) : scanFraction ('.' :: rest) = (none,'.' :: rest) := by
  simp only [scanFraction,if_true,spanned]

theorem scanFraction_some (spanned : rest.span Char.isDigit = (d :: digits,left)) :
    scanFraction ('.' :: rest) = (some (d :: digits),left) := by
  simp only [scanFraction,if_true,spanned]

theorem scanFraction_other (other : c ≠ '.') (rest : List Char) : scanFraction (c :: rest) = (none,c :: rest) := by
  rw [scanFraction,if_neg other]

theorem scanExponent_none (letter : c = 'e' ∨ c = 'E') (spanned : (scanSign rest).2.span Char.isDigit = ([],left)) :
    scanExponent (c :: rest) = (none,c :: rest) := by
  simp only [scanExponent,letter,if_true,spanned]

theorem scanExponent_some (letter : c = 'e' ∨ c = 'E') (spanned : (scanSign rest).2.span Char.isDigit = (d :: digits,left)) :
    scanExponent (c :: rest) = (some (c,(scanSign rest).1,d :: digits),left) := by
  simp only [scanExponent,letter,if_true,spanned]

theorem scanExponent_other (other : ¬(c = 'e' ∨ c = 'E')) (rest : List Char) : scanExponent (c :: rest) = (none,c :: rest) := by
  rw [scanExponent,if_neg other]

end

theorem scanFraction_reads : ReadsPart scanFraction := by
  intro cs
  cases cs with
  | nil => exact ⟨[],rfl,.inl rfl,fun kept inside => by rw [List.prefix_nil.mp inside]; rfl⟩
  | cons c rest =>
    by_cases point : c = '.'
    · rw [point]
      obtain ⟨digits,left,spanned,parts,all,again⟩ := span_reads rest
      cases digits with
      | nil =>
        rw [scanFraction_none spanned]
        refine ⟨[],rfl,.inl rfl,fun kept inside => ?_⟩
        obtain rfl | ⟨later,rfl,behind⟩ := prefix_cons inside
        · rfl
        · exact scanFraction_none (again later (by rwa [parts] at behind))
      | cons d digits =>
        rw [scanFraction_some spanned]
        refine ⟨'.' :: d :: digits,by simp [parts],.inr ((closed_digits (by simp) all).append ['.']),fun kept inside => ?_⟩
        exact scanFraction_some (again kept inside)
    · rw [scanFraction_other point]
      refine ⟨[],rfl,.inl rfl,fun kept inside => ?_⟩
      obtain rfl | ⟨later,rfl,-⟩ := prefix_cons inside
      · rfl
      · exact scanFraction_other point later

/-- A sign is read, also if nothing is left behind it. -/
theorem scanSign_reads (cs : List Char) : ∃ sign, cs = sign ++ (scanSign cs).2 ∧
    ∀ kept, kept <+: (scanSign cs).2 → scanSign (sign ++ kept) = ((scanSign cs).1,kept) := by
  cases cs with
  | nil => exact ⟨[],rfl,fun kept inside => by rw [List.prefix_nil.mp inside]; rfl⟩
  | cons c rest =>
    by_cases signed : c = '+' ∨ c = '-'
    · have scanned (rest : List Char) : scanSign (c :: rest) = (some c,rest) := by rw [scanSign,if_pos signed]
      rw [scanned]
      exact ⟨[c],rfl,fun kept _ => scanned kept⟩
    · have scanned (rest : List Char) : scanSign (c :: rest) = (none,c :: rest) := by rw [scanSign,if_neg signed]
      rw [scanned]
      refine ⟨[],rfl,fun kept inside => ?_⟩
      obtain rfl | ⟨later,rfl,-⟩ := prefix_cons inside
      · rfl
      · exact scanned later

theorem scanSign_prefix {kept rest : List Char} (inside : kept <+: rest) : (scanSign kept).2 <+: (scanSign rest).2 := by
  cases rest with
  | nil =>
    obtain rfl := List.prefix_nil.mp inside
    exact List.prefix_rfl
  | cons c rest =>
    obtain rfl | ⟨later,rfl,behind⟩ := prefix_cons inside
    · exact List.nil_prefix
    · simp only [scanSign]
      split
      · exact behind
      · exact inside

theorem scanExponent_reads : ReadsPart scanExponent := by
  intro cs
  cases cs with
  | nil => exact ⟨[],rfl,.inl rfl,fun kept inside => by rw [List.prefix_nil.mp inside]; rfl⟩
  | cons c rest =>
    by_cases letter : c = 'e' ∨ c = 'E'
    · obtain ⟨digits,left,spanned,parts,all,again⟩ := span_reads (scanSign rest).2
      obtain ⟨sign,split,signAgain⟩ := scanSign_reads rest
      cases digits with
      | nil =>
        rw [scanExponent_none letter spanned]
        refine ⟨[],rfl,.inl rfl,fun kept inside => ?_⟩
        obtain rfl | ⟨later,rfl,behind⟩ := prefix_cons inside
        · rfl
        · have unsigned := scanSign_prefix behind
          rw [parts] at unsigned
          exact scanExponent_none letter (again _ unsigned)
      | cons d digits =>
        rw [scanExponent_some letter spanned]
        refine ⟨c :: sign ++ d :: digits,?_,.inr ((closed_digits (by simp) all).append _),fun kept inside => ?_⟩
        · simp [← parts,← split]
        · have signed := signAgain (d :: digits ++ kept) (by rw [parts]; exact prefix_cons_append inside _)
          have spannedAgain : (scanSign (sign ++ (d :: digits ++ kept))).2.span Char.isDigit = (d :: digits,kept) := by
            rw [signed]
            exact again kept inside
          rw [List.append_assoc,List.cons_append,scanExponent_some letter spannedAgain,signed]
    · rw [scanExponent_other letter]
      refine ⟨[],rfl,.inl rfl,fun kept inside => ?_⟩
      obtain rfl | ⟨later,rfl,-⟩ := prefix_cons inside
      · rfl
      · exact scanExponent_other letter later

theorem scanMinus_reads {cs first rest : List Char} (text : (scanMinus cs).2 = first ++ rest)
    (some : ∃ c more, first = c :: more) : ∃ minus, cs = minus ++ (scanMinus cs).2 ∧
      ∀ kept, scanMinus (minus ++ (first ++ kept)) = ((scanMinus cs).1,first ++ kept) := by
  obtain ⟨c,more,rfl⟩ := some
  cases cs with
  | nil => cases text
  | cons d later =>
    by_cases negative : d = '-'
    · have scanned (rest : List Char) : scanMinus (d :: rest) = (true,rest) := by rw [scanMinus,if_pos negative]
      rw [scanned]
      exact ⟨[d],rfl,fun kept => scanned _⟩
    · have scanned (rest : List Char) : scanMinus (d :: rest) = (false,d :: rest) := by rw [scanMinus,if_neg negative]
      rw [scanned] at text ⊢
      obtain ⟨same,-⟩ := List.cons.inj text
      exact ⟨[],rfl,fun kept => same ▸ scanned _⟩

theorem scan_reads : Reads scan := by
  intro cs n rest scanned
  obtain ⟨⟨whole,left⟩,found,same⟩ := Option.map_eq_some_iff.mp scanned
  obtain ⟨first,text,closed,again⟩ := scanWhole_reads _ _ _ found
  obtain ⟨fraction,fractionText,fractionEnds,fractionAgain⟩ := scanFraction_reads left
  obtain ⟨exponent,exponentText,exponentEnds,exponentAgain⟩ := scanExponent_reads (scanFraction left).2
  obtain ⟨minus,minusText,minusAgain⟩ := scanMinus_reads text closed.cons_eq
  obtain ⟨rfl,rfl⟩ := Prod.mk.inj same
  have kept_fraction {kept : List Char} (inside : kept <+: (scanExponent (scanFraction left).2).2) :
      exponent ++ kept <+: (scanFraction left).2 := by
    rw [exponentText]
    exact prefix_cons_append inside exponent
  have kept_whole {kept : List Char} (inside : kept <+: (scanExponent (scanFraction left).2).2) :
      fraction ++ (exponent ++ kept) <+: left := by
    rw [fractionText]
    exact prefix_cons_append (kept_fraction inside) fraction
  refine ⟨minus ++ (first ++ (fraction ++ exponent)),?_,?_,fun kept inside => ?_⟩
  · calc cs = minus ++ (scanMinus cs).2 := minusText
      _ = minus ++ (first ++ left) := by rw [text]
      _ = minus ++ (first ++ (fraction ++ (scanFraction left).2)) := congrArg (fun part => minus ++ (first ++ part)) fractionText
      _ = minus ++ (first ++ (fraction ++ (exponent ++ (scanExponent (scanFraction left).2).2))) :=
          congrArg (fun part => minus ++ (first ++ (fraction ++ part))) exponentText
      _ = minus ++ (first ++ (fraction ++ exponent)) ++ (scanExponent (scanFraction left).2).2 := by
          simp only [List.append_assoc]
  · rw [← List.append_assoc first]
    exact ((closed.append_part fractionEnds).append_part exponentEnds).append minus
  · have read := again _ (kept_whole inside)
    simp only [List.append_assoc]
    rw [scan,minusAgain,read]
    simp only [Option.map_some,fractionAgain _ (kept_fraction inside),exponentAgain _ inside]

end Numeral

/-! ### Values -/

section

variable {φ : Type} (f : FloatTexts φ)

/-- The first of the words that the text begins with. -/
def scanWord (words : List (List Char × β)) (cs : List Char) : Option (β × List Char) :=
  words.findSome? fun entry => if entry.1.isPrefixOf cs then some (entry.2,cs.drop entry.1.length) else none

theorem scanWord_fits {entry : List Char × β} {words : List (List Char × β)} {cs : List Char} (fits : entry.1 <+: cs) :
    scanWord (entry :: words) cs = some (entry.2,cs.drop entry.1.length) := by
  rw [scanWord,List.findSome?_cons,List.isPrefixOf_iff_prefix.mpr fits]
  rfl

theorem scanWord_missed {entry : List Char × β} {words : List (List Char × β)} {cs : List Char} (missed : ¬entry.1 <+: cs) :
    scanWord (entry :: words) cs = scanWord words cs := by
  have missed : entry.1.isPrefixOf cs = false :=
    Bool.eq_false_iff.mpr fun fits => missed (List.isPrefixOf_iff_prefix.mp fits)
  rw [scanWord,List.findSome?_cons,missed]
  rfl

theorem scanWord_again {words : List (List Char × β)} {cs rest : List Char} {v : β} (scanned : scanWord words cs = some (v,rest)) :
    ∃ word, (word,v) ∈ words ∧ cs = word ++ rest ∧
      ∀ kept, kept <+: rest → scanWord words (word ++ kept) = some (v,kept) := by
  induction words with
  | nil => cases scanned
  | cons entry words ih =>
    by_cases fits : entry.1 <+: cs
    · rw [scanWord_fits fits] at scanned
      cases scanned
      obtain ⟨rest,rfl⟩ := fits
      refine ⟨entry.1,List.mem_cons_self,by simp,fun kept _ => ?_⟩
      rw [scanWord_fits ⟨kept,rfl⟩,List.drop_left]
    · rw [scanWord_missed fits] at scanned
      obtain ⟨word,listed,text,again⟩ := ih scanned
      refine ⟨word,List.mem_cons_of_mem _ listed,text,fun kept inside => ?_⟩
      -- what does not begin with a word, does not begin with it if it stops earlier
      have still : ¬entry.1 <+: word ++ kept := fun begins =>
        fits (begins.trans (by rw [text]; exact prefix_cons_append inside word))
      rw [scanWord_missed still,again kept inside]

theorem scanWord_none {words : List (List Char × β)} {cs kept : List Char} (missed : scanWord words cs = none)
    (inside : kept <+: cs) : scanWord words kept = none := by
  induction words with
  | nil => rfl
  | cons entry words ih =>
    by_cases fits : entry.1 <+: cs
    · rw [scanWord_fits fits] at missed
      cases missed
    · rw [scanWord_missed fits] at missed
      rw [scanWord_missed fun begins => fits (begins.trans inside),ih missed]

theorem scanConstant_reads : Reads (scanConstant f) := by
  intro cs v rest scanned
  obtain ⟨word,listed,text,again⟩ := scanWord_again scanned
  refine ⟨word,text,?_,again⟩
  simp only [constants,List.mem_cons,Prod.mk.injEq,List.not_mem_nil,or_false] at listed
  rcases listed with ⟨rfl,-⟩ | ⟨rfl,-⟩ | ⟨rfl,-⟩ | ⟨rfl,-⟩ | ⟨rfl,-⟩ | ⟨rfl,-⟩ <;> exact ⟨_,rfl,rfl⟩

theorem scanNumber_reads : Reads (scanNumber f) := by
  intro cs v rest scanned
  obtain ⟨⟨n,left⟩,found,mapped⟩ := Option.bind_eq_some_iff.mp scanned
  obtain ⟨w,value,same⟩ := Option.map_eq_some_iff.mp mapped
  cases same
  obtain ⟨pre,text,closed,again⟩ := Numeral.scan_reads _ _ _ found
  refine ⟨pre,text,closed,fun kept inside => ?_⟩
  rw [scanNumber,again kept inside,Option.bind_some,value]
  rfl

/-- Blanks in front of a value are no obstacle. -/
theorem Reads.skip {scanner : List Char → Option (α × List Char)} (reads : Reads scanner) :
    Reads fun cs => scanner (skipSpace cs) := by
  intro cs v rest scanned
  obtain ⟨pre,text,closed,again⟩ := reads _ _ _ scanned
  obtain ⟨first,more,rfl⟩ := closed.cons_eq
  obtain ⟨blanks,rfl,skipped⟩ := skipSpace_again text
  refine ⟨blanks ++ first :: more,by simp,closed.append blanks,fun kept inside => ?_⟩
  have skipped := skipped (more ++ kept)
  rw [List.append_assoc,List.cons_append,skipped]
  exact again kept inside

section

variable {fuel : Nat} {rest left cs : List Char} {c : Char}

theorem scanValue_list_nil (skipped : skipSpace rest = ']' :: left) :
    scanValue f (fuel + 1) ('[' :: rest) = some (.list [],left) := by
  simp only [scanValue,skipped]
  rfl

theorem scanValue_list (open_ : ∀ left, skipSpace rest ≠ ']' :: left) : scanValue f (fuel + 1) ('[' :: rest) =
    (scanItems f fuel (skipSpace rest)).map fun read => (.list read.1,read.2) := by
  simp only [scanValue]
  split
  · next same => cases same
  · rfl

theorem scanValue_dict_nil (skipped : skipSpace rest = '}' :: left) :
    scanValue f (fuel + 1) ('{' :: rest) = some (.dict [],left) := by
  simp only [scanValue,skipped]
  rfl

theorem scanValue_dict (open_ : ∀ left, skipSpace rest ≠ '}' :: left) : scanValue f (fuel + 1) ('{' :: rest) =
    (scanEntries f fuel [] (skipSpace rest)).map fun read => (.dict read.1,read.2) := by
  simp only [scanValue]
  split
  · next same => cases same
  · split
    · next same => cases same
    · rfl

theorem scanValue_plain (quote : c ≠ '"') (bracket : c ≠ '[') (brace : c ≠ '{') :
    scanValue f (fuel + 1) (c :: rest) = (scanConstant f (c :: rest)).or (scanNumber f (c :: rest)) := by
  simp only [scanValue,if_neg quote,if_neg bracket,if_neg brace]

variable {v : Json φ} {afterValue : List Char}

theorem scanItems_last (first : scanValue f fuel cs = some (v,afterValue)) (closing : skipSpace afterValue = ']' :: left) :
    scanItems f (fuel + 1) cs = some ([v],left) := by
  simp only [scanItems,first,closing]

theorem scanItems_more (first : scanValue f fuel cs = some (v,afterValue)) (comma : skipSpace afterValue = ',' :: left) :
    scanItems f (fuel + 1) cs = (scanItems f fuel (skipSpace left)).map fun read => (v :: read.1,read.2) := by
  simp only [scanItems,first,comma]

variable {key : String} {afterKey afterColon : List Char} {done : List (String × Json φ)}

theorem scanEntries_last (name : scanString cs = some (key,afterKey)) (colon : skipSpace afterKey = ':' :: afterColon)
    (value : scanValue f fuel (skipSpace afterColon) = some (v,afterValue)) (closing : skipSpace afterValue = '}' :: left) :
    scanEntries f (fuel + 1) done ('"' :: cs) = some (OrderedDict.insert key v done,left) := by
  simp only [scanEntries,name,colon,value,closing]

theorem scanEntries_more (name : scanString cs = some (key,afterKey)) (colon : skipSpace afterKey = ':' :: afterColon)
    (value : scanValue f fuel (skipSpace afterColon) = some (v,afterValue)) (comma : skipSpace afterValue = ',' :: left) :
    scanEntries f (fuel + 1) done ('"' :: cs) = scanEntries f fuel (OrderedDict.insert key v done) (skipSpace left) := by
  simp only [scanEntries,name,colon,value,comma]

/-- How a list goes on behind its first value. -/
theorem scanItems_cases {read : List (Json φ) × List Char} (scanned : scanItems f (fuel + 1) cs = some read) :
    ∃ v afterValue, scanValue f fuel cs = some (v,afterValue) ∧
      ((∃ left, skipSpace afterValue = ']' :: left ∧ read = ([v],left)) ∨
        ∃ left more, skipSpace afterValue = ',' :: left ∧ scanItems f fuel (skipSpace left) = some more ∧
          read = (v :: more.1,more.2)) := by
  simp only [scanItems] at scanned
  split at scanned
  · cases scanned
  · next v rest first =>
    refine ⟨v,rest,first,?_⟩
    split at scanned
    · next left closing => exact .inl ⟨left,closing,(Option.some.inj scanned).symm⟩
    · next left comma =>
      obtain ⟨more,found,same⟩ := Option.map_eq_some_iff.mp scanned
      exact .inr ⟨left,more,comma,found,same.symm⟩
    · cases scanned

/-- How an object goes on behind its first entry. -/
theorem scanEntries_cases {read : List (String × Json φ) × List Char} (scanned : scanEntries f (fuel + 1) done cs = some read) :
    ∃ text key afterKey afterColon v afterValue, cs = '"' :: text ∧ scanString text = some (key,afterKey) ∧
      skipSpace afterKey = ':' :: afterColon ∧ scanValue f fuel (skipSpace afterColon) = some (v,afterValue) ∧
        ((∃ left, skipSpace afterValue = '}' :: left ∧ read = (OrderedDict.insert key v done,left)) ∨
          ∃ left, skipSpace afterValue = ',' :: left ∧
            scanEntries f fuel (OrderedDict.insert key v done) (skipSpace left) = some read) := by
  simp only [scanEntries] at scanned
  split at scanned
  · next text =>
    split at scanned
    · cases scanned
    · next key afterKey name =>
      split at scanned
      · next afterColon colon =>
        split at scanned
        · cases scanned
        · next v afterValue value =>
          refine ⟨text,key,afterKey,afterColon,v,afterValue,rfl,name,colon,value,?_⟩
          split at scanned
          · next left closing => exact .inl ⟨left,closing,(Option.some.inj scanned).symm⟩
          · next left comma => exact .inr ⟨left,comma,scanned⟩
          · cases scanned
      · cases scanned
  · cases scanned

theorem scanItems_reads (value : Reads (scanValue f fuel)) (items : Reads (scanItems f fuel)) :
    Reads (scanItems f (fuel + 1)) := by
  intro cs read rest scanned
  obtain ⟨v,afterValue,first,ending⟩ := scanItems_cases f scanned
  obtain ⟨pre,text,-,again⟩ := value _ _ _ first
  rcases ending with ⟨left,closing,same⟩ | ⟨left,more,comma,found,same⟩
  · cases same
    obtain ⟨blanks,rfl,skipped⟩ := skipSpace_again closing
    refine ⟨pre ++ (blanks ++ [']']),by simp [text],(closed_concat rfl blanks).append pre,fun kept inside => ?_⟩
    have behind := again _ (prefix_behind inside blanks ']')
    simp only [List.append_assoc,List.singleton_append]
    exact scanItems_last f behind (skipped kept)
  · cases same
    obtain ⟨blanks,rfl,skipped⟩ := skipSpace_again comma
    obtain ⟨later,rfl,closed,laterAgain⟩ := items.skip _ _ _ found
    refine ⟨pre ++ (blanks ++ ',' :: later),by simp [text],((closed.cons ',').append blanks).append pre,
      fun kept inside => ?_⟩
    have behind := again _ (prefix_behind (prefix_cons_append inside later) blanks ',')
    simp only [List.append_assoc,List.cons_append]
    rw [scanItems_more f behind (skipped _),laterAgain kept inside]
    rfl

theorem scanEntries_reads (value : Reads (scanValue f fuel)) (entries : ∀ done, Reads (scanEntries f fuel done))
    (done : List (String × Json φ)) : Reads (scanEntries f (fuel + 1) done) := by
  intro cs read rest scanned
  obtain ⟨text,key,afterKey,afterColon,v,afterValue,rfl,name,colon,own,ending⟩ := scanEntries_cases f scanned
  obtain ⟨keyText,rfl,-,keyAgain⟩ := scanString_reads _ _ _ name
  obtain ⟨blanks,rfl,skipped⟩ := skipSpace_again colon
  obtain ⟨valueText,rfl,-,valueAgain⟩ := value.skip _ _ _ own
  rcases ending with ⟨left,closing,same⟩ | ⟨left,comma,found⟩
  · cases same
    obtain ⟨gap,rfl,gapSkipped⟩ := skipSpace_again closing
    refine ⟨'"' :: (keyText ++ (blanks ++ ':' :: (valueText ++ (gap ++ ['}'])))),by simp,?_,fun kept inside => ?_⟩
    · exact (((((closed_concat rfl gap).append valueText).cons ':').append blanks).append keyText).cons '"'
    · have valueBehind := valueAgain _ (prefix_behind inside gap '}')
      have keyBehind := keyAgain _ (prefix_behind (prefix_cons_append (prefix_behind inside gap '}') valueText) blanks ':')
      simp only [List.append_assoc,List.cons_append,List.nil_append]
      exact scanEntries_last f keyBehind (skipped _) valueBehind (gapSkipped kept)
  · obtain ⟨gap,rfl,gapSkipped⟩ := skipSpace_again comma
    obtain ⟨later,rfl,closed,laterAgain⟩ := (entries _).skip _ _ _ found
    refine ⟨'"' :: (keyText ++ (blanks ++ ':' :: (valueText ++ (gap ++ ',' :: later)))),by simp,?_,fun kept inside => ?_⟩
    · exact ((((((closed.cons ',').append gap).append valueText).cons ':').append blanks).append keyText).cons '"'
    · have kept_more := prefix_behind (prefix_cons_append inside later) gap ','
      have valueBehind := valueAgain _ kept_more
      have keyBehind := keyAgain _ (prefix_behind (prefix_cons_append kept_more valueText) blanks ':')
      simp only [List.append_assoc,List.cons_append]
      rw [scanEntries_more f keyBehind (skipped _) valueBehind (gapSkipped _)]
      exact laterAgain kept inside

theorem scanValue_reads (items : Reads (scanItems f fuel)) (entries : ∀ done, Reads (scanEntries f fuel done)) :
    Reads (scanValue f (fuel + 1)) := by
  intro cs read rest scanned
  cases cs with
  | nil => cases scanned
  | cons c cs =>
    by_cases quote : c = '"'
    · subst quote
      obtain ⟨⟨text,left⟩,found,same⟩ := Option.map_eq_some_iff.mp (scanned : (scanString cs).map _ = _)
      cases same
      obtain ⟨pre,rfl,closed,again⟩ := scanString_reads _ _ _ found
      refine ⟨'"' :: pre,rfl,closed.cons '"',fun kept inside => ?_⟩
      simp only [scanValue,List.cons_append,if_true,again kept inside]
      rfl
    by_cases bracket : c = '['
    · subst bracket
      by_cases empty : ∃ left, skipSpace cs = ']' :: left
      · obtain ⟨left,closing⟩ := empty
        rw [scanValue_list_nil f closing] at scanned
        cases scanned
        obtain ⟨blanks,rfl,skipped⟩ := skipSpace_again closing
        refine ⟨'[' :: (blanks ++ [']']),by simp,(closed_concat rfl blanks).cons '[',fun kept _ => ?_⟩
        simp only [List.cons_append,List.append_assoc,List.nil_append]
        exact scanValue_list_nil f (skipped kept)
      · have open_ : ∀ left, skipSpace cs ≠ ']' :: left := fun left same => empty ⟨left,same⟩
        rw [scanValue_list f open_] at scanned
        obtain ⟨more,found,same⟩ := Option.map_eq_some_iff.mp scanned
        cases same
        obtain ⟨pre,rfl,closed,again⟩ := items.skip _ _ _ found
        refine ⟨'[' :: pre,rfl,closed.cons '[',fun kept inside => ?_⟩
        rw [List.cons_append,scanValue_list f (closed.begins_other open_ kept),again kept inside]
        rfl
    by_cases brace : c = '{'
    · subst brace
      by_cases empty : ∃ left, skipSpace cs = '}' :: left
      · obtain ⟨left,closing⟩ := empty
        rw [scanValue_dict_nil f closing] at scanned
        cases scanned
        obtain ⟨blanks,rfl,skipped⟩ := skipSpace_again closing
        refine ⟨'{' :: (blanks ++ ['}']),by simp,(closed_concat rfl blanks).cons '{',fun kept _ => ?_⟩
        simp only [List.cons_append,List.append_assoc,List.nil_append]
        exact scanValue_dict_nil f (skipped kept)
      · have open_ : ∀ left, skipSpace cs ≠ '}' :: left := fun left same => empty ⟨left,same⟩
        rw [scanValue_dict f open_] at scanned
        obtain ⟨more,found,same⟩ := Option.map_eq_some_iff.mp scanned
        cases same
        obtain ⟨pre,rfl,closed,again⟩ := (entries []).skip _ _ _ found
        refine ⟨'{' :: pre,rfl,closed.cons '{',fun kept inside => ?_⟩
        rw [List.cons_append,scanValue_dict f (closed.begins_other open_ kept),again kept inside]
        rfl
    · rw [scanValue_plain f quote bracket brace] at scanned
      have plain {pre kept : List Char} (inside : pre ++ kept <+: c :: cs) (some : Closed pre) :
          scanValue f (fuel + 1) (pre ++ kept) = (scanConstant f (pre ++ kept)).or (scanNumber f (pre ++ kept)) := by
        obtain ⟨d,more,rfl⟩ := some.cons_eq
        obtain ⟨rfl,-⟩ := List.cons_prefix_cons.mp inside
        exact scanValue_plain f quote bracket brace
      rcases Option.or_eq_some_iff.mp scanned with constant | ⟨missed,number⟩
      · obtain ⟨pre,text,closed,again⟩ := scanConstant_reads f _ _ _ constant
        refine ⟨pre,text,closed,fun kept inside => ?_⟩
        rw [plain (text ▸ prefix_cons_append inside pre) closed,again kept inside]
        rfl
      · obtain ⟨pre,text,closed,again⟩ := scanNumber_reads f _ _ _ number
        refine ⟨pre,text,closed,fun kept inside => ?_⟩
        have shorter : pre ++ kept <+: c :: cs := text ▸ prefix_cons_append inside pre
        rw [plain shorter closed,again kept inside]
        have still : scanConstant f (pre ++ kept) = none := scanWord_none missed shorter
        rw [still]
        rfl

end

/-- What the scanners read. -/
theorem scanners_read (fuel : Nat) :
    Reads (scanValue f fuel) ∧ Reads (scanItems f fuel) ∧ ∀ done, Reads (scanEntries f fuel done) := by
  induction fuel with
  | zero =>
    refine ⟨?_,?_,?_⟩
    · intro cs v rest scanned
      cases scanned
    · intro cs v rest scanned
      cases scanned
    · intro done cs v rest scanned
      cases scanned
  | succ fuel ih =>
    obtain ⟨value,items,entries⟩ := ih
    exact ⟨scanValue_reads f items entries,scanItems_reads f value items,scanEntries_reads f value entries⟩

end

end PythonJson
