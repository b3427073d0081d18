import IceOS.OrderedDict
import Mathlib.Data.Int.Notation
import Mathlib.Data.List.TakeDrop

/-! The `json` module of Python: `dumps` with its default separators and its ASCII escapes, and `loads` as its scanner
reads a text, NaN and the infinities included. -/

/-- The values of a JSON text. A dictionary is the list of its entries. -/
inductive Json (φ : Type) where
  | null
  | bool (b : Bool)
  | int (i : Int)
  | float (x : φ)
  | str (text : String)
  | list (items : List (Json φ))
  | dict (entries : List (String × Json φ))
  deriving Repr

namespace PythonJson

/-! ### Numerals -/

/-- The parts of a number; `exponent` has the letter, the sign and the digits. -/
structure Numeral where
  negative : Bool
  whole : List Char
  fraction : Option (List Char) := none
  exponent : Option (Char × Option Char × List Char) := none
  deriving DecidableEq, Repr

namespace Numeral

def fractionText : Option (List Char) → List Char
  | none => []
  | some digits => '.' :: digits

def exponentText : Option (Char × Option Char × List Char) → List Char
  | none => []
  | some (letter,sign,digits) => letter :: (sign.toList ++ digits)

def text (n : Numeral) : List Char :=
  (if n.negative then ['-'] else []) ++ (n.whole ++ (fractionText n.fraction ++ exponentText n.exponent))

def isFloat (n : Numeral) : Bool := n.fraction.isSome || n.exponent.isSome

def Digits (digits : List Char) : Prop := digits ≠ [] ∧ ∀ c ∈ digits, c.isDigit = true

/-- The numerals that the scanner reads. -/
structure Valid (n : Numeral) : Prop where
  whole : n.whole = ['0'] ∨ Digits n.whole ∧ n.whole.head? ≠ some '0'
  fraction : ∀ digits ∈ n.fraction, Digits digits
  exponent : ∀ letter sign digits, n.exponent = some (letter,sign,digits) →
    (letter = 'e' ∨ letter = 'E') ∧ (sign = none ∨ sign = some '+' ∨ sign = some '-') ∧ Digits digits

def scanWhole : List Char → Option (List Char × List Char)
  | [] => none
  | c :: rest =>
    if c = '0' then some (['0'],rest)
    else if c.isDigit then some ((c :: rest).span Char.isDigit) else none

def scanFraction : List Char → Option (List Char) × List Char
  | [] => (none,[])
  | c :: rest =>
    if c = '.' then
      match rest.span Char.isDigit with
      | ([],_) => (none,c :: rest)
      | (digits,later) => (some digits,later)
    else (none,c :: rest)

def scanSign : List Char → Option Char × List Char
  | [] => (none,[])
  | c :: rest => if c = '+' ∨ c = '-' then (some c,rest) else (none,c :: rest)

def scanExponent : List Char → Option (Char × Option Char × List Char) × List Char
  | [] => (none,[])
  | letter :: rest =>
    if letter = 'e' ∨ letter = 'E' then
      match (scanSign rest).2.span Char.isDigit with
      | ([],_) => (none,letter :: rest)
      | (digits,later) => (some (letter,(scanSign rest).1,digits),later)
    else (none,letter :: rest)

def scanMinus : List Char → Bool × List Char
  | [] => (false,[])
  | c :: rest => if c = '-' then (true,rest) else (false,c :: rest)

/-- The longest numeral at the beginning of a text. -/
def scan (cs : List Char) : Option (Numeral × List Char) :=
  (scanWhole (scanMinus cs).2).map fun whole =>
    let fraction := scanFraction whole.2
    let exponent := scanExponent fraction.2
    (⟨(scanMinus cs).1,whole.1,fraction.1,exponent.1⟩,exponent.2)

end Numeral

/-- How floating-point numbers are written and read. -/
structure FloatTexts (φ : Type) where
  text : φ → String
  read : String → φ
  shape : ∀ x, text x ∈ ["NaN","Infinity","-Infinity"] ∨
    ∃ n : Numeral, n.Valid ∧ n.isFloat = true ∧ (text x).toList = n.text
  read_text : ∀ x, read (text x) = x

/-- Floating-point numbers of which there is only zero. -/
def zeroTexts : FloatTexts Unit where
  text _ := "0.0"
  read _ := ()
  shape _ := .inr ⟨⟨false,['0'],some ['0'],none⟩,⟨.inl rfl,by simp [Numeral.Digits],by simp⟩,rfl,rfl⟩
  read_text _ := rfl

/-- The interpreter neither writes nor reads integers with more digits. -/
def maxStrDigits : Nat := 4300

def intNumeral (i : Int) : Numeral := ⟨decide (i < 0),Nat.toDigits 10 i.natAbs,none,none⟩

def Numeral.toInt (n : Numeral) : Int :=
  let magnitude : Int := Nat.ofDigitChars 10 n.whole 0
  if n.negative then -magnitude else magnitude

/-! ### Reading a numeral back -/

/-- What may follow a value that was written. -/
def Ends (rest : List Char) : Prop := ∀ c, rest.head? = some c → c = ',' ∨ c = ']' ∨ c = '}'

theorem Ends.nil : Ends [] := fun _ head => by cases head

theorem Ends.cons {c : Char} (closes : c = ',' ∨ c = ']' ∨ c = '}') (rest : List Char) : Ends (c :: rest) := by
  intro d head
  cases head
  exact closes

theorem Ends.not_digit {rest : List Char} (ends : Ends rest) {c : Char} (head : rest.head? = some c) :
    c.isDigit = false := by
  rcases ends c head with rfl | rfl | rfl <;> rfl

namespace Numeral

theorem span_digits {digits rest : List Char} (all : ∀ c ∈ digits, c.isDigit = true)
    (stops : ∀ c, rest.head? = some c → c.isDigit = false) : (digits ++ rest).span Char.isDigit = (digits,rest) := by
  rw [List.span_eq_takeWhile_dropWhile,List.takeWhile_append_of_pos all,List.dropWhile_append_of_pos all]
  cases rest with
  | nil => simp
  | cons c rest => simp [stops c rfl]

theorem fractionText_head (fraction : Option (List Char)) {rest : List Char}
    (stops : ∀ c, rest.head? = some c → c.isDigit = false) :
    ∀ c, (fractionText fraction ++ rest).head? = some c → c.isDigit = false := by
  cases fraction with
  | none => exact stops
  | some digits =>
    intro c head
    cases head
    rfl

theorem exponentText_head {exponent : Option (Char × Option Char × List Char)}
    (letters : ∀ letter sign digits, exponent = some (letter,sign,digits) → letter = 'e' ∨ letter = 'E')
    {rest : List Char} (ends : Ends rest) :
    ∀ c, (exponentText exponent ++ rest).head? = some c → c.isDigit = false ∧ c ≠ '.' := by
  cases exponent with
  | none =>
    intro c head
    rcases ends c head with rfl | rfl | rfl <;> decide
  | some parts =>
    obtain ⟨letter,sign,digits⟩ := parts
    intro c head
    cases head
    rcases letters letter sign digits rfl with rfl | rfl <;> decide

theorem scanExponent_text {exponent : Option (Char × Option Char × List Char)}
    (valid : ∀ letter sign digits, exponent = some (letter,sign,digits) →
      (letter = 'e' ∨ letter = 'E') ∧ (sign = none ∨ sign = some '+' ∨ sign = some '-') ∧ Digits digits)
    {rest : List Char} (ends : Ends rest) : scanExponent (exponentText exponent ++ rest) = (exponent,rest) := by
  cases exponent with
  | none =>
    cases rest with
    | nil => rfl
    | cons c rest => rcases ends c rfl with rfl | rfl | rfl <;> rfl
  | some parts =>
    obtain ⟨letter,sign,digits⟩ := parts
    obtain ⟨lettered,signed,nonempty,all⟩ := valid letter sign digits rfl
    have read : scanSign (sign.toList ++ digits ++ rest) = (sign,digits ++ rest) := by
      rcases signed with rfl | rfl | rfl
      · obtain ⟨d,more,rfl⟩ := List.exists_cons_of_ne_nil nonempty
        have digit := all d List.mem_cons_self
        have plain : ¬(d = '+' ∨ d = '-') := by
          rintro (rfl | rfl) <;> cases digit
        simp only [Option.toList,List.nil_append,List.cons_append,scanSign,plain,if_false]
      · rfl
      · rfl
    have spanned := span_digits all fun _ => ends.not_digit
    obtain ⟨d,more,rfl⟩ := List.exists_cons_of_ne_nil nonempty
    simp only [exponentText,List.cons_append,scanExponent,lettered,if_true,read]
    rw [List.cons_append] at spanned
    simp only [spanned]

theorem scanFraction_text {fraction : Option (List Char)} (valid : ∀ digits ∈ fraction, Digits digits) {rest : List Char}
    (stops : ∀ c, rest.head? = some c → c.isDigit = false ∧ c ≠ '.') :
    scanFraction (fractionText fraction ++ rest) = (fraction,rest) := by
  cases fraction with
  | none =>
    cases rest with
    | nil => rfl
    | cons c rest =>
      have other := (stops c rfl).2
      simp only [fractionText,List.nil_append,scanFraction,other,if_false]
  | some digits =>
    obtain ⟨nonempty,all⟩ := valid digits rfl
    have spanned := span_digits all fun c head => (stops c head).1
    obtain ⟨d,more,rfl⟩ := List.exists_cons_of_ne_nil nonempty
    rw [List.cons_append] at spanned
    simp only [fractionText,List.cons_append,scanFraction,if_true,spanned]

theorem scanWhole_text {whole : List Char} (valid : whole = ['0'] ∨ Digits whole ∧ whole.head? ≠ some '0')
    {rest : List Char} (stops : ∀ c, rest.head? = some c → c.isDigit = false) :
    scanWhole (whole ++ rest) = some (whole,rest) := by
  rcases valid with rfl | ⟨⟨nonempty,all⟩,leading⟩
  · rfl
  · have spanned := span_digits all stops
    obtain ⟨d,more,rfl⟩ := List.exists_cons_of_ne_nil nonempty
    have nonzero : d ≠ '0' := fun zero => leading (congrArg some zero)
    rw [List.cons_append] at spanned
    simp only [List.cons_append,scanWhole,nonzero,if_false,all d List.mem_cons_self,if_true,spanned]

/-- The first character of a numeral without its sign. -/
theorem whole_head {n : Numeral} (valid : n.Valid) : ∃ d more, n.whole = d :: more ∧ d.isDigit = true := by
  rcases valid.whole with zero | ⟨⟨nonempty,all⟩,_⟩
  · exact ⟨'0',[],zero,rfl⟩
  · obtain ⟨d,more,same⟩ := List.exists_cons_of_ne_nil nonempty
    exact ⟨d,more,same,all d (same ▸ List.mem_cons_self)⟩

/-- A numeral is read back with what follows it. -/
theorem scan_text {n : Numeral} (valid : n.Valid) {rest : List Char} (ends : Ends rest) :
    scan (n.text ++ rest) = some (n,rest) := by
  have afterFraction := exponentText_head (fun letter sign digits same => (valid.exponent letter sign digits same).1) ends
  have afterWhole := fractionText_head n.fraction fun c head => (afterFraction c head).1
  have minus : scanMinus (n.text ++ rest) =
      (n.negative,n.whole ++ (fractionText n.fraction ++ (exponentText n.exponent ++ rest))) := by
    simp only [text,List.append_assoc]
    cases n.negative with
    | true => rfl
    | false =>
      obtain ⟨d,more,same,digit⟩ := whole_head valid
      have plain : d ≠ '-' := by
        rintro rfl
        cases digit
      simp only [same,Bool.false_eq_true,if_false,List.nil_append,List.cons_append,scanMinus,plain]
  simp only [scan,minus,scanWhole_text valid.whole afterWhole,Option.map_some,
    scanFraction_text valid.fraction afterFraction,scanExponent_text valid.exponent ends]

end Numeral

theorem toDigits_head {n : Nat} (positive : 0 < n) : (Nat.toDigits 10 n).head? ≠ some '0' := by
  induction n using Nat.strongRecOn with
  | ind n ih =>
    rw [Nat.toDigits_eq_if (by decide)]
    split
    · next small =>
      intro same
      have zero := Nat.digitChar_eq_zero.mp (Option.some.inj same)
      omega
    · next large =>
      rw [List.head?_append_of_ne_nil _ (List.ne_nil_of_length_pos Nat.length_toDigits_pos)]
      exact ih (n / 10) (by omega) (by omega)

theorem intNumeral_valid (i : Int) : (intNumeral i).Valid where
  whole := by
    by_cases zero : i.natAbs = 0
    · left
      simp only [intNumeral,zero,Nat.toDigits_zero]
    · right
      refine ⟨⟨List.ne_nil_of_length_pos Nat.length_toDigits_pos,fun c member => ?_⟩,?_⟩
      · exact Nat.isDigit_of_mem_toDigits (by decide) (by decide) member
      · exact toDigits_head (Nat.pos_of_ne_zero zero)
  fraction digits member := by cases member
  exponent letter sign digits same := by cases same

theorem intNumeral_toInt (i : Int) : (intNumeral i).toInt = i := by
  have magnitude : (Nat.ofDigitChars 10 (Nat.toDigits 10 i.natAbs) 0) = i.natAbs := Nat.ofDigitChars_ten_toDigits
  simp only [Numeral.toInt,intNumeral,magnitude,decide_eq_true_eq]
  split <;> omega

/-! ### Strings -/

/-- Lone surrogates, which no `String` has, are read as the replacement character. -/
def unitChar (u : Nat) : Char := if u.isValidChar then Char.ofNat u else '\ufffd'

def isHigh (u : Nat) : Prop := 0xd800 ≤ u ∧ u < 0xdc00
def isLow (u : Nat) : Prop := 0xdc00 ≤ u ∧ u < 0xe000

instance (u : Nat) : Decidable (isHigh u) := inferInstanceAs (Decidable (_ ∧ _))
instance (u : Nat) : Decidable (isLow u) := inferInstanceAs (Decidable (_ ∧ _))

/-- Code units of UTF-16. -/
def units (c : Char) : List Nat :=
  if c.toNat < 0x10000 then [c.toNat]
  else [0xd800 + (c.toNat - 0x10000) / 1024,0xdc00 + (c.toNat - 0x10000) % 1024]

def joinUnits : List Nat → List Char
  | [] => []
  | [u] => [unitChar u]
  | u :: v :: rest =>
    if isHigh u ∧ isLow v then Char.ofNat (0x10000 + (u - 0xd800) * 1024 + (v - 0xdc00)) :: joinUnits rest
    else unitChar u :: joinUnits (v :: rest)

def hex4 (u : Nat) : List Char :=
  [(u / 4096).digitChar,(u / 256 % 16).digitChar,(u / 16 % 16).digitChar,(u % 16).digitChar]

def hexValue (c : Char) : Option Nat :=
  if c.isDigit then some (c.toNat - 48)
  else if 'a' ≤ c ∧ c ≤ 'f' then some (c.toNat - 87)
  else if 'A' ≤ c ∧ c ≤ 'F' then some (c.toNat - 55)
  else none

/-- The characters with escapes of their own. -/
def shortEscapes : List (Char × Char) :=
  [('"','"'),('\\','\\'),('\n','n'),('\r','r'),('\t','t'),('\x0c','f'),('\x08','b')]

def escape (c : Char) : List Char :=
  match shortEscapes.lookup c with
  | some letter => ['\\',letter]
  | none =>
    if 0x20 ≤ c.toNat ∧ c.toNat ≤ 0x7e then [c]
    else (units c).flatMap fun u => '\\' :: 'u' :: hex4 u

def unescape (letter : Char) : Option Nat :=
  [('"',0x22),('\\',0x5c),('/',0x2f),('n',0x0a),('r',0x0d),('t',0x09),('f',0x0c),('b',0x08)].lookup letter

def readHex4 (a b c d : Char) : Option Nat :=
  match hexValue a,hexValue b,hexValue c,hexValue d with
  | some a,some b,some c,some d => some (4096 * a + 256 * b + 16 * c + d)
  | _,_,_,_ => none

/-- The code units up to the closing quote. -/
def scanUnits : List Char → Option (List Nat × List Char)
  | [] => none
  | c :: rest =>
    if c = '"' then some ([],rest)
    else if c = '\\' then
      match rest with
      | [] => none
      | letter :: rest =>
        if letter = 'u' then
          match rest with
          | a :: b :: c :: d :: rest =>
            (readHex4 a b c d).bind fun u => (scanUnits rest).map fun read => (u :: read.1,read.2)
          | _ => none
        else (unescape letter).bind fun u => (scanUnits rest).map fun read => (u :: read.1,read.2)
    else if c.toNat < 0x20 then none
    else (scanUnits rest).map fun read => (c.toNat :: read.1,read.2)

/-- `scanstring`, after the opening quote. -/
def scanString (cs : List Char) : Option (String × List Char) :=
  (scanUnits cs).map fun read => (String.ofList (joinUnits read.1),read.2)

def stringText (text : String) : List Char := '"' :: (text.toList.flatMap escape ++ ['"'])

theorem readHex4_hex4 {u : Nat} (small : u < 0x10000) :
    readHex4 (u / 4096).digitChar (u / 256 % 16).digitChar (u / 16 % 16).digitChar (u % 16).digitChar = some u := by
  have digit : ∀ d < 16, hexValue d.digitChar = some d := by decide
  simp only [readHex4,digit _ (show u / 4096 < 16 by omega),digit _ (Nat.mod_lt _ (show 0 < 16 by decide))]
  congr 1
  omega

theorem scanUnits_hex4 {u : Nat} (small : u < 0x10000) (rest : List Char) :
    scanUnits ('\\' :: 'u' :: (hex4 u ++ rest)) = (scanUnits rest).map fun read => (u :: read.1,read.2) := by
  have read := readHex4_hex4 small
  simp [scanUnits,hex4,read]

/-- An escape of code units is read back. -/
theorem scanUnits_hex {us : List Nat} (small : ∀ u ∈ us, u < 0x10000) (rest : List Char) :
    scanUnits ((us.flatMap fun u => '\\' :: 'u' :: hex4 u) ++ rest) =
      (scanUnits rest).map fun read => (us ++ read.1,read.2) := by
  induction us with
  | nil => simp
  | cons u us ih =>
    have later := ih fun v member => small v (List.mem_cons_of_mem u member)
    simp only [List.flatMap_cons,List.cons_append,List.append_assoc]
    rw [scanUnits_hex4 (small u List.mem_cons_self),later,Option.map_map]
    rfl

theorem units_small (c : Char) : ∀ u ∈ units c, u < 0x10000 := by
  have bound : c.toNat < 0x110000 := by
    rcases c.valid with small | ⟨_,large⟩
    · exact Nat.lt_trans small (by decide)
    · exact large
  intro u member
  simp only [units] at member
  split at member
  · next small =>
    cases List.mem_singleton.mp member
    exact small
  · simp only [List.mem_cons,List.not_mem_nil,or_false] at member
    omega

theorem scanUnits_escape (c : Char) (rest : List Char) :
    scanUnits (escape c ++ rest) = (scanUnits rest).map fun read => (units c ++ read.1,read.2) := by
  simp only [escape]
  split
  · next letter short =>
    have listed : (c,letter) ∈ shortEscapes := by
      obtain ⟨before,after,same,_⟩ := List.lookup_eq_some_iff.mp short
      rw [same]
      exact List.mem_append_right before List.mem_cons_self
    have read : ∀ pair ∈ shortEscapes,
        unescape pair.2 = some pair.1.toNat ∧ pair.2 ≠ 'u' ∧ units pair.1 = [pair.1.toNat] := by decide
    obtain ⟨back,other,single⟩ := read (c,letter) listed
    dsimp only at back other single
    have quote : ('\\' : Char) ≠ '"' := by decide
    simp only [List.cons_append,List.nil_append]
    rw [scanUnits.eq_def]
    simp only [quote,if_false,if_true,other,back,Option.bind_some,single,List.cons_append,List.nil_append]
  · next long =>
    split
    · next printable =>
      have single : units c = [c.toNat] := by
        simp only [units]
        exact if_pos (by omega)
      have quote : c ≠ '"' := by
        rintro rfl
        cases long
      have backslash : c ≠ '\\' := by
        rintro rfl
        cases long
      have shown : ¬c.toNat < 0x20 := by omega
      simp only [List.cons_append,List.nil_append]
      rw [scanUnits.eq_def]
      simp only [quote,backslash,shown,if_false,single,List.cons_append,List.nil_append]
    · exact scanUnits_hex (units_small c) rest

theorem scanUnits_text (cs rest : List Char) :
    scanUnits (cs.flatMap escape ++ '"' :: rest) = some (cs.flatMap units,rest) := by
  induction cs with
  | nil =>
    simp only [List.flatMap_nil,List.nil_append]
    rw [scanUnits.eq_def]
    rfl
  | cons c cs ih =>
    rw [List.flatMap_cons,List.append_assoc,scanUnits_escape,ih]
    rfl

theorem unitChar_toNat (c : Char) : unitChar c.toNat = c := by
  have valid : c.toNat.isValidChar := c.valid
  simp only [unitChar,valid,if_true,Char.ofNat_toNat]

theorem joinUnits_units (c : Char) (us : List Nat) : joinUnits (units c ++ us) = c :: joinUnits us := by
  simp only [units]
  split
  · next small =>
    have plain : ¬isHigh c.toNat := by
      have valid : c.toNat.isValidChar := c.valid
      simp only [isHigh]
      rcases valid with low | ⟨high,_⟩ <;> omega
    cases us with
    | nil => simp only [List.append_nil,joinUnits,unitChar_toNat]
    | cons u us =>
      simp only [List.cons_append,List.nil_append,joinUnits,plain,false_and,if_false,unitChar_toNat]
  · next large =>
    have bound : c.toNat < 0x110000 := by
      rcases c.valid with small | ⟨_,below⟩
      · exact Nat.lt_trans small (by decide)
      · exact below
    have high : isHigh (0xd800 + (c.toNat - 0x10000) / 1024) := by
      simp only [isHigh]
      omega
    have low : isLow (0xdc00 + (c.toNat - 0x10000) % 1024) := by
      simp only [isLow]
      omega
    have whole : 0x10000 + (0xd800 + (c.toNat - 0x10000) / 1024 - 0xd800) * 1024 +
        (0xdc00 + (c.toNat - 0x10000) % 1024 - 0xdc00) = c.toNat := by omega
    simp only [List.cons_append,List.nil_append,joinUnits,high,low,and_self,if_true,whole,Char.ofNat_toNat]

theorem joinUnits_flatMap (cs : List Char) : joinUnits (cs.flatMap units) = cs := by
  induction cs with
  | nil => rfl
  | cons c cs ih => rw [List.flatMap_cons,joinUnits_units,ih]

/-- A string is read back with what follows it. -/
theorem scanString_text (text : String) (rest : List Char) :
    scanString (text.toList.flatMap escape ++ '"' :: rest) = some (text,rest) := by
  simp only [scanString,scanUnits_text,Option.map_some,joinUnits_flatMap,String.ofList_toList]

/-! ### Values -/

section

variable {φ : Type} (f : FloatTexts φ)

mutual

def valueText : Json φ → List Char
  | .null => ['n','u','l','l']
  | .bool true => ['t','r','u','e']
  | .bool false => ['f','a','l','s','e']
  | .int i => (intNumeral i).text
  | .float x => (f.text x).toList
  | .str text => stringText text
  | .list [] => ['[',']']
  | .list (v :: rest) => '[' :: (valueText v ++ itemsText rest)
  | .dict [] => ['{','}']
  | .dict ((key,v) :: rest) => '{' :: (stringText key ++ (':' :: ' ' :: (valueText v ++ entriesText rest)))

/-- The items after the first one, and the closing bracket. -/
def itemsText : List (Json φ) → List Char
  | [] => [']']
  | v :: rest => ',' :: ' ' :: (valueText v ++ itemsText rest)

def entriesText : List (String × Json φ) → List Char
  | [] => ['}']
  | (key,v) :: rest => ',' :: ' ' :: (stringText key ++ (':' :: ' ' :: (valueText v ++ entriesText rest)))

end

def dumps (v : Json φ) : String := String.ofList (valueText f v)

def isSpace (c : Char) : Bool := c == ' ' || c == '\t' || c == '\n' || c == '\r'

def skipSpace (cs : List Char) : List Char := cs.dropWhile isSpace

def constants : List (List Char × Json φ) :=
  [(['n','u','l','l'],.null),(['t','r','u','e'],.bool true),(['f','a','l','s','e'],.bool false),
    (['N','a','N'],.float (f.read "NaN")),(['I','n','f','i','n','i','t','y'],.float (f.read "Infinity")),
    (['-','I','n','f','i','n','i','t','y'],.float (f.read "-Infinity"))]

def scanConstant (cs : List Char) : Option (Json φ × List Char) :=
  (constants f).findSome? fun entry => if entry.1.isPrefixOf cs then some (entry.2,cs.drop entry.1.length) else none

/-- An integer with too many digits is a `ValueError`. -/
def numeralValue (n : Numeral) : Option (Json φ) :=
  if n.isFloat then some (.float (f.read (String.ofList n.text)))
  else if n.whole.length ≤ maxStrDigits then some (.int n.toInt) else none

def scanNumber (cs : List Char) : Option (Json φ × List Char) :=
  (Numeral.scan cs).bind fun read => (numeralValue f read.1).map fun v => (v,read.2)

mutual

/-- One value at the beginning of a text; the fuel bounds the depth and the number of the calls. -/
@[grind =] def scanValue : Nat → List Char → Option (Json φ × List Char)
  | 0,_ => none
  | _ + 1,[] => none
  | fuel + 1,c :: rest =>
    if c = '"' then (scanString rest).map fun read => (.str read.1,read.2)
    else if c = '[' then
      match skipSpace rest with
      | ']' :: rest => some (.list [],rest)
      | rest => (scanItems fuel rest).map fun read => (.list read.1,read.2)
    else if c = '{' then
      match skipSpace rest with
      | '}' :: rest => some (.dict [],rest)
      | rest => (scanEntries fuel [] rest).map fun read => (.dict read.1,read.2)
    else (scanConstant f (c :: rest)).or (scanNumber f (c :: rest))

@[grind =] def scanItems : Nat → List Char → Option (List (Json φ) × List Char)
  | 0,_ => none
  | fuel + 1,cs =>
    match scanValue fuel cs with
    | none => none
    | some (v,rest) =>
      match skipSpace rest with
      | ']' :: rest => some ([v],rest)
      | ',' :: rest => (scanItems fuel (skipSpace rest)).map fun read => (v :: read.1,read.2)
      | _ => none

/-- A key that comes again keeps its place and gets the new value. -/
@[grind =] def scanEntries : Nat → List (String × Json φ) → List Char → Option (List (String × Json φ) × List Char)
  | 0,_,_ => none
  | fuel + 1,done,cs =>
    match cs with
    | '"' :: rest =>
      match scanString rest with
      | none => none
      | some (key,rest) =>
        match skipSpace rest with
        | ':' :: rest =>
          match scanValue fuel (skipSpace rest) with
          | none => none
          | some (v,rest) =>
            match skipSpace rest with
            | '}' :: rest => some (OrderedDict.insert key v done,rest)
            | ',' :: rest => scanEntries fuel (OrderedDict.insert key v done) (skipSpace rest)
            | _ => none
        | _ => none
    | _ => none

end

/-- `none` is a `JSONDecodeError`, or the `ValueError` for an integer that is too long. -/
def loads (text : String) : Option (Json φ) :=
  let cs := skipSpace text.toList
  match scanValue f (2 * cs.length + 1) cs with
  | some (v,rest) => if skipSpace rest = [] then some v else none
  | none => none

mutual

/-- What `dumps` accepts: no integer is too long, and a dictionary has no key twice. -/
def representable : Json φ → Bool
  | .int i => decide ((Nat.toDigits 10 i.natAbs).length ≤ maxStrDigits)
  | .list items => representableItems items
  | .dict entries => decide (entries.map Prod.fst).Nodup && representableEntries entries
  | _ => true

def representableItems : List (Json φ) → Bool
  | [] => true
  | v :: rest => representable v && representableItems rest

def representableEntries : List (String × Json φ) → Bool
  | [] => true
  | (_,v) :: rest => representable v && representableEntries rest

end

end

end PythonJson
