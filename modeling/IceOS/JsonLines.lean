import IceOS.JsonTexts

/-! Values on lines of their own: what was read can be written, and what is written is one line. -/
namespace PythonJson

variable {φ : Type} (f : FloatTexts φ)

/-! ### What is read can be written -/

theorem ofDigitChars_lt {digits : List Char} (all : ∀ c ∈ digits, c.isDigit = true) (init : Nat) :
    Nat.ofDigitChars 10 digits init < 10 ^ digits.length * (init + 1) := by
  induction digits generalizing init with
  | nil => simp
  | cons c digits ih =>
    obtain ⟨digit,others⟩ := List.forall_mem_cons.mp all
    have small : c.toNat - '0'.toNat < 10 := by
      have bounds := Char.isDigit_iff_toNat.mp digit
      have zero : '0'.toNat = 48 := rfl
      have nine : '9'.toNat = 57 := rfl
      omega
    calc Nat.ofDigitChars 10 (c :: digits) init
        = Nat.ofDigitChars 10 digits (10 * init + (c.toNat - '0'.toNat)) := Nat.ofDigitChars_cons
      _ < 10 ^ digits.length * (10 * init + (c.toNat - '0'.toNat) + 1) := ih others _
      _ ≤ 10 ^ digits.length * (10 * (init + 1)) := Nat.mul_le_mul_left _ (by omega)
      _ = 10 ^ (c :: digits).length * (init + 1) := by rw [List.length_cons,Nat.pow_succ,Nat.mul_assoc]

theorem scanWhole_digits {cs : List Char} {read : List Char × List Char} (scanned : Numeral.scanWhole cs = some read) :
    Numeral.Digits read.1 := by
  cases cs with
  | nil => cases scanned
  | cons c rest =>
    simp only [Numeral.scanWhole] at scanned
    split at scanned
    · cases scanned
      exact ⟨List.cons_ne_nil _ _,by simp⟩
    · split at scanned
      · next digit =>
        cases scanned
        rw [List.span_eq_takeWhile_dropWhile,List.takeWhile_cons_of_pos digit]
        exact ⟨List.cons_ne_nil _ _,List.forall_mem_cons.mpr ⟨digit,fun _ => List.mem_takeWhile_imp⟩⟩
      · cases scanned

theorem numeralValue_representable {n : Numeral} {v : Json φ} (digits : Numeral.Digits n.whole)
    (value : numeralValue f n = some v) : representable v = true := by
  simp only [numeralValue] at value
  split at value
  · cases value
    rfl
  · split at value
    · next short =>
      cases value
      have magnitude : n.toInt.natAbs = Nat.ofDigitChars 10 n.whole 0 := by
        simp only [Numeral.toInt]
        split <;> omega
      have bound := ofDigitChars_lt digits.2 0
      rw [Nat.mul_one] at bound
      simp only [representable,decide_eq_true_eq,magnitude]
      exact Nat.le_trans ((Nat.length_toDigits_le_iff (by decide) (List.length_pos_iff.mpr digits.1)).mpr bound) short
    · cases value

theorem scanNumber_representable {cs : List Char} {read : Json φ × List Char} (scanned : scanNumber f cs = some read) :
    representable read.1 = true := by
  obtain ⟨⟨n,left⟩,number,valued⟩ := Option.bind_eq_some_iff.mp scanned
  obtain ⟨v,value,same⟩ := Option.map_eq_some_iff.mp valued
  obtain ⟨whole,first,parts⟩ := Option.map_eq_some_iff.mp number
  cases parts
  cases same
  exact numeralValue_representable f (scanWhole_digits first) value

theorem scanConstant_representable {cs : List Char} {read : Json φ × List Char} (scanned : scanConstant f cs = some read) :
    representable read.1 = true := by
  obtain ⟨entry,listed,fits⟩ := List.exists_of_findSome?_eq_some scanned
  split at fits
  · cases fits
    simp only [constants,List.mem_cons,List.not_mem_nil,or_false] at listed
    rcases listed with rfl | rfl | rfl | rfl | rfl | rfl <;> rfl
  · cases fits

theorem insert_representable (key : String) {v : Json φ} (fits : representable v = true) {entries : List (String × Json φ)}
    (all : representableEntries entries = true) : representableEntries (OrderedDict.insert key v entries) = true := by
  induction entries with
  | nil => simp [OrderedDict.insert,representableEntries,fits]
  | cons entry rest ih =>
    simp only [representableEntries,Bool.and_eq_true] at all
    simp only [OrderedDict.insert]
    split <;> simp [representableEntries,fits,all,ih all.2]

/-- What the three scanners read can be written. -/
structure Writes (fuel : Nat) : Prop where
  value : ∀ cs read, scanValue f fuel cs = some read → representable read.1 = true
  items : ∀ cs read, scanItems f fuel cs = some read → representableItems read.1 = true
  entries : ∀ done cs read, scanEntries f fuel done cs = some read → (done.map Prod.fst).Nodup →
    representableEntries done = true → (read.1.map Prod.fst).Nodup ∧ representableEntries read.1 = true

theorem Writes.next {fuel : Nat} (writes : Writes f fuel) : Writes f (fuel + 1) where
  value cs read scanned := by
    cases cs with
    | nil => cases scanned
    | cons c rest =>
      simp only [scanValue] at scanned
      split at scanned
      · obtain ⟨text,-,same⟩ := Option.map_eq_some_iff.mp scanned
        cases same
        rfl
      · split at scanned
        · split at scanned
          · cases scanned
            rfl
          · obtain ⟨read,found,same⟩ := Option.map_eq_some_iff.mp scanned
            cases same
            exact writes.items _ _ found
        · split at scanned
          · split at scanned
            · cases scanned
              rfl
            · obtain ⟨read,found,same⟩ := Option.map_eq_some_iff.mp scanned
              cases same
              obtain ⟨distinct,all⟩ := writes.entries [] _ _ found List.nodup_nil rfl
              simp only [representable,distinct,all,decide_true,Bool.and_self]
          · rcases Option.or_eq_some_iff.mp scanned with constant | ⟨-,number⟩
            · exact scanConstant_representable f constant
            · exact scanNumber_representable f number
  items cs read scanned := by
    obtain ⟨v,afterValue,first,ending⟩ := scanItems_cases f scanned
    have fits : representable v = true := writes.value _ _ first
    rcases ending with ⟨left,-,rfl⟩ | ⟨left,more,-,found,rfl⟩
    · simp only [representableItems,fits,Bool.and_self]
    · simp only [representableItems,fits,writes.items _ _ found,Bool.and_self]
  entries done cs read scanned distinct all := by
    obtain ⟨text,key,afterKey,afterColon,v,afterValue,-,-,-,own,ending⟩ := scanEntries_cases f scanned
    have inserted := insert_representable key (writes.value _ _ own) all
    have apart := OrderedDict.insert_nodup key v distinct
    rcases ending with ⟨left,-,rfl⟩ | ⟨left,-,found⟩
    · exact ⟨apart,inserted⟩
    · exact writes.entries _ _ _ found apart inserted

theorem writes (fuel : Nat) : Writes f fuel := by
  induction fuel with
  | zero =>
    constructor
    · intro cs read scanned
      cases scanned
    · intro cs read scanned
      cases scanned
    · intro done cs read scanned
      cases scanned
  | succ fuel ih => exact ih.next

theorem loads_representable {text : String} {v : Json φ} (loaded : loads f text = some v) : representable v = true := by
  obtain ⟨rest,scanned,-⟩ := (loads_eq_some f).mp loaded
  exact (writes f _).value _ _ scanned

theorem entries_representable {entries : List (String × Json φ)} (all : representableEntries entries = true) :
    ∀ entry ∈ entries, representable entry.2 = true := by
  induction entries with
  | nil => exact fun entry member => (List.not_mem_nil member).elim
  | cons entry rest ih =>
    simp only [representableEntries,Bool.and_eq_true] at all
    exact List.forall_mem_cons.mpr ⟨all.1,ih all.2⟩

theorem lookup_representable {entries : List (String × Json φ)} (fits : representable (.dict entries) = true) {key : String}
    {v : Json φ} (found : entries.lookup key = some v) : representable v = true := by
  obtain ⟨before,after,parts,-⟩ := List.lookup_eq_some_iff.mp found
  simp only [representable,Bool.and_eq_true] at fits
  exact entries_representable fits.2 (key,v) (parts ▸ List.mem_append_right _ List.mem_cons_self)

theorem int_representable {i : Int} (short : i.natAbs < 10 ^ 5) : representable (.int i : Json φ) = true := by
  simp only [representable,decide_eq_true_eq]
  exact Nat.le_trans ((Nat.length_toDigits_le_iff (by decide) (by decide)).mpr short) (by decide)

/-! ### What is written is one line -/

/-- A printable character of ASCII. -/
def printable (c : Char) : Bool := decide (0x20 ≤ c.toNat) && decide (c.toNat ≤ 0x7e)

theorem digitChar_printable (n : Nat) : printable n.digitChar = true := by
  rcases Nat.lt_or_ge n 16 with small | large
  · have each : ∀ n < 16, printable n.digitChar = true := by decide
    exact each n small
  · have other (k : Nat) (below : k < 16) : n ≠ k := by omega
    simp [Nat.digitChar,other,printable]

theorem isDigit_printable {c : Char} (digit : c.isDigit = true) : printable c = true := by
  have bounds := Char.isDigit_iff_toNat.mp digit
  have zero : '0'.toNat = 48 := rfl
  have nine : '9'.toNat = 57 := rfl
  simp only [printable,Bool.and_eq_true,decide_eq_true_eq]
  omega

theorem escape_printable (c : Char) : ∀ d ∈ escape c, printable d = true := by
  simp only [escape]
  split
  · next letter short =>
    obtain ⟨before,after,parts,-⟩ := List.lookup_eq_some_iff.mp short
    have listed : (c,letter) ∈ shortEscapes := parts ▸ List.mem_append_right _ List.mem_cons_self
    have each : ∀ pair ∈ shortEscapes, printable pair.2 = true := by decide
    exact List.forall_mem_cons.mpr ⟨rfl,by simpa using each _ listed⟩
  · split
    · next shown => simpa [printable] using shown
    · intro d member
      obtain ⟨u,-,inside⟩ := List.mem_flatMap.mp member
      simp only [hex4,List.mem_cons,List.not_mem_nil,or_false] at inside
      rcases inside with rfl | rfl | rfl | rfl | rfl | rfl
      · rfl
      · rfl
      all_goals exact digitChar_printable _

theorem stringText_printable (text : String) : ∀ c ∈ stringText text, printable c = true := by
  intro c member
  simp only [stringText,List.mem_cons,List.mem_append,List.mem_flatMap,List.not_mem_nil,or_false] at member
  rcases member with rfl | ⟨d,-,inside⟩ | rfl
  · rfl
  · exact escape_printable d c inside
  · rfl

theorem text_printable {n : Numeral} (valid : n.Valid) : ∀ c ∈ n.text, printable c = true := by
  have whole : ∀ c ∈ n.whole, printable c = true := by
    rcases valid.whole with same | digits
    · simp [same,printable]
    · exact fun c member => isDigit_printable (digits.1.2 c member)
  have fraction : ∀ c ∈ Numeral.fractionText n.fraction, printable c = true := by
    cases same : n.fraction with
    | none => simp [Numeral.fractionText]
    | some digits =>
      refine List.forall_mem_cons.mpr ⟨rfl,fun c member => isDigit_printable ?_⟩
      exact (valid.fraction digits same).2 c member
  have exponent : ∀ c ∈ Numeral.exponentText n.exponent, printable c = true := by
    cases same : n.exponent with
    | none => simp [Numeral.exponentText]
    | some parts =>
      obtain ⟨letter,sign,digits⟩ := parts
      obtain ⟨lettered,signed,-,all⟩ := valid.exponent letter sign digits same
      refine List.forall_mem_cons.mpr ⟨?_,fun c member => ?_⟩
      · rcases lettered with rfl | rfl <;> rfl
      · rcases List.mem_append.mp member with inside | inside
        · rcases signed with rfl | rfl | rfl
          · cases inside
          · rw [List.mem_singleton.mp inside]
            rfl
          · rw [List.mem_singleton.mp inside]
            rfl
        · exact isDigit_printable (all c inside)
  intro c member
  simp only [Numeral.text,List.mem_append] at member
  rcases member with sign | inside | inside | inside
  · split at sign
    · rw [List.mem_singleton.mp sign]
      rfl
    · cases sign
  · exact whole c inside
  · exact fraction c inside
  · exact exponent c inside

mutual

theorem valueText_printable : ∀ v : Json φ, ∀ c ∈ valueText f v, printable c = true
  | .null | .bool true | .bool false => by simp [valueText,printable]
  | .int i => text_printable (intNumeral_valid i)
  | .float x => by
    simp only [valueText]
    rcases f.shape x with named | ⟨n,valid,-,text⟩
    · simp only [List.mem_cons,List.not_mem_nil,or_false] at named
      rcases named with same | same | same <;> (rw [same]; exact List.all_eq_true.mp rfl)
    · rw [text]
      exact text_printable valid
  | .str text => stringText_printable text
  | .list [] | .dict [] => by simp [valueText,printable]
  | .list (v :: rest) => by
    simp only [valueText,List.forall_mem_cons,List.forall_mem_append]
    exact ⟨rfl,valueText_printable v,itemsText_printable rest⟩
  | .dict ((key,v) :: rest) => by
    simp only [valueText,List.forall_mem_cons,List.forall_mem_append]
    exact ⟨rfl,stringText_printable key,rfl,rfl,valueText_printable v,entriesText_printable rest⟩

theorem itemsText_printable : ∀ items : List (Json φ), ∀ c ∈ itemsText f items, printable c = true
  | [] => by simp [itemsText,printable]
  | v :: rest => by
    simp only [itemsText,List.forall_mem_cons,List.forall_mem_append]
    exact ⟨rfl,rfl,valueText_printable v,itemsText_printable rest⟩

theorem entriesText_printable : ∀ entries : List (String × Json φ), ∀ c ∈ entriesText f entries, printable c = true
  | [] => by simp [entriesText,printable]
  | (key,v) :: rest => by
    simp only [entriesText,List.forall_mem_cons,List.forall_mem_append]
    exact ⟨rfl,rfl,stringText_printable key,rfl,rfl,valueText_printable v,entriesText_printable rest⟩

end

/-- What is written takes one line. -/
theorem dumps_line (v : Json φ) : '\n' ∉ (dumps f v).toList := by
  intro member
  rw [dumps,String.toList_ofList] at member
  cases valueText_printable f v '\n' member

/-- `strip` takes nothing of what is written. -/
theorem strip_dumps {v : Json φ} (fits : representable v = true) : PythonText.strip (dumps f v) = dumps f v := by
  have scanned := scans f v fits (valueText f v).length [] (Nat.le_refl _) .nil
  rw [List.append_nil] at scanned
  obtain ⟨pre,text,⟨last,ends,edge⟩,-⟩ := (scanners_read f _).1 _ _ _ scanned
  rw [List.append_nil] at text
  obtain ⟨c,more,begins,-⟩ := valueText_head f v
  have front : ∀ d ∈ (valueText f v).head?, PythonText.isSpace d = false := by
    intro d same
    rw [begins] at scanned same
    cases same
    exact (edge_shown (scanValue_head f scanned)).1
  have back : ∀ d ∈ (valueText f v).getLast?, PythonText.isSpace d = false := by
    rw [text,ends]
    intro d same
    cases same
    exact (edge_shown edge).1
  rw [PythonText.strip,dumps,String.toList_ofList,PythonText.stripChars_eq_self front back]

end PythonJson
