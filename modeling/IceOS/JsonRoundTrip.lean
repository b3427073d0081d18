import IceOS.JsonScanning

/-! What `dumps` writes is what `loads` reads back, and `loads` does not depend on the fuel of its scanner. -/
namespace PythonJson

section

variable {φ : Type} (f : FloatTexts φ)

/-! ### Reading a value back -/

theorem skipSpace_cons {c : Char} (shown : isSpace c = false) (rest : List Char) : skipSpace (c :: rest) = c :: rest := by
  simp only [skipSpace,List.dropWhile_cons,shown,Bool.false_eq_true,if_false]

theorem digit_plain {c : Char} (digit : c.isDigit = true) :
    isSpace c = false ∧ c ≠ '"' ∧ c ≠ '[' ∧ c ≠ '{' ∧ c ≠ ']' ∧ c ≠ '}' ∧ c ≠ 'n' ∧ c ≠ 't' ∧ c ≠ 'f' ∧ c ≠ 'N' ∧ c ≠ 'I' ∧
      c ≠ '-' := by
  refine ⟨?_,?_⟩
  · by_contra space
    simp only [isSpace,Bool.not_eq_false,Bool.or_eq_true,beq_iff_eq] at space
    rcases space with ((rfl | rfl) | rfl) | rfl <;> cases digit
  · refine ⟨?_,?_,?_,?_,?_,?_,?_,?_,?_,?_,?_⟩ <;> (rintro rfl; cases digit)

/-- A numeral begins with a digit, after a minus or not. -/
theorem Numeral.text_head {n : Numeral} (valid : n.Valid) : ∃ d more, d.isDigit = true ∧
    (n.text = d :: more ∨ n.text = '-' :: d :: more) := by
  obtain ⟨d,more,same,digit⟩ := whole_head valid
  simp only [Numeral.text,same]
  cases n.negative with
  | true => exact ⟨d,_,digit,.inr rfl⟩
  | false => exact ⟨d,_,digit,.inl rfl⟩

theorem scanConstant_numeral {n : Numeral} (valid : n.Valid) (rest : List Char) : scanConstant f (n.text ++ rest) = none := by
  obtain ⟨d,more,digit,text | text⟩ := Numeral.text_head valid
  all_goals
    obtain ⟨_,_,_,_,_,_,null,yes,no,nan,infinity,minus⟩ := digit_plain digit
    simp [scanConstant,constants,text,null.symm,yes.symm,no.symm,nan.symm,infinity.symm,minus.symm]

/-- A number is read back as the value of its numeral. -/
theorem scanValue_numeral {n : Numeral} (valid : n.Valid) (fuel : Nat) {rest : List Char} (ends : Ends rest) :
    scanValue f (fuel + 1) (n.text ++ rest) = (numeralValue f n).map fun v => (v,rest) := by
  have number : scanNumber f (n.text ++ rest) = (numeralValue f n).map fun v => (v,rest) := by
    simp only [scanNumber,Numeral.scan_text valid ends,Option.bind_some]
  have constant := scanConstant_numeral f valid rest
  obtain ⟨d,more,digit,text | text⟩ := Numeral.text_head valid
  · obtain ⟨_,quote,bracket,brace,_⟩ := digit_plain digit
    rw [text,List.cons_append] at number constant ⊢
    simp only [scanValue,quote,bracket,brace,if_false,constant,Option.none_or,number]
  · rw [text,List.cons_append] at number constant ⊢
    simp only [scanValue,Char.reduceEq,if_false,constant,Option.none_or,number]

theorem scanValue_float (x : φ) (fuel : Nat) {rest : List Char} (ends : Ends rest) :
    scanValue f (fuel + 1) ((f.text x).toList ++ rest) = some (.float x,rest) := by
  have back := f.read_text x
  rcases f.shape x with named | ⟨n,valid,float,text⟩
  · simp only [List.mem_cons,List.not_mem_nil,or_false] at named
    rcases named with same | same | same
    all_goals
      rw [same] at back ⊢
      simp [scanValue,scanConstant,constants,back]
  · have own : String.ofList n.text = f.text x := by rw [← text,String.ofList_toList]
    rw [text,scanValue_numeral f valid fuel ends,numeralValue,float,if_pos rfl,own,back]
    rfl

/-- A value begins with a character that is no space and closes nothing. -/
theorem valueText_head (v : Json φ) : ∃ c more, valueText f v = c :: more ∧ isSpace c = false ∧ c ≠ ']' ∧ c ≠ '}' := by
  have numeral {n : Numeral} (valid : n.Valid) : ∃ c more, n.text = c :: more ∧ isSpace c = false ∧ c ≠ ']' ∧ c ≠ '}' := by
    obtain ⟨d,more,digit,text | text⟩ := Numeral.text_head valid
    · obtain ⟨shown,_,_,_,bracket,brace,_⟩ := digit_plain digit
      exact ⟨d,more,text,shown,bracket,brace⟩
    · exact ⟨'-',d :: more,text,by decide⟩
  match v with
  | .null => exact ⟨'n',_,rfl,by decide⟩
  | .bool true => exact ⟨'t',_,rfl,by decide⟩
  | .bool false => exact ⟨'f',_,rfl,by decide⟩
  | .int i => exact numeral (intNumeral_valid i)
  | .float x =>
    simp only [valueText]
    rcases f.shape x with named | ⟨n,valid,_,text⟩
    · simp only [List.mem_cons,List.not_mem_nil,or_false] at named
      rcases named with same | same | same
      · exact ⟨'N',_,by rw [same]; rfl,by decide⟩
      · exact ⟨'I',_,by rw [same]; rfl,by decide⟩
      · exact ⟨'-',_,by rw [same]; rfl,by decide⟩
    · rw [text]
      exact numeral valid
  | .str text => exact ⟨'"',_,rfl,by decide⟩
  | .list [] | .list (_ :: _) => exact ⟨'[',_,rfl,by decide⟩
  | .dict [] | .dict (_ :: _) => exact ⟨'{',_,rfl,by decide⟩

theorem skipSpace_value (v : Json φ) (rest : List Char) : skipSpace (valueText f v ++ rest) = valueText f v ++ rest := by
  obtain ⟨c,more,text,shown,_⟩ := valueText_head f v
  rw [text]
  exact skipSpace_cons shown _

theorem skipSpace_blank (v : Json φ) (rest : List Char) :
    skipSpace (' ' :: (valueText f v ++ rest)) = valueText f v ++ rest := skipSpace_value f v rest

theorem fresh_key {done later : List (String × Json φ)} {key : String} {v : Json φ}
    (distinct : ((done ++ (key,v) :: later).map Prod.fst).Nodup) : key ∉ done.map Prod.fst := by
  intro member
  rw [List.map_append,List.map_cons] at distinct
  exact (List.nodup_append.mp distinct).2.2 key member key List.mem_cons_self rfl

/-- What the scanner has to do with a value that was written. -/
def Scans (v : Json φ) : Prop :=
  ∀ fuel rest, (valueText f v).length ≤ fuel → Ends rest → scanValue f fuel (valueText f v ++ rest) = some (v,rest)

mutual

theorem scans : ∀ v : Json φ, representable v = true → Scans f v
  | .null,_ => by
    intro fuel rest enough _
    cases fuel with
    | zero => cases enough
    | succ fuel => simp [valueText,scanValue,scanConstant,constants]
  | .bool true,_ => by
    intro fuel rest enough _
    cases fuel with
    | zero => cases enough
    | succ fuel => simp [valueText,scanValue,scanConstant,constants]
  | .bool false,_ => by
    intro fuel rest enough _
    cases fuel with
    | zero => cases enough
    | succ fuel => simp [valueText,scanValue,scanConstant,constants]
  | .int i,short => by
    intro fuel rest enough ends
    simp only [representable,decide_eq_true_eq] at short
    obtain ⟨d,more,digit,text⟩ := Numeral.text_head (intNumeral_valid i)
    cases fuel with
    | zero => rcases text with text | text <;> (rw [valueText,text] at enough; cases enough)
    | succ fuel =>
      have value : numeralValue f (intNumeral i) = some (.int i) := by
        rw [numeralValue,intNumeral_toInt]
        exact if_pos short
      rw [valueText,scanValue_numeral f (intNumeral_valid i) fuel ends,value]
      rfl
  | .float x,_ => by
    intro fuel rest enough ends
    obtain ⟨c,more,text,_⟩ := valueText_head f (.float x)
    cases fuel with
    | zero =>
      rw [text] at enough
      cases enough
    | succ fuel => exact scanValue_float f x fuel ends
  | .str text,_ => by
    intro fuel rest enough _
    cases fuel with
    | zero => cases enough
    | succ fuel =>
      simp only [valueText,stringText,List.cons_append,List.append_assoc,List.nil_append,scanValue,if_true,scanString_text,
        Option.map_some]
  | .list [],_ => by
    intro fuel rest enough _
    cases fuel with
    | zero => cases enough
    | succ fuel => simp [valueText,scanValue,skipSpace_cons (show isSpace ']' = false by decide)]
  | .list (v :: items),fits => by
    intro fuel rest enough _
    simp only [representable,representableItems,Bool.and_eq_true] at fits
    cases fuel with
    | zero => cases enough
    | succ fuel =>
      have room : (valueText f v ++ itemsText f items).length ≤ fuel := by
        simpa [valueText] using enough
      have read := scansItems items fits.2 v fuel rest room (scans v fits.1)
      have skipped := skipSpace_value f v (itemsText f items ++ rest)
      obtain ⟨c,more,text,_,bracket,_⟩ := valueText_head f v
      rw [text,List.cons_append] at skipped read
      simp only [valueText,text,List.cons_append,List.append_assoc,scanValue,Char.reduceEq,if_false,if_true,skipped]
      split
      · next same =>
        cases same
        exact absurd rfl bracket
      · rw [read]
        rfl
  | .dict [],_ => by
    intro fuel rest enough _
    cases fuel with
    | zero => cases enough
    | succ fuel => simp [valueText,scanValue,skipSpace_cons (show isSpace '}' = false by decide)]
  | .dict ((key,v) :: entries),fits => by
    intro fuel rest enough _
    simp only [representable,representableEntries,Bool.and_eq_true,decide_eq_true_eq] at fits
    cases fuel with
    | zero => cases enough
    | succ fuel =>
      have room : (stringText key ++ (':' :: ' ' :: (valueText f v ++ entriesText f entries))).length ≤ fuel := by
        simpa [valueText] using enough
      have read := scansEntries entries fits.2.2 [] key v fuel rest fits.1 room (scans v fits.2.1)
      simp only [valueText,stringText,List.cons_append,List.append_assoc,List.nil_append,scanValue,Char.reduceEq,if_false,
        if_true,skipSpace_cons (show isSpace '"' = false by decide)] at read ⊢
      split
      · next same => cases same
      · rw [read]
        rfl

theorem scansItems : ∀ items : List (Json φ), representableItems items = true → ∀ v fuel rest,
    (valueText f v ++ itemsText f items).length ≤ fuel → Scans f v →
    scanItems f fuel (valueText f v ++ (itemsText f items ++ rest)) = some (v :: items,rest)
  | [],_ => by
    intro v fuel rest enough first
    cases fuel with
    | zero => simp [itemsText] at enough
    | succ fuel =>
      have read := first fuel (']' :: rest) (by simpa [itemsText] using enough) (.cons (.inr (.inl rfl)) rest)
      simp only [itemsText,List.cons_append,List.nil_append,scanItems,read,skipSpace_cons (show isSpace ']' = false by decide)]
  | w :: items,fits => by
    intro v fuel rest enough first
    simp only [representableItems,Bool.and_eq_true] at fits
    cases fuel with
    | zero => simp [itemsText] at enough
    | succ fuel =>
      have room : (valueText f v).length + ((valueText f w ++ itemsText f items).length + 2) ≤ fuel + 1 := by
        simpa [itemsText] using enough
      have read := first fuel (',' :: ' ' :: (valueText f w ++ (itemsText f items ++ rest))) (by omega) (.cons (.inl rfl) _)
      have later := scansItems items fits.2 w fuel rest (by omega) (scans w fits.1)
      have blank : skipSpace (' ' :: (valueText f w ++ (itemsText f items ++ rest))) =
          valueText f w ++ (itemsText f items ++ rest) := skipSpace_value f w _
      simp only [itemsText,List.cons_append,List.append_assoc,scanItems,read,
        skipSpace_cons (show isSpace ',' = false by decide),blank,later,Option.map_some]

theorem scansEntries : ∀ entries : List (String × Json φ), representableEntries entries = true →
    ∀ done key v fuel rest, ((done ++ (key,v) :: entries).map Prod.fst).Nodup →
      (stringText key ++ (':' :: ' ' :: (valueText f v ++ entriesText f entries))).length ≤ fuel → Scans f v →
      scanEntries f fuel done (stringText key ++ (':' :: ' ' :: (valueText f v ++ (entriesText f entries ++ rest)))) =
        some (done ++ (key,v) :: entries,rest)
  | [],_ => by
    intro done key v fuel rest distinct enough first
    cases fuel with
    | zero => cases enough
    | succ fuel =>
      have room : (valueText f v).length ≤ fuel := by
        simp only [stringText,entriesText,List.length_cons,List.length_append,List.length_nil] at enough
        omega
      have read := first fuel ('}' :: rest) room (.cons (.inr (.inr rfl)) rest)
      have inserted := OrderedDict.insert_fresh key v done (fresh_key distinct)
      simp only [stringText,entriesText,List.cons_append,List.append_assoc,List.nil_append,scanEntries,scanString_text,
        skipSpace_cons (show isSpace ':' = false by decide),skipSpace_blank,read,
        skipSpace_cons (show isSpace '}' = false by decide),inserted]
  | (other,w) :: entries,fits => by
    intro done key v fuel rest distinct enough first
    simp only [representableEntries,Bool.and_eq_true] at fits
    cases fuel with
    | zero => cases enough
    | succ fuel =>
      have room : (valueText f v).length + ((stringText other ++ (':' :: ' ' :: (valueText f w ++
          entriesText f entries))).length + 2) ≤ fuel := by
        simp only [stringText,entriesText,List.length_cons,List.length_append,List.length_nil] at enough ⊢
        omega
      have read := first fuel (entriesText f ((other,w) :: entries) ++ rest) (by omega) (.cons (.inl rfl) _)
      have inserted := OrderedDict.insert_fresh key v done (fresh_key distinct)
      have later := scansEntries entries fits.2 (done ++ [(key,v)]) other w fuel rest
        (by rw [List.append_assoc]; exact distinct) (by omega) (scans w fits.1)
      simp only [stringText,entriesText,List.cons_append,List.append_assoc,List.nil_append,scanEntries,scanString_text,
        skipSpace_cons (show isSpace ':' = false by decide),skipSpace_blank] at read later ⊢
      simp only [read,skipSpace_cons (show isSpace ',' = false by decide),inserted]
      exact later

end

/-- What is written is read back. -/
theorem loads_dumps {v : Json φ} (fits : representable v = true) : loads f (dumps f v) = some v := by
  have skipped := skipSpace_value f v []
  have read := scans f v fits (2 * (valueText f v).length + 1) [] (by omega) .nil
  rw [List.append_nil] at skipped read
  simp only [loads,dumps,String.toList_ofList,skipped,read]
  rfl

end

/-! ### Fuel -/

section

variable {φ : Type} (f : FloatTexts φ)

theorem skipSpace_length (cs : List Char) : (skipSpace cs).length ≤ cs.length :=
  (List.dropWhile_sublist isSpace).length_le

/-- Whatever is scanned, something is consumed. -/
def Consumes (scanner : List Char → Option (α × List Char)) : Prop :=
  ∀ cs read, scanner cs = some read → read.2.length < cs.length

theorem Reads.consumes {scanner : List Char → Option (α × List Char)} (reads : Reads scanner) : Consumes scanner := by
  intro cs read scanned
  obtain ⟨pre,text,closed,-⟩ := reads cs _ _ scanned
  obtain ⟨first,more,rfl⟩ := closed.cons_eq
  rw [text,List.length_append,List.length_cons]
  omega

/-- The three scanners consume something. -/
theorem shorter (fuel : Nat) :
    Consumes (scanValue f fuel) ∧ Consumes (scanItems f fuel) ∧ ∀ done, Consumes (scanEntries f fuel done) := by
  obtain ⟨value,items,entries⟩ := scanners_read f fuel
  exact ⟨value.consumes,items.consumes,fun done => (entries done).consumes⟩

/-- On a text that leaves some of the fuel over, more of it changes nothing. -/
def Settled (fuel extra : Nat) (scanner : Nat → List Char → Option α) : Prop :=
  ∀ cs, 2 * cs.length + extra < fuel → scanner (fuel + 1) cs = scanner fuel cs

section

variable {fuel : Nat}

theorem scanValue_settled (items : Settled fuel 1 (scanItems f))
    (entries : ∀ done, Settled fuel 1 fun fuel => scanEntries f fuel done) : Settled (fuel + 1) 0 (scanValue f) := by
  intro cs enough
  cases cs with
  | nil => rfl
  | cons c rest =>
    have skipped := skipSpace_length rest
    simp only [List.length_cons] at enough
    have inner := items (skipSpace rest) (by omega)
    have members := entries [] (skipSpace rest) (by omega)
    dsimp only at members
    simp only [scanValue]
    split
    · rfl
    · split
      · split
        · rfl
        · rw [inner]
      · split
        · split
          · rfl
          · rw [members]
        · rfl

theorem scanItems_settled (value : Settled fuel 0 (scanValue f)) (items : Settled fuel 1 (scanItems f)) :
    Settled (fuel + 1) 1 (scanItems f) := by
  intro cs enough
  rw [scanItems.eq_def f (fuel + 1 + 1),scanItems.eq_def f (fuel + 1)]
  dsimp only
  rw [value cs (by omega)]
  split
  · rfl
  · next v rest first =>
    have consumed := (shorter f fuel).1 cs _ first
    have skipped := skipSpace_length rest
    split
    · rfl
    · next more same =>
      have again := skipSpace_length more
      rw [same,List.length_cons] at skipped
      dsimp only at consumed
      rw [items (skipSpace more) (by omega)]
    · rfl

theorem scanEntries_settled (value : Settled fuel 0 (scanValue f))
    (entries : ∀ done, Settled fuel 1 fun fuel => scanEntries f fuel done) (done : List (String × Json φ)) :
    Settled (fuel + 1) 1 fun fuel => scanEntries f fuel done := by
  intro cs enough
  dsimp only
  rw [scanEntries.eq_def f (fuel + 1 + 1),scanEntries.eq_def f (fuel + 1)]
  dsimp only
  split
  · next rest =>
    split
    · rfl
    · next key afterKey string =>
      have keyRead : afterKey.length < _ := scanString_reads.consumes _ _ string
      have colon := skipSpace_length afterKey
      split
      · next afterColon here =>
        rw [here,List.length_cons] at colon
        have blank := skipSpace_length afterColon
        simp only [List.length_cons] at enough
        rw [value (skipSpace afterColon) (by omega)]
        split
        · rfl
        · next v afterValue found =>
          have consumed := (shorter f fuel).1 _ _ found
          have skipped := skipSpace_length afterValue
          split
          · rfl
          · next more same =>
            have again := skipSpace_length more
            rw [same,List.length_cons] at skipped
            dsimp only at consumed
            exact entries _ (skipSpace more) (by omega)
          · rfl
      · rfl
  · rfl

end

/-- Once the fuel suffices, more of it changes nothing: a scanner fails on what it cannot read, never for want of fuel. -/
theorem fuel_enough (fuel : Nat) :
    Settled fuel 0 (scanValue f) ∧ Settled fuel 1 (scanItems f) ∧
      ∀ done, Settled fuel 1 fun fuel => scanEntries f fuel done := by
  induction fuel with
  | zero => exact ⟨fun _ short => absurd short (Nat.not_lt_zero _),fun _ short => absurd short (Nat.not_lt_zero _),
      fun _ _ short => absurd short (Nat.not_lt_zero _)⟩
  | succ fuel ih =>
    obtain ⟨value,items,entries⟩ := ih
    exact ⟨scanValue_settled f items entries,scanItems_settled f value items,scanEntries_settled f value entries⟩

theorem scanValue_fuel {cs : List Char} {n m : Nat} (enough : 2 * cs.length < n) (more : n ≤ m) :
    scanValue f m cs = scanValue f n cs := by
  induction more with
  | refl => rfl
  | @step m more ih => rw [(fuel_enough f m).1 cs (Nat.lt_of_lt_of_le enough more),ih]

/-- What `loads` answers does not depend on its fuel. -/
theorem loads_fuel (text : String) {fuel : Nat} (more : 2 * (skipSpace text.toList).length < fuel) :
    loads f text = (scanValue f fuel (skipSpace text.toList)).bind fun read =>
      if skipSpace read.2 = [] then some read.1 else none := by
  rw [scanValue_fuel f (Nat.lt_succ_self _) more]
  simp only [loads]
  cases scanValue f (2 * (skipSpace text.toList).length + 1) (skipSpace text.toList) with
  | none => rfl
  | some read => rfl

end

end PythonJson
