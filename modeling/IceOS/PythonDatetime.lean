import Mathlib.Algebra.Group.Nat.Defs
import Mathlib.Data.List.Basic

/-! Naive `datetime` objects of Python: their ISO texts, which are read back, and their order. -/
namespace PythonDatetime

def daysInMonth (year month : Nat) : Nat :=
  if month = 2 then if year % 4 = 0 ∧ (year % 100 ≠ 0 ∨ year % 400 = 0) then 29 else 28
  else if month ∈ [4,6,9,11] then 30 else 31

/-- A date and a time that the calendar and the clock have. -/
structure DateTime where
  year : Nat
  month : Nat
  day : Nat
  hour : Nat
  minute : Nat
  second : Nat
  microsecond : Nat
  year_bounds : 1 ≤ year ∧ year ≤ 9999
  month_bounds : 1 ≤ month ∧ month ≤ 12
  day_bounds : 1 ≤ day ∧ day ≤ daysInMonth year month
  hour_bound : hour < 24
  minute_bound : minute < 60
  second_bound : second < 60
  microsecond_bound : microsecond < 1000000
  deriving DecidableEq, Repr

/-- A decimal of a fixed width. -/
def pad : Nat → Nat → List Char
  | 0,_ => []
  | width + 1,n => pad width (n / 10) ++ [(n % 10).digitChar]

/-- Reads a decimal of a fixed width. -/
def readPad : Nat → List Char → Option (Nat × List Char)
  | 0,cs => some (0,cs)
  | width + 1,cs =>
    match readPad width cs with
    | some (n,c :: rest) => if c.isDigit then some (10 * n + (c.toNat - 48),rest) else none
    | _ => none

theorem readPad_pad {width n : Nat} (fits : n < 10 ^ width) (rest : List Char) :
    readPad width (pad width n ++ rest) = some (n,rest) := by
  induction width generalizing n rest with
  | zero =>
    have zero : n = 0 := by simpa using fits
    rw [zero]
    rfl
  | succ width ih =>
    have high : n / 10 < 10 ^ width := by
      rw [Nat.pow_succ] at fits
      omega
    have digit : n % 10 < 10 := Nat.mod_lt n (by decide)
    simp only [pad,List.append_assoc,List.cons_append,List.nil_append,readPad,ih high,Nat.isDigit_digitChar,digit,decide_true,
      if_true,Nat.toNat_digitChar_sub_48_of_lt_ten digit]
    congr 2
    omega

/-- Reads a separator and then a decimal. -/
def readField (separator : Char) (width : Nat) (cs : List Char) : Option (Nat × List Char) :=
  match cs with
  | c :: rest => if c = separator then readPad width rest else none
  | [] => none

theorem readField_pad (separator : Char) {width n : Nat} (fits : n < 10 ^ width) (rest : List Char) :
    readField separator width (separator :: (pad width n ++ rest)) = some (n,rest) := by
  simp only [readField,if_true,readPad_pad fits]

namespace DateTime

def dateChars (t : DateTime) : List Char :=
  pad 4 t.year ++ ('-' :: (pad 2 t.month ++ ('-' :: pad 2 t.day)))

/-- `strftime("%Y-%m-%d")` -/
def date (t : DateTime) : String := String.ofList t.dateChars

def fraction (microsecond : Nat) : List Char := if microsecond = 0 then [] else '.' :: pad 6 microsecond

def isoformat (t : DateTime) : String :=
  String.ofList (pad 4 t.year ++ ('-' :: (pad 2 t.month ++ ('-' :: (pad 2 t.day ++ ('T' :: (pad 2 t.hour ++
    (':' :: (pad 2 t.minute ++ (':' :: (pad 2 t.second ++ fraction t.microsecond)))))))))))

def readFraction : List Char → Option (Nat × List Char)
  | [] => some (0,[])
  | cs => readField '.' 6 cs

/-- `fromisoformat`, on texts of the form that `isoformat` writes. -/
def fromisoformat (text : String) : Option DateTime := do
  let (year,rest) ← readPad 4 text.toList
  let (month,rest) ← readField '-' 2 rest
  let (day,rest) ← readField '-' 2 rest
  let (hour,rest) ← readField 'T' 2 rest
  let (minute,rest) ← readField ':' 2 rest
  let (second,rest) ← readField ':' 2 rest
  let (microsecond,rest) ← readFraction rest
  if bounds : (1 ≤ year ∧ year ≤ 9999) ∧ (1 ≤ month ∧ month ≤ 12) ∧ (1 ≤ day ∧ day ≤ daysInMonth year month) ∧ hour < 24 ∧
      minute < 60 ∧ second < 60 ∧ microsecond < 1000000 ∧ rest = [] then
    some ⟨year,month,day,hour,minute,second,microsecond,bounds.1,bounds.2.1,bounds.2.2.1,bounds.2.2.2.1,bounds.2.2.2.2.1,
      bounds.2.2.2.2.2.1,bounds.2.2.2.2.2.2.1⟩
  else none

theorem readFraction_fraction {microsecond : Nat} (bound : microsecond < 1000000) :
    readFraction (fraction microsecond) = some (microsecond,[]) := by
  simp only [fraction]
  split
  · next zero =>
    rw [zero]
    rfl
  · have read := readField_pad '.' (show microsecond < 10 ^ 6 from bound) []
    rw [List.append_nil] at read
    exact read

theorem daysInMonth_le (year month : Nat) : daysInMonth year month ≤ 31 := by
  simp only [daysInMonth]
  split
  · split <;> decide
  · split <;> decide

/-- An ISO text is read back. -/
theorem fromisoformat_isoformat (t : DateTime) : fromisoformat t.isoformat = some t := by
  have day : t.day < 10 ^ 2 := by
    have below := t.day_bounds.2
    have most := daysInMonth_le t.year t.month
    omega
  have year : t.year < 10 ^ 4 := by
    have below := t.year_bounds.2
    omega
  have month : t.month < 10 ^ 2 := by
    have below := t.month_bounds.2
    omega
  have hour : t.hour < 10 ^ 2 := by
    have below := t.hour_bound
    omega
  have minute : t.minute < 10 ^ 2 := by
    have below := t.minute_bound
    omega
  have second : t.second < 10 ^ 2 := by
    have below := t.second_bound
    omega
  simp only [fromisoformat,isoformat,String.toList_ofList,readPad_pad year,readField_pad _ month,readField_pad _ day,
    readField_pad _ hour,readField_pad _ minute,readField_pad _ second,readFraction_fraction t.microsecond_bound,
    Option.bind_eq_bind,Option.bind_some,t.year_bounds,t.month_bounds,t.day_bounds,t.hour_bound,t.minute_bound,
    t.second_bound,t.microsecond_bound,and_self,dif_pos]

/-- The place of a moment in time. -/
def value (t : DateTime) : Nat :=
  (((((t.year * 13 + t.month) * 32 + t.day) * 24 + t.hour) * 60 + t.minute) * 60 + t.second) * 1000000 + t.microsecond

end DateTime

end PythonDatetime
