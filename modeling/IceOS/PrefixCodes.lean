import Mathlib.Data.List.Basic
import Mathlib.Logic.Function.Basic

/-! Encodings of which none is the beginning of another, so that what was written one after the other
can be taken apart again. -/
namespace PrefixCodes

variable {α β γ : Type}

/-- A code is the first thing in at most one text. -/
def Separates (code : α → List Char) : Prop :=
  ∀ a b rest others, code a ++ rest = code b ++ others → a = b ∧ rest = others

def bool (b : Bool) : List Char := [if b then '1' else '0']

def pair (first : α → List Char) (second : β → List Char) (p : α × β) : List Char := first p.1 ++ second p.2

/-- Each item follows a plus sign, and a full stop ends the list. -/
def list (code : α → List Char) : List α → List Char
  | [] => ['.']
  | a :: rest => '+' :: code a ++ list code rest

def string (s : String) : List Char := list (fun c => [c]) s.toList

def option (code : α → List Char) (o : Option α) : List Char := list code o.toList

theorem bool_separates : Separates bool := by
  intro a b rest others same
  cases a <;> cases b <;> simp_all [bool]

theorem char_separates : Separates fun c : Char => [c] := by
  intro a b rest others same
  exact List.cons.inj same

theorem pair_separates {first : α → List Char} {second : β → List Char} (one : Separates first)
    (two : Separates second) : Separates (pair first second) := by
  intro a b rest others same
  simp only [pair,List.append_assoc] at same
  obtain ⟨left,later⟩ := one _ _ _ _ same
  obtain ⟨right,after⟩ := two _ _ _ _ later
  exact ⟨Prod.ext left right,after⟩

theorem list_separates {code : α → List Char} (items : Separates code) : Separates (list code) := by
  intro a
  induction a with
  | nil =>
    intro b rest others same
    cases b with
    | nil => exact ⟨rfl,(List.cons.inj same).2⟩
    | cons y b => simp [list] at same
  | cons x a ih =>
    intro b rest others same
    cases b with
    | nil => simp [list] at same
    | cons y b =>
      simp only [list,List.cons_append,List.append_assoc,List.cons.injEq,true_and] at same
      obtain ⟨rfl,later⟩ := items _ _ _ _ same
      obtain ⟨rfl,after⟩ := ih b rest others later
      exact ⟨rfl,after⟩

/-- A code of what determines a value is a code of the value. -/
theorem comp_separates {code : β → List Char} (separates : Separates code) {f : α → β} (injective : Function.Injective f) :
    Separates fun a => code (f a) := by
  intro a b rest others same
  obtain ⟨image,after⟩ := separates _ _ _ _ same
  exact ⟨injective image,after⟩

theorem string_separates : Separates string :=
  comp_separates (list_separates char_separates) fun _ _ same => String.toList_inj.mp same

theorem option_separates {code : α → List Char} (items : Separates code) : Separates (option code) := by
  refine comp_separates (list_separates items) ?_
  intro a b same
  cases a <;> cases b <;> simp_all

theorem injective {code : α → List Char} (separates : Separates code) :
    Function.Injective fun a => String.ofList (code a) := by
  intro a b same
  have texts : code a = code b := String.ofList_injective same
  exact (separates a b [] [] (by rw [texts])).1

end PrefixCodes
