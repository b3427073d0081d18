import IceOS.JsonTexts
import IceOS.PythonRegex

/-! What a node's executor makes of a textual output. The repair takes away the fence that opens a code block and leaves
the one that closes it: nothing is read then, and the text stays as it is. -/
namespace IceOS.OutputRepair

open PythonJson PythonRegex

/-- What an output schema asks of its first field, as far as the coercion looks at it. -/
inductive FieldType where
  | int
  | float
  | other
  deriving DecidableEq, Repr

inductive OutputSchema where
  | model
  | dict (fields : List (String × FieldType))

namespace OutputSchema

/-- A class counts as true, a dictionary if it is not empty. -/
def declared : OutputSchema → Bool
  | model => true
  | dict fields => !fields.isEmpty

def expectedType : OutputSchema → FieldType
  | dict ((_,type) :: _) => type
  | _ => .other

end OutputSchema

/-- `int` and `float`; `none` is an exception. -/
structure Conversions (φ : Type) where
  ofInt : Int → Option φ
  toInt : φ → Option Int
  parse : String → Option φ

/-- No number is written with a backquote. -/
def Conversions.Numeric (p : Conversions φ) : Prop := ∀ text, '\x60' ∈ text.toList → p.parse text = none

variable {φ : Type} (f : FloatTexts φ) (p : Conversions φ)

def pythonInt : Json φ → Option Int
  | .int i => some i
  | .bool b => some (if b then 1 else 0)
  | .float x => p.toInt x
  | .str text => PythonText.int? text
  | _ => none

def pythonFloat : Json φ → Option φ
  | .int i => p.ofInt i
  | .bool b => p.ofInt (if b then 1 else 0)
  | .float x => some x
  | .str text => p.parse text
  | _ => none

def coerceOutput (schema : OutputSchema) (rawOutput : Json φ) : Option (Json φ) :=
  if !schema.declared then some rawOutput
  else
    match schema.expectedType with
    | .int => (pythonInt p rawOutput).map .int
    | .float => (pythonFloat p rawOutput).map .float
    | .other => some rawOutput

/-! ### The repair -/

def fence : List Char := "```".toList

/-- `^```.*?\n`, where the dot stands for every character -/
def openingFence : Regex := .ofList [.literal (· = ·) fence,.many (fun _ => true) true,.one (· = '\n')]

/-- `\n```$` -/
def closingFence : Regex := .ofList [.one (· = '\n'),.literal (· = ·) fence,.textEnd]

/-- One of the fences is taken away: the opening one, which matches at the beginning only, comes first. -/
def removeFence (raw : List Char) : List Char :=
  match openingFence.matchAt raw with
  | some (_,rest) => rest
  | none => closingFence.removeFirst raw

/-- The text that is tried as JSON. -/
def unfenced (text : String) : String :=
  let raw := PythonText.stripChars text.toList
  String.ofList (if fence <+: raw ∧ fence <:+ raw then removeFence raw else raw)

def repair (schema : OutputSchema) : Json φ → Json φ
  | .str text => if schema.declared then (loads f (unfenced text)).getD (.str text) else .str text
  | result => result

/-- What becomes of the value that an executor returned. -/
def processedOutput (schema : OutputSchema) (result : Json φ) : Option (Json φ) := coerceOutput p schema (repair f schema result)

/-! ### Texts of values -/

/-- A value's text, as it is or in a code fence. -/
inductive TextOf (v : Json φ) : Bool → String → Prop where
  | plain {text : String} (loaded : loads f text = some v) : TextOf v false text
  | fenced {before tag after : List Char} {json : String} (loaded : loads f json = some v) (line : '\n' ∉ tag)
      (front : ∀ c ∈ before, PythonText.isSpace c = true) (back : ∀ c ∈ after, PythonText.isSpace c = true) :
      TextOf v true (String.ofList (before ++ (fence ++ tag ++ '\n' :: json.toList ++ '\n' :: fence) ++ after))

/-- Where the conversion to the type of the first field changes nothing. -/
def Kept (schema : OutputSchema) (v : Json φ) : Prop :=
  match schema.expectedType with
  | .int => ∃ i, v = .int i
  | .float => ∃ x, v = .float x
  | .other => True

section

variable {f} {p} {schema : OutputSchema} {v : Json φ} {text json : String} {before tag after : List Char}

theorem unfenced_plain (loaded : loads f text = some v) : loads f (unfenced text) = some v := by
  obtain ⟨stripped,first⟩ := loads_strip f loaded
  have open_ : ¬fence <+: PythonText.stripChars text.toList := by
    rintro ⟨rest,same⟩
    rw [PythonText.strip,String.toList_ofList,← same] at first
    exact first '\x60' rfl rfl
  rw [unfenced,if_neg fun fenced => open_ fenced.1]
  exact stripped

/-- The opening fence goes up to the end of its line. -/
theorem removeFence_opened (line : '\n' ∉ tag) (rest : List Char) : removeFence (fence ++ (tag ++ '\n' :: rest)) = rest := by
  have matched : openingFence.matchAt (fence ++ (tag ++ '\n' :: rest)) = some ([],rest) := by
    rw [Regex.matchAt,openingFence,Regex.run_ofList_cons,Regex.run_literal,Regex.behind_self (by simp),Option.bind_some,
      Regex.run_ofList_cons,Regex.run,if_pos rfl]
    refine repeatLazily_eq (fun c _ => rfl) (fun left right parts nonempty => ?_) ?_
    · obtain ⟨c,right,rfl⟩ := List.exists_cons_of_ne_nil nonempty
      have other : c ≠ '\n' := by
        rintro rfl
        exact line (by simp [parts])
      simp [Regex.run,other]
    · simp [Regex.run]
  rw [removeFence,matched]

theorem fence_ends (rest : List Char) : (rest ++ fence).getLast? = some '\x60' := by
  rw [List.getLast?_append]
  rfl

/-- The closing fence is left. -/
theorem unfenced_fenced (line : '\n' ∉ tag) (front : ∀ c ∈ before, PythonText.isSpace c = true)
    (back : ∀ c ∈ after, PythonText.isSpace c = true) :
    unfenced (String.ofList (before ++ (fence ++ tag ++ '\n' :: json.toList ++ '\n' :: fence) ++ after)) =
      String.ofList (json.toList ++ '\n' :: fence) := by
  have stripped : PythonText.stripChars (before ++ (fence ++ tag ++ '\n' :: json.toList ++ '\n' :: fence) ++ after) =
      fence ++ (tag ++ '\n' :: (json.toList ++ '\n' :: fence)) := by
    have shown : PythonText.isSpace '\x60' = false := by decide
    rw [PythonText.stripChars_around front back _ _ (by simp [fence])]
    · simp only [List.append_assoc,List.cons_append]
    · rintro c ⟨⟩
      exact shown
    · have ends := fence_ends (fence ++ tag ++ '\n' :: json.toList ++ ['\n'])
      rw [List.append_assoc,List.singleton_append] at ends
      intro c last
      rw [ends] at last
      exact Option.some.inj last ▸ shown
  have opened : fence <+: fence ++ (tag ++ '\n' :: (json.toList ++ '\n' :: fence)) := List.prefix_append _ _
  have closed : fence <:+ fence ++ (tag ++ '\n' :: (json.toList ++ '\n' :: fence)) :=
    ⟨fence ++ (tag ++ '\n' :: (json.toList ++ ['\n'])),by simp⟩
  rw [unfenced,String.toList_ofList,stripped,if_pos ⟨opened,closed⟩,removeFence_opened line]

theorem repair_plain (declared : schema.declared = true) (loaded : loads f text = some v) :
    repair f schema (.str text) = v := by
  rw [repair,if_pos declared,unfenced_plain loaded]
  rfl

theorem coerceOutput_kept (declared : schema.declared = true) : coerceOutput p schema v = some v ↔ Kept schema v := by
  rw [coerceOutput,declared,Kept]
  cases schema.expectedType with
  | int =>
    constructor
    · intro same
      obtain ⟨i,-,rfl⟩ := Option.map_eq_some_iff.mp same
      exact ⟨i,rfl⟩
    · rintro ⟨i,rfl⟩
      rfl
  | float =>
    constructor
    · intro same
      obtain ⟨x,-,rfl⟩ := Option.map_eq_some_iff.mp same
      exact ⟨x,rfl⟩
    · rintro ⟨x,rfl⟩
      rfl
  | other => simp

/-- A text in a fence stays what it is, as the closing fence is left to be read. -/
theorem repair_fenced (line : '\n' ∉ tag) (front : ∀ c ∈ before, PythonText.isSpace c = true)
    (back : ∀ c ∈ after, PythonText.isSpace c = true) :
    repair f schema (.str (String.ofList (before ++ (fence ++ tag ++ '\n' :: json.toList ++ '\n' :: fence) ++ after))) =
      .str (String.ofList (before ++ (fence ++ tag ++ '\n' :: json.toList ++ '\n' :: fence) ++ after)) := by
  have unread : loads f (String.ofList (json.toList ++ '\n' :: fence)) = none := by
    refine loads_backquote f ?_
    rw [String.toList_ofList,← List.singleton_append,← List.append_assoc]
    exact fence_ends _
  rw [repair,unfenced_fenced line front back,unread]
  split <;> rfl

/-- A text with a backquote, longer than the text of the value, is not taken for it. -/
theorem coerceOutput_text (numeric : p.Numeric) (declared : schema.declared = true) (quoted : '\x60' ∈ text.toList)
    (loaded : loads f json = some v) (longer : json.length < text.length) : coerceOutput p schema (.str text) ≠ some v := by
  rw [coerceOutput,declared]
  cases schema.expectedType with
  | int =>
    have none : PythonText.int? text = none := PythonText.int?_none quoted (by decide) (by decide) (by decide)
    simp [pythonInt,none]
  | float => simp [pythonFloat,numeric text quoted]
  | other =>
    intro same
    obtain rfl := Option.some.inj same
    have shorter := loads_str_length f loaded
    omega

theorem processedOutput_iff (numeric : p.Numeric) (declared : schema.declared = true) {fenced : Bool}
    (written : TextOf f v fenced text) : processedOutput f p schema (.str text) = some v ↔ fenced = false ∧ Kept schema v := by
  rw [processedOutput]
  cases written with
  | plain loaded => rw [repair_plain declared loaded,coerceOutput_kept declared,and_iff_right rfl]
  | @fenced before tag after json loaded line front back =>
    rw [repair_fenced line front back]
    refine iff_of_false (coerceOutput_text numeric declared ?_ loaded ?_) (by simp)
    · simp [fence]
    · simp only [String.length_ofList,List.length_append,List.length_cons,String.length_toList]
      omega

end

/-! ### A text that is read, and one that is not -/

/-- Conversions where the only floating-point number is zero. -/
def zeroConversions : Conversions Unit where
  ofInt i := if i = 0 then some () else none
  toInt _ := some 0
  parse text := if text = "0.0" then some () else none

theorem zeroConversions_numeric : zeroConversions.Numeric := by
  intro text quoted
  refine if_neg fun same => ?_
  rw [same] at quoted
  exact absurd quoted (by decide)

def textSchema : OutputSchema := .dict [("text",.other)]

theorem plain_list_read : processedOutput zeroTexts zeroConversions textSchema (.str "[1]") = some (.list [.int 1]) :=
  (processedOutput_iff zeroConversions_numeric rfl (.plain rfl)).mpr ⟨rfl,trivial⟩

theorem fenced_list_unread :
    processedOutput zeroTexts zeroConversions textSchema (.str "```json\n[1]\n```") ≠ some (.list [.int 1]) := by
  have text : "```json\n[1]\n```" =
      String.ofList ([] ++ (fence ++ "json".toList ++ '\n' :: "[1]".toList ++ '\n' :: fence) ++ []) := by decide
  rw [processedOutput,text,repair_fenced (by decide) (by simp) (by simp)]
  intro same
  cases Option.some.inj same

end IceOS.OutputRepair
