import IceOS.ExceptRules
import IceOS.OrderedDict
import IceOS.OutputRepair
import IceOS.PythonValues

/-! Converting the values of an output to the scalar types of a schema. A value of a kind that no branch handles is
replaced by `None`. -/
namespace IceOS.Coercion

open OutputRepair PythonJson

/-- The values of JSON and all other objects. -/
abbrev Value (φ ο : Type) := Json φ ⊕ ο

inductive ScalarType where
  | str
  | int
  | float
  | bool
  deriving DecidableEq, Repr

def ScalarType.name : ScalarType → String
  | .str => "str"
  | .int => "int"
  | .float => "float"
  | .bool => "bool"

/-- What the conversions rest on; `text` is the `str` of another object, unless it raises. -/
structure Python (φ ο : Type) extends Conversions φ where
  floats : PythonFloats φ
  lower : String → String
  text : ο → Option String

variable {φ ο : Type} (c : Python φ ο)

/-- `str(value)`, where an integer may be too long. -/
def shown : Value φ ο → Option String
  | .inl v => if representable v then some (c.floats.str v) else none
  | .inr o => c.text o

/-- A text without its commas. -/
def cleaned (text : String) : String := PythonText.strip (String.ofList (text.toList.filter (· ≠ ',')))

def notFinite (text : String) : Bool := ["nan","inf","-inf"].contains (c.lower text)

/-- `none` is an exception. -/
def coerceInt : Value φ ο → Option (Value φ ο)
  | .inl (.int i) => some (.inl (.int i))
  | .inl (.bool b) => some (.inl (.bool b))
  | .inl (.float x) => (c.toInt x).map fun i => .inl (.int i)
  | .inl (.str text) =>
    let value := cleaned text
    if notFinite c value then none
    else if PythonText.contains "." value then ((c.parse value).bind c.toInt).map fun i => .inl (.int i)
    else (PythonText.int? value).map fun i => .inl (.int i)
  | _ => some (.inl .null)

def coerceFloat : Value φ ο → Option (Value φ ο)
  | .inl (.float x) => some (.inl (.float x))
  | .inl (.int i) => (c.ofInt i).map fun x => .inl (.float x)
  | .inl (.bool b) => (c.ofInt b.toInt).map fun x => .inl (.float x)
  | .inl (.str text) =>
    let value := cleaned text
    if notFinite c value then none else (c.parse value).map fun x => .inl (.float x)
  | _ => some (.inl .null)

def coerceBool : Value φ ο → Option (Value φ ο)
  | .inl (.bool b) => some (.inl (.bool b))
  | .inl (.str text) => some (.inl (.bool (["true","1","yes","y"].contains (c.lower (PythonText.strip text)))))
  | .inl (.int i) => some (.inl (.bool (i ≠ 0)))
  | .inl (.float x) => some (.inl (.bool (!c.floats.equalInt x 0)))
  | _ => some (.inl .null)

def coerceStr (v : Value φ ο) : Option (Value φ ο) := (shown c v).map fun text => .inl (.str text)

def convert : ScalarType → Value φ ο → Option (Value φ ο)
  | .int => coerceInt c
  | .float => coerceFloat c
  | .bool => coerceBool c
  | .str => coerceStr c

/-- The value as the message has it; a text was cleaned before. -/
def reported (type : ScalarType) : Value φ ο → Option String
  | .inl (.str text) => if type = .int ∨ type = .float then some (cleaned text) else some text
  | v => shown c v

/-- The text of the `ValueError`; a value that cannot be written gives another one. -/
def failure (type : ScalarType) (v : Value φ ο) : String :=
  match reported c type v with
  | some text => "Could not coerce value '" ++ text ++ "' to " ++ type.name
  | none => "Exceeds the limit (4300 digits) for integer string conversion; " ++
    "use sys.set_int_max_str_digits() to increase the limit"

def coerceValue (v : Value φ ο) (type : ScalarType) : Except String (Value φ ο) :=
  match convert c type v with
  | some w => .ok w
  | none => .error (failure c type v)

/-- What a schema declares of a key; any other text declares nothing. -/
def declared (schema : OrderedDict String String) (k : String) : Option ScalarType :=
  match schema.get? k with
  | some "str" => some .str
  | some "int" => some .int
  | some "float" => some .float
  | some "bool" => some .bool
  | _ => none

def coerceEntry (schema : OrderedDict String String) (k : String) (v : Value φ ο) : Except String (Value φ ο) :=
  match declared schema k with
  | some type => coerceValue c v type
  | none => .ok v

structure Progress (φ ο : Type) where
  coerced : OrderedDict String (Value φ ο) := .empty
  errors : OrderedDict String String := .empty

def step (schema : OrderedDict String String) (p : Progress φ ο) (entry : String × Value φ ο) : Progress φ ο :=
  match coerceEntry c schema entry.1 entry.2 with
  | .ok w => { p with coerced := p.coerced.set entry.1 w }
  | .error text => { p with errors := p.errors.set entry.1 text }

/-- `coerce_types` for a schema that is a dictionary; its errors are those that the `ValueError` lists. -/
def coerceTypes (output : OrderedDict String (Value φ ο)) (schema : OrderedDict String String) :
    Except (OrderedDict String String) (OrderedDict String (Value φ ο)) :=
  let p := output.items.foldl (step c schema) {}
  if p.errors.items.isEmpty then .ok p.coerced else .error p.errors

/-! ### What is expected of it -/

/-- A truth value is an integer. -/
def HasType : ScalarType → Value φ ο → Prop
  | .str,v => ∃ text, v = .inl (.str text)
  | .int,v => (∃ i, v = .inl (.int i)) ∨ ∃ b, v = .inl (.bool b)
  | .float,v => ∃ x, v = .inl (.float x)
  | .bool,v => ∃ b, v = .inl (.bool b)

structure Coerced (output : OrderedDict String (Value φ ο)) (schema : OrderedDict String String)
    (result : OrderedDict String (Value φ ο)) : Prop where
  keys : result.keys = output.keys
  typed : ∀ k v type, output.get? k = some v → declared schema k = some type →
    ∃ w, result.get? k = some w ∧ HasType type w
  untouched : ∀ k v, output.get? k = some v → declared schema k = none → result.get? k = some v
  again : coerceTypes c result schema = .ok result

/-- It raises or gives what is expected. -/
def Sound (output : OrderedDict String (Value φ ο)) (schema : OrderedDict String String) : Prop :=
  ∀ result, coerceTypes c output schema = .ok result → Coerced c output schema result

/-- The kinds that the conversions to numbers and truth values handle. -/
def Scalar : Value φ ο → Prop
  | .inl (.bool _) | .inl (.int _) | .inl (.float _) | .inl (.str _) => True
  | _ => False

/-- The values that cannot be converted. -/
def Refused : ScalarType → Value φ ο → Prop
  | .int,.inl (.float x) => c.toInt x = none
  | .int,.inl (.str text) => notFinite c (cleaned text) = true ∨
    if PythonText.contains "." (cleaned text) then ∀ x, c.parse (cleaned text) = some x → c.toInt x = none
    else PythonText.int? (cleaned text) = none
  | .float,.inl (.int i) => c.ofInt i = none
  | .float,.inl (.bool b) => c.ofInt b.toInt = none
  | .float,.inl (.str text) => notFinite c (cleaned text) = true ∨ c.parse (cleaned text) = none
  | .str,v => shown c v = none
  | _,_ => False

section

variable {c} {type : ScalarType} {v w : Value φ ο}

/-! ### One value -/

theorem convert_none_iff : convert c type v = none ↔ Refused c type v := by
  cases type with
  | str => simp [convert,coerceStr,Refused]
  | int =>
    rcases v with (_ | b | i | x | text | items | entries) | o <;>
      simp only [convert,coerceInt,Refused,Option.map_eq_none_iff]
    case inl.str =>
      split
      · next refused => simp [refused]
      · next finite =>
        split
        · simp only [finite,false_or,Option.map_eq_none_iff,Option.bind_eq_none_iff,Bool.false_eq_true]
        · simp only [finite,false_or,Option.map_eq_none_iff,Bool.false_eq_true]
    all_goals simp
  | float =>
    rcases v with (_ | b | i | x | text | items | entries) | o <;>
      simp only [convert,coerceFloat,Refused,Option.map_eq_none_iff]
    case inl.str =>
      split
      · next refused => simp [refused]
      · next finite => simp [finite]
    all_goals simp
  | bool => rcases v with (_ | b | i | x | text | items | entries) | o <;> simp [convert,coerceBool,Refused]

/-- A conversion that has a branch for the value gives a value of its type. -/
theorem convert_typed (converted : convert c type v = some w) (handled : type ≠ .str → Scalar v) : HasType type w := by
  cases type with
  | str =>
    obtain ⟨text,_,rfl⟩ := Option.map_eq_some_iff.mp converted
    exact ⟨text,rfl⟩
  | int =>
    rcases v with (_ | b | i | x | text | items | entries) | o <;> simp only [convert,coerceInt] at converted
    case inl.bool => exact .inr ⟨b,(Option.some.inj converted).symm⟩
    case inl.int => exact .inl ⟨i,(Option.some.inj converted).symm⟩
    case inl.float =>
      obtain ⟨i,_,rfl⟩ := Option.map_eq_some_iff.mp converted
      exact .inl ⟨i,rfl⟩
    case inl.str =>
      split at converted
      · cases converted
      · split at converted
        all_goals
          obtain ⟨i,_,rfl⟩ := Option.map_eq_some_iff.mp converted
          exact .inl ⟨i,rfl⟩
    all_goals exact absurd (handled (by decide)) id
  | float =>
    rcases v with (_ | b | i | x | text | items | entries) | o <;> simp only [convert,coerceFloat] at converted
    case inl.float => exact ⟨x,(Option.some.inj converted).symm⟩
    case inl.str =>
      split at converted
      · cases converted
      · obtain ⟨x,_,rfl⟩ := Option.map_eq_some_iff.mp converted
        exact ⟨x,rfl⟩
    case inl.bool | inl.int =>
      obtain ⟨x,_,rfl⟩ := Option.map_eq_some_iff.mp converted
      exact ⟨x,rfl⟩
    all_goals exact absurd (handled (by decide)) id
  | bool =>
    rcases v with (_ | b | i | x | text | items | entries) | o <;> simp only [convert,coerceBool] at converted
    case inl.bool | inl.int | inl.float | inl.str => exact ⟨_,(Option.some.inj converted).symm⟩
    all_goals exact absurd (handled (by decide)) id

theorem convert_hasType (typed : HasType type w) : convert c type w = some w := by
  cases type with
  | str =>
    obtain ⟨text,rfl⟩ := typed
    rfl
  | int => rcases typed with ⟨i,rfl⟩ | ⟨b,rfl⟩ <;> rfl
  | float =>
    obtain ⟨x,rfl⟩ := typed
    rfl
  | bool =>
    obtain ⟨b,rfl⟩ := typed
    rfl

theorem convert_other (other : type ≠ .str) (unhandled : ¬Scalar v) : convert c type v = some (.inl .null) := by
  cases type with
  | str => exact absurd rfl other
  | int | float | bool =>
    rcases v with (_ | b | i | x | text | items | entries) | o <;> first | rfl | exact absurd trivial unhandled

theorem convert_again (converted : convert c type v = some w) : convert c type w = some w := by
  by_cases handled : type ≠ .str → Scalar v
  · exact convert_hasType (convert_typed converted handled)
  · obtain ⟨other,unhandled⟩ := Classical.not_imp.mp handled
    obtain rfl := Option.some.inj ((convert_other other unhandled).symm.trans converted)
    exact convert_other other id

theorem null_untyped : ¬HasType type (.inl .null : Value φ ο) := by
  cases type <;> simp [HasType]

theorem coerceValue_ok : coerceValue c v type = .ok w ↔ convert c type v = some w := by
  rw [coerceValue]
  cases convert c type v <;> simp

/-! ### All values -/

variable {schema : OrderedDict String String} {output result : OrderedDict String (Value φ ο)}

/-- Entries before and after. -/
def Converts (c : Python φ ο) (schema : OrderedDict String String) (e e' : String × Value φ ο) : Prop :=
  e'.1 = e.1 ∧ coerceEntry c schema e.1 e.2 = .ok e'.2

theorem converts_keys {entries out : List (String × Value φ ο)}
    (converted : List.Forall₂ (Converts c schema) entries out) : out.map Prod.fst = entries.map Prod.fst := by
  induction converted with
  | nil => rfl
  | cons first _ ih => rw [List.map_cons,List.map_cons,first.1,ih]

theorem fold_converted {entries out : List (String × Value φ ο)}
    (converted : List.Forall₂ (Converts c schema) entries out) (p : Progress φ ο)
    (fresh : (p.coerced.keys ++ entries.map Prod.fst).Nodup) :
    (entries.foldl (step c schema) p).errors = p.errors ∧
      (entries.foldl (step c schema) p).coerced.items = p.coerced.items ++ out := by
  induction converted generalizing p with
  | nil => simp
  | @cons e e' entries out first _ ih =>
    have here : step c schema p e = { p with coerced := p.coerced.set e.1 e'.2 } := by rw [step,first.2]
    rw [List.map_cons,List.append_cons] at fresh
    have new : e.1 ∉ p.coerced.keys := fun member =>
      (List.nodup_append.mp (List.nodup_append.mp fresh).1).2.2 e.1 member e.1 (by simp) rfl
    have items : (p.coerced.set e.1 e'.2).items = p.coerced.items ++ [e'] := by
      rw [← first.1]
      exact OrderedDict.insert_fresh _ _ _ (first.1 ▸ new)
    have keys : (p.coerced.set e.1 e'.2).keys = p.coerced.keys ++ [e.1] := by simp [OrderedDict.keys_set,new]
    obtain ⟨errors,coerced⟩ := ih { p with coerced := p.coerced.set e.1 e'.2 } (by rwa [keys])
    rw [List.foldl_cons,here]
    exact ⟨errors,by rw [coerced,items,List.append_assoc,List.singleton_append]⟩

theorem errors_kept (entries : List (String × Value φ ο)) (p : Progress φ ο) {k : String} (member : k ∈ p.errors.keys) :
    k ∈ (entries.foldl (step c schema) p).errors.keys := by
  induction entries generalizing p with
  | nil => exact member
  | cons e rest ih =>
    refine ih (step c schema p e) ?_
    rw [step]
    split
    · exact member
    · exact (OrderedDict.mem_keys_set _ _ _ _).mpr (.inr member)

/-- Without errors every entry was converted. -/
theorem exists_converted (entries : List (String × Value φ ο)) (p : Progress φ ο)
    (none : (entries.foldl (step c schema) p).errors.keys = []) :
    ∃ out, List.Forall₂ (Converts c schema) entries out := by
  induction entries generalizing p with
  | nil => exact ⟨[],.nil⟩
  | cons e rest ih =>
    obtain ⟨out,converted⟩ := ih (step c schema p e) none
    cases here : coerceEntry c schema e.1 e.2 with
    | ok w => exact ⟨(e.1,w) :: out,.cons ⟨rfl,here⟩ converted⟩
    | error text =>
      have kept : e.1 ∈ (rest.foldl (step c schema) (step c schema p e)).errors.keys := by
        refine errors_kept rest _ ?_
        rw [step,here]
        exact (OrderedDict.mem_keys_set _ _ _ _).mpr (.inl rfl)
      rw [List.foldl_cons] at none
      rw [none] at kept
      cases kept

theorem coerceTypes_ok : coerceTypes c output schema = .ok result ↔
    List.Forall₂ (Converts c schema) output.items result.items := by
  have fresh : ((.empty : OrderedDict String (Value φ ο)).keys ++ output.items.map Prod.fst).Nodup := output.nodup
  simp only [coerceTypes]
  constructor
  · intro ended
    split at ended
    · next none =>
      have none : (output.items.foldl (step c schema) {}).errors.keys = [] := by
        rw [OrderedDict.keys,List.isEmpty_iff.mp none]
        rfl
      obtain ⟨out,converted⟩ := exists_converted output.items {} none
      rw [← Except.ok.inj ended,(fold_converted converted {} fresh).2]
      exact converted
    · cases ended
  · intro converted
    obtain ⟨errors,coerced⟩ := fold_converted converted {} fresh
    have none : ({} : Progress φ ο).errors.items.isEmpty = true := rfl
    rw [errors,if_pos none]
    exact congrArg Except.ok (OrderedDict.ext_items coerced)

/-- What a value becomes. -/
theorem converts_get? (converted : List.Forall₂ (Converts c schema) output.items result.items) {k : String}
    (known : output.get? k = some v) : ∃ w, result.get? k = some w ∧ coerceEntry c schema k v = .ok w := by
  obtain ⟨⟨k',w⟩,member,rfl,value⟩ := ExceptRules.related_mem converted (k,v) ((OrderedDict.get?_eq_some _ _ _).mp known)
  exact ⟨w,(OrderedDict.get?_eq_some _ _ _).mpr member,value⟩

theorem coerceEntry_again {k : String} (value : coerceEntry c schema k v = .ok w) : coerceEntry c schema k w = .ok w := by
  rw [coerceEntry] at value ⊢
  cases known : declared schema k with
  | none => rfl
  | some type =>
    rw [known] at value
    exact coerceValue_ok.mpr (convert_again (coerceValue_ok.mp value))

/-- Coercing again changes nothing. -/
theorem coerceTypes_again (ended : coerceTypes c output schema = .ok result) :
    coerceTypes c result schema = .ok result := by
  have converted := coerceTypes_ok.mp ended
  refine coerceTypes_ok.mpr (List.forall₂_same.mpr fun e member => ⟨rfl,?_⟩)
  obtain ⟨before,_,same,value⟩ := ExceptRules.related_mem converted.flip e member
  rw [← same] at value
  exact coerceEntry_again value

theorem sound_of_scalar (handled : ∀ k v type, output.get? k = some v → declared schema k = some type →
      type ≠ .str → Scalar v) :
    Sound c output schema := by
  intro result ended
  have converted := coerceTypes_ok.mp ended
  refine ⟨converts_keys converted,fun k v type known own => ?_,fun k v known none => ?_,coerceTypes_again ended⟩
  · obtain ⟨w,there,value⟩ := converts_get? converted known
    rw [coerceEntry,own] at value
    exact ⟨w,there,convert_typed (coerceValue_ok.mp value) (handled k v type known own)⟩
  · obtain ⟨w,there,value⟩ := converts_get? converted known
    rw [coerceEntry,none] at value
    rwa [Except.ok.inj value]

/-- Without a value that is refused there is a result. -/
theorem coerceTypes_total
    (taken : ∀ k v type, output.get? k = some v → declared schema k = some type → ¬Refused c type v) :
    ∃ result, coerceTypes c output schema = .ok result := by
  have each (e : String × Value φ ο) (member : e ∈ output.items) : ∃ w, coerceEntry c schema e.1 e.2 = .ok w := by
    rw [coerceEntry]
    cases own : declared schema e.1 with
    | none => exact ⟨e.2,rfl⟩
    | some type =>
      have converted := mt convert_none_iff.mp (taken e.1 e.2 type ((OrderedDict.get?_eq_some _ _ _).mpr member) own)
      obtain ⟨w,value⟩ := Option.ne_none_iff_exists'.mp converted
      exact ⟨w,coerceValue_ok.mpr value⟩
  have all (entries : List (String × Value φ ο)) (each : ∀ e ∈ entries, ∃ w, coerceEntry c schema e.1 e.2 = .ok w) :
      ∃ out, List.Forall₂ (Converts c schema) entries out := by
    induction entries with
    | nil => exact ⟨[],.nil⟩
    | cons e rest ih =>
      obtain ⟨⟨w,value⟩,others⟩ := List.forall_mem_cons.mp each
      obtain ⟨out,converted⟩ := ih others
      exact ⟨(e.1,w) :: out,.cons ⟨rfl,value⟩ converted⟩
  obtain ⟨out,converted⟩ := all output.items each
  exact ⟨⟨out,by rw [converts_keys converted]; exact output.nodup⟩,coerceTypes_ok.mpr converted⟩

theorem sound_of_refused {k : String} {type : ScalarType} (known : output.get? k = some v)
    (own : declared schema k = some type) (refused : Refused c type v) : Sound c output schema := by
  intro result ended
  obtain ⟨w,_,value⟩ := converts_get? (coerceTypes_ok.mp ended) known
  rw [coerceEntry,own] at value
  have converted := coerceValue_ok.mp value
  rw [convert_none_iff.mpr refused] at converted
  cases converted

end

theorem coercion_sound_iff (output : OrderedDict String (Value φ ο)) (schema : OrderedDict String String) :
    Sound c output schema ↔
      (∃ k v type, output.get? k = some v ∧ declared schema k = some type ∧ Refused c type v) ∨
        ∀ k v type, output.get? k = some v → declared schema k = some type → type ≠ .str → Scalar v := by
  constructor
  · intro sound
    by_cases refused : ∃ k v type, output.get? k = some v ∧ declared schema k = some type ∧ Refused c type v
    · exact .inl refused
    · have taken (k : String) (v : Value φ ο) (type : ScalarType) (known : output.get? k = some v)
          (own : declared schema k = some type) : ¬Refused c type v := fun bad => refused ⟨k,v,type,known,own,bad⟩
      obtain ⟨result,ended⟩ := coerceTypes_total taken
      refine .inr fun k v type known own other => ?_
      by_contra unhandled
      obtain ⟨w,there,typed⟩ := (sound result ended).typed k v type known own
      obtain ⟨w',there',value⟩ := converts_get? (coerceTypes_ok.mp ended) known
      obtain rfl := Option.some.inj (there.symm.trans there')
      rw [coerceEntry,own] at value
      have null := (convert_other (c := c) other unhandled).symm.trans (coerceValue_ok.mp value)
      exact null_untyped (Option.some.inj null ▸ typed)
  · rintro (⟨k,v,type,known,own,refused⟩ | handled)
    · exact sound_of_refused known own refused
    · exact sound_of_scalar handled

/-- Floating-point numbers of which there is only zero, and no other objects. -/
def zeroPython : Python Unit Empty where
  toConversions := zeroConversions
  floats := { PythonJson.zeroTexts with repr := fun _ => "0.0",equal := fun _ _ => true,equalInt := fun _ i => i = 0 }
  lower := id
  text := Empty.elim

/-- A number that is not there. -/
theorem none_coerced : coerceTypes zeroPython (.ofList [("count",.inl .null)]) (.ofList [("count","int")]) =
      .ok (.ofList [("count",.inl .null)]) ∧
    ¬Sound zeroPython (.ofList [("count",.inl .null)]) (.ofList [("count","int")]) := by
  have ended : coerceTypes zeroPython (.ofList [("count",.inl .null)]) (.ofList [("count","int")]) =
    .ok (.ofList [("count",.inl .null)]) := rfl
  refine ⟨ended,fun sound => ?_⟩
  obtain ⟨w,there,typed⟩ := (sound _ ended).typed "count" (.inl .null) .int rfl rfl
  obtain rfl := Option.some.inj there
  exact null_untyped typed

end IceOS.Coercion
