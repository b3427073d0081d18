import IceOS.ExceptRules
import IceOS.JsonRoundTrip
import IceOS.PythonText
import IceOS.ToolSchemas

/-! Validating data against a simple schema, which maps the names of fields to texts that name types. It is turned into
a JSON Schema first, unless one of its fields has a name that JSON Schema uses at its top. -/
namespace IceOS.SimpleSchemas

open PythonJson ToolSchemas

variable {φ ο : Type}

/-- The data of Python: a key of a dictionary may be no text, and there are other objects. -/
inductive Data (φ ο : Type) where
  | none
  | bool (b : Bool)
  | int (i : Int)
  | float (x : φ)
  | str (text : String)
  | list (items : List (Data φ ο))
  | dict (entries : List ((String ⊕ ο) × Data φ ο))
  | other (o : ο)

mutual

/-- What `json.loads` makes of a text. -/
def Data.ofJson : Json φ → Data φ ο
  | .null => .none
  | .bool b => .bool b
  | .int i => .int i
  | .float x => .float x
  | .str text => .str text
  | .list items => .list (ofItems items)
  | .dict entries => .dict (ofEntries entries)

def Data.ofItems : List (Json φ) → List (Data φ ο)
  | [] => []
  | v :: rest => ofJson v :: ofItems rest

def Data.ofEntries : List (String × Json φ) → List ((String ⊕ ο) × Data φ ο)
  | [] => []
  | (key,v) :: rest => (.inl key,ofJson v) :: ofEntries rest

end

/-! ### The texts that name types -/

def scalarMap : List (String × SupportedType) :=
  [("str",.str),("int",.int),("float",.float),("bool",.bool),("dict",.dict)]

def isWord (c : Char) : Bool := c.isAlphanum || c == '_'

/-- `^list\s*\[\s*([a-zA-Z0-9_]+)\s*]$` on a stripped text. -/
def listInner (lit : String) : Option String :=
  match lit.toList with
  | 'l' :: 'i' :: 's' :: 't' :: rest =>
    match rest.dropWhile PythonText.isSpace with
    | '[' :: rest =>
      let inner := rest.dropWhile PythonText.isSpace
      let word := inner.takeWhile isWord
      if word ≠ [] ∧ (inner.dropWhile isWord).dropWhile PythonText.isSpace = [']'] then some (String.ofList word) else none
    | _ => none
  | _ => none

/-- A list loses the type of its items. -/
def parseTypeLiteral (literal : String) : Option SupportedType :=
  let lit := PythonText.strip literal
  match scalarMap.lookup lit with
  | some t => some t
  | none =>
    match listInner lit with
    | some inner => (scalarMap.lookup inner).map fun _ => .list
    | none => none

/-! ### From a simple schema to a JSON Schema -/

def jsonSchemaKeywords : List String :=
  ["type","$ref","$schema","properties","items","required","additionalProperties","allOf","anyOf","oneOf"]

/-- The schemas that the validation is given; `model` has the JSON Schema of a class. -/
inductive Schema (φ : Type) where
  | none
  | model (schema : Json φ)
  | dict (entries : OrderedDict String (Json φ))
  | other

def isJsonSchema (entries : OrderedDict String (Json φ)) : Bool := jsonSchemaKeywords.any (· ∈ entries.keys)

def typed (name : String) : Json φ := .dict [("type",.str name)]

def arrayOf (name : String) : Json φ := .dict [("type",.str "array"),("items",typed name)]

def typeMapping : List (String × Json φ) :=
  [("str",.str "string"),("int",.str "integer"),("float",.str "number"),("bool",.str "boolean"),("dict",.str "object"),
    ("list",.str "array"),("list[str]",arrayOf "string"),("list[int]",arrayOf "integer"),("list[float]",arrayOf "number"),
    ("list[bool]",arrayOf "boolean"),("list[dict]",arrayOf "object")]

/-- A type that is not known counts as a string; a list or a dictionary cannot be looked up. -/
def propertySchema : Json φ → Option (Json φ)
  | .list _ | .dict _ => none
  | .str literal =>
    match typeMapping.lookup literal with
    | some (.dict mapped) => some (.dict mapped)
    | some mapped => some (.dict [("type",mapped)])
    | none => some (typed "string")
  | _ => some (typed "string")

def convertSimpleToJsonSchema (simple : OrderedDict String (Json φ)) : Option (Json φ) :=
  (simple.items.mapM fun entry => (propertySchema entry.2).map fun s => (entry.1,s)).map fun properties =>
    .dict [("type",.str "object"),("properties",.dict properties),("required",.list (simple.keys.map .str)),
      ("additionalProperties",.bool false)]

/-- `none` is also a `TypeError`. -/
def normalizeSchema : Schema φ → Option (Json φ)
  | .none | .other => none
  | .model schema => some schema
  | .dict entries => if isJsonSchema entries then some (.dict entries.items) else convertSimpleToJsonSchema entries

/-- `json_schema.get("type") == "object"` -/
def ofObjects : Json φ → Bool
  | .dict entries =>
    match entries.lookup "type" with
    | some (.str name) => name == "object"
    | _ => false
  | _ => false

/-- A text is read where an object is asked for; `none` if it is no JSON. -/
def coercedData (f : FloatTexts φ) (jsonSchema : Json φ) (coerceTypes : Bool) : Data φ ο → Option (Data φ ο)
  | .str text => if coerceTypes ∧ ofObjects jsonSchema then (loads f text).map .ofJson else some (.str text)
  | data => some data

/-- The coerced data, if they are accepted. Errors and exceptions alike are `none`; `standard` is the library, which
tells whether it finds no error. -/
def validateWithSchema (f : FloatTexts φ) (standard : Json φ → Data φ ο → Bool) (data : Data φ ο) (schema : Schema φ)
    (coerceTypes : Bool) : Option (Data φ ο) :=
  match schema with
  | .none => some data
  | schema =>
    (normalizeSchema schema).bind fun jsonSchema =>
      (coercedData f jsonSchema coerceTypes data).bind fun v => if standard jsonSchema v then some v else none

/-! ### The standard -/

/-- The name of a type in JSON Schema. -/
def typeName : SupportedType → String
  | .str => "string"
  | .int => "integer"
  | .float => "number"
  | .bool => "boolean"
  | .dict => "object"
  | .list => "array"

/-- A float that is whole is an integer, and a truth value is no number. -/
def isType (whole : φ → Bool) : SupportedType → Data φ ο → Bool
  | .str,.str _ => true
  | .int,.int _ => true
  | .int,.float x => whole x
  | .float,.int _ => true
  | .float,.float _ => true
  | .bool,.bool _ => true
  | .dict,.dict _ => true
  | .list,.list _ => true
  | _,_ => false

/-- What the standard says of the schemas that a simple schema is turned into. -/
structure Standard (whole : φ → Bool) (standard : Json φ → Data φ ο → Bool) : Prop where
  type : ∀ t v, standard (typed (typeName t)) v = isType whole t v
  items : ∀ (s : Json φ) (v : Data φ ο), standard (.dict [("type",.str "array"),("items",s)]) v = true ↔
    ∃ items, v = .list items ∧ ∀ x ∈ items, standard s x = true
  object : ∀ (properties : OrderedDict String (Json φ)) (required : List String) (v : Data φ ο),
    standard (.dict [("type",.str "object"),("properties",.dict properties.items),("required",.list (required.map .str)),
      ("additionalProperties",.bool false)]) v = true ↔
    ∃ entries, v = .dict entries ∧ (∀ k ∈ required, .inl k ∈ entries.map Prod.fst) ∧
      ∀ entry ∈ entries, ∃ k s, entry.1 = .inl k ∧ properties.get? k = some s ∧ standard s entry.2 = true

/-! ### A validator -/

def itemsOf : Data φ ο → List (Data φ ο)
  | .list items => items
  | _ => []

def entriesOf : Data φ ο → List ((String ⊕ ο) × Data φ ο)
  | .dict entries => entries
  | _ => []

def textOf : Json φ → Option String
  | .str text => some text
  | _ => none

def namesOf : Json φ → List String
  | .dict entries => entries.map Prod.fst
  | .list items => items.filterMap textOf
  | _ => []

def types : List (String × SupportedType) :=
  [("string",.str),("integer",.int),("number",.float),("boolean",.bool),("object",.dict),("array",.list)]

def named (k : String) (key : String ⊕ ο) : Bool := key.elim (· == k) fun _ => false

/-- The keywords that hold no schema; `properties` are the names beside them. -/
def keywordHolds (whole : φ → Bool) (properties : List String) (keyword : String) (s : Json φ) (v : Data φ ο) : Bool :=
  if keyword = "type" then ((textOf s).bind fun name => types.lookup name).any (isType whole · v)
  else if keyword = "required" then (namesOf s).all fun k => (entriesOf v).any fun entry => named k entry.1
  else if keyword = "additionalProperties" then (entriesOf v).all fun entry => properties.any (named · entry.1)
  else true

mutual

/-- A validator for the keywords of the converted schemas; it passes over all others. -/
def draft7 (whole : φ → Bool) : Json φ → Data φ ο → Bool
  | .dict keywords => keywordsHold whole (((keywords.lookup "properties").map namesOf).getD []) keywords
  | .bool b => fun _ => b
  | _ => fun _ => false

def keywordsHold (whole : φ → Bool) (properties : List String) : List (String × Json φ) → Data φ ο → Bool
  | [] => fun _ => true
  | (keyword,s) :: rest => fun v =>
    (if keyword = "items" then (itemsOf v).all (draft7 whole s)
      else if keyword = "properties" then propertiesHold whole s v
      else keywordHolds whole properties keyword s v) && keywordsHold whole properties rest v

def propertiesHold (whole : φ → Bool) : Json φ → Data φ ο → Bool
  | .dict properties => propertiesAll whole properties
  | _ => fun _ => true

def propertiesAll (whole : φ → Bool) : List (String × Json φ) → Data φ ο → Bool
  | [] => fun _ => true
  | (k,s) :: rest => fun v =>
    ((entriesOf v).all fun entry => !named k entry.1 || draft7 whole s entry.2) && propertiesAll whole rest v

end

theorem types_lookup (t : SupportedType) : types.lookup (typeName t) = some t := by cases t <;> rfl

theorem named_iff {k : String} {key : String ⊕ ο} : named k key = true ↔ key = .inl k := by
  cases key with
  | inl text => simp [named]
  | inr o => simp [named]

theorem propertiesAll_iff (whole : φ → Bool) (properties : List (String × Json φ)) (v : Data φ ο) :
    propertiesAll whole properties v = true ↔
      ∀ p ∈ properties, ∀ entry ∈ entriesOf v, entry.1 = .inl p.1 → draft7 whole p.2 entry.2 = true := by
  induction properties with
  | nil => simp [propertiesAll]
  | cons p rest ih =>
    obtain ⟨k,s⟩ := p
    have here (entry : (String ⊕ ο) × Data φ ο) : (!named k entry.1 || draft7 whole s entry.2) = true ↔
        (entry.1 = .inl k → draft7 whole s entry.2 = true) := by
      rw [← named_iff]
      cases named k entry.1 <;> simp
    simp only [propertiesAll,Bool.and_eq_true,ih,List.forall_mem_cons,List.all_eq_true,here]

section keywords

variable (whole : φ → Bool) (names : List String) (v : Data φ ο)

theorem draft7_dict (keywords : List (String × Json φ)) : draft7 whole (.dict keywords) v =
    keywordsHold whole (((keywords.lookup "properties").map namesOf).getD []) keywords v := rfl

theorem keywordsHold_nil : keywordsHold whole names [] v = true := rfl

theorem keywordsHold_items (s : Json φ) (rest : List (String × Json φ)) : keywordsHold whole names (("items",s) :: rest) v =
    ((itemsOf v).all (draft7 whole s) && keywordsHold whole names rest v) := rfl

theorem keywordsHold_properties (properties rest : List (String × Json φ)) :
    keywordsHold whole names (("properties",.dict properties) :: rest) v =
      (propertiesAll whole properties v && keywordsHold whole names rest v) := rfl

theorem keywordsHold_type (t : SupportedType) (rest : List (String × Json φ)) :
    keywordsHold whole names (("type",.str (typeName t)) :: rest) v =
      (isType whole t v && keywordsHold whole names rest v) := by
  have found : ((textOf (.str (typeName t) : Json φ)).bind fun name => types.lookup name).any (isType whole · v) =
      isType whole t v := by
    rw [textOf,Option.bind_some,types_lookup,Option.any_some]
  rw [← found]
  rfl

theorem keywordsHold_required (required : List String) (rest : List (String × Json φ)) :
    keywordsHold whole names (("required",.list (required.map .str)) :: rest) v = true ↔
      (∀ k ∈ required, .inl k ∈ (entriesOf v).map Prod.fst) ∧ keywordsHold whole names rest v = true := by
  have texts : namesOf (.list (required.map (Json.str (φ := φ)))) = required := by
    simp [namesOf,List.filterMap_map,Function.comp_def,textOf]
  have here : keywordsHold whole names (("required",.list (required.map .str)) :: rest) v =
      ((namesOf (.list (required.map (Json.str (φ := φ))))).all (fun k => (entriesOf v).any fun entry => named k entry.1) &&
        keywordsHold whole names rest v) := rfl
  rw [here,texts]
  simp [named_iff]

theorem keywordsHold_additional (rest : List (String × Json φ)) :
    keywordsHold whole names (("additionalProperties",.bool false) :: rest) v = true ↔
      (∀ entry ∈ entriesOf v, ∃ k ∈ names, entry.1 = .inl k) ∧ keywordsHold whole names rest v = true := by
  have here : keywordsHold whole names (("additionalProperties",.bool false) :: rest) v =
      ((entriesOf v).all (fun entry => names.any (named · entry.1)) && keywordsHold whole names rest v) := rfl
  rw [here]
  simp [named_iff]

end keywords

theorem isType_list {whole : φ → Bool} {v : Data φ ο} : isType whole .list v = true ↔ ∃ items, v = .list items := by
  cases v <;> simp [isType]

theorem isType_dict {whole : φ → Bool} {v : Data φ ο} : isType whole .dict v = true ↔ ∃ entries, v = .dict entries := by
  cases v <;> simp [isType]

theorem draft7_array (whole : φ → Bool) (s : Json φ) (v : Data φ ο) :
    draft7 whole (.dict [("type",.str "array"),("items",s)]) v =
      (isType whole .list v && (itemsOf v).all (draft7 whole s)) := by
  have array := keywordsHold_type whole [] v .list [("items",s)]
  rw [typeName,keywordsHold_items,keywordsHold_nil,Bool.and_true] at array
  rw [← array]
  rfl

theorem draft7_object (whole : φ → Bool) (properties : OrderedDict String (Json φ)) (required : List String)
    (v : Data φ ο) : draft7 whole (.dict [("type",.str "object"),("properties",.dict properties.items),
      ("required",.list (required.map .str)),("additionalProperties",.bool false)]) v = true ↔
    isType whole .dict v = true ∧ propertiesAll whole properties.items v = true ∧
      (∀ k ∈ required, .inl k ∈ (entriesOf v).map Prod.fst) ∧
        ∀ entry ∈ entriesOf v, ∃ k ∈ properties.keys, entry.1 = .inl k := by
  have object := keywordsHold_type whole properties.keys v .dict [("properties",.dict properties.items),
    ("required",.list (required.map .str)),("additionalProperties",.bool false)]
  rw [typeName,keywordsHold_properties] at object
  have start : draft7 whole (.dict [("type",.str "object"),("properties",.dict properties.items),
      ("required",.list (required.map .str)),("additionalProperties",.bool false)]) v =
      keywordsHold whole properties.keys [("type",.str "object"),("properties",.dict properties.items),
        ("required",.list (required.map .str)),("additionalProperties",.bool false)] v := rfl
  rw [start,object,Bool.and_eq_true,Bool.and_eq_true,keywordsHold_required,keywordsHold_additional,keywordsHold_nil]
  simp only [and_true]

theorem draft7_standard (whole : φ → Bool) : Standard whole (draft7 whole : Json φ → Data φ ο → Bool) where
  type t v := by
    rw [typed,draft7_dict,keywordsHold_type,keywordsHold_nil,Bool.and_true]
  items s v := by
    rw [draft7_array,Bool.and_eq_true,isType_list,List.all_eq_true]
    constructor
    · rintro ⟨⟨items,rfl⟩,each⟩
      exact ⟨items,rfl,each⟩
    · rintro ⟨items,rfl,each⟩
      exact ⟨⟨items,rfl⟩,each⟩
  object properties required v := by
    rw [draft7_object,propertiesAll_iff,isType_dict]
    constructor
    · rintro ⟨⟨entries,rfl⟩,valid,present,closed⟩
      refine ⟨entries,rfl,present,fun entry inside => ?_⟩
      obtain ⟨k,declares,key⟩ := closed entry inside
      obtain ⟨s,property⟩ := Option.isSome_iff_exists.mp ((OrderedDict.mem_keys properties k).mp declares)
      exact ⟨k,s,key,property,valid (k,s) ((OrderedDict.get?_eq_some _ _ _).mp property) entry inside key⟩
    · rintro ⟨entries,rfl,present,each⟩
      refine ⟨⟨entries,rfl⟩,fun p member entry inside key => ?_,present,fun entry inside => ?_⟩
      · obtain ⟨k,s,again,property,valid⟩ := each entry inside
        obtain rfl := Sum.inl.inj (key.symm.trans again)
        rw [(OrderedDict.get?_eq_some properties p.1 p.2).mpr member] at property
        cases property
        exact valid
      · obtain ⟨k,s,key,property,-⟩ := each entry inside
        exact ⟨k,(OrderedDict.mem_keys properties k).mpr (by rw [property]; rfl),key⟩

/-! ### What a simple schema means -/

inductive Declared where
  | scalar (t : SupportedType)
  | listOf (t : SupportedType)
  deriving DecidableEq, Repr

/-- What a literal says, the items of its list included. -/
def declared (literal : String) : Option Declared :=
  let lit := PythonText.strip literal
  ((scalarMap.lookup lit).map .scalar).or (((listInner lit).bind fun inner => scalarMap.lookup inner).map .listOf)

def OfType (whole : φ → Bool) : Declared → Data φ ο → Prop
  | .scalar t,v => isType whole t v = true
  | .listOf t,v => ∃ items, v = .list items ∧ ∀ x ∈ items, isType whole t x = true

/-- An object with exactly the declared fields, each with a value of its type. -/
def Conforms (whole : φ → Bool) (simple : OrderedDict String String) (v : Data φ ο) : Prop :=
  ∃ entries, v = .dict entries ∧ (∀ key, key ∈ entries.map Prod.fst ↔ ∃ k ∈ simple.keys, key = .inl k) ∧
    ∀ entry ∈ entries, ∀ k literal, entry.1 = .inl k → simple.get? k = some literal →
      ∃ d, declared literal = some d ∧ OfType whole d entry.2

/-- The literals that `parse_type_literal` supports. -/
def Supported (simple : OrderedDict String String) : Prop :=
  ∀ k literal, simple.get? k = some literal → (parseTypeLiteral literal).isSome = true

def Tight (literal : String) : Prop := ∀ c ∈ literal.toList, PythonText.isSpace c = false

def Schema.simple (fields : OrderedDict String String) : Schema φ := .dict (fields.mapValues .str)

theorem declared_isSome (literal : String) : (declared literal).isSome = (parseTypeLiteral literal).isSome := by
  simp only [declared,parseTypeLiteral]
  cases scalarMap.lookup (PythonText.strip literal) with
  | some t => rfl
  | none => cases listInner (PythonText.strip literal) <;> simp

/-! ### A literal without spaces -/

def typeText : SupportedType → String
  | .str => "str"
  | .int => "int"
  | .float => "float"
  | .bool => "bool"
  | .dict => "dict"
  | .list => "list"

def Declared.text : Declared → String
  | .scalar t => typeText t
  | .listOf t => "list[" ++ typeText t ++ "]"

/-- The JSON Schema of a declared type. -/
def Declared.schema : Declared → Json φ
  | .scalar t => typed (typeName t)
  | .listOf t => arrayOf (typeName t)

theorem scalarMap_eq_some {lit : String} {t : SupportedType} (known : scalarMap.lookup lit = some t) :
    lit = typeText t ∧ t ≠ .list := by
  obtain ⟨left,right,parts,-⟩ := List.lookup_eq_some_iff.mp known
  have member : (lit,t) ∈ scalarMap := parts ▸ List.mem_append_right left List.mem_cons_self
  simp only [scalarMap,List.mem_cons,Prod.mk.injEq,List.not_mem_nil,or_false] at member
  rcases member with ⟨rfl,rfl⟩ | ⟨rfl,rfl⟩ | ⟨rfl,rfl⟩ | ⟨rfl,rfl⟩ | ⟨rfl,rfl⟩ <;> exact ⟨rfl,by decide⟩

theorem strip_tight {literal : String} (tight : Tight literal) : PythonText.strip literal = literal := by
  have unchanged : PythonText.stripChars literal.toList = literal.toList :=
    PythonText.stripChars_eq_self (fun c head => tight c (List.mem_of_mem_head? head))
      fun c last => tight c (List.mem_of_mem_getLast? last)
  rw [PythonText.strip,unchanged,String.ofList_toList]

theorem dropWhile_tight {cs : List Char} (tight : ∀ c ∈ cs, PythonText.isSpace c = false) :
    cs.dropWhile PythonText.isSpace = cs := by
  cases cs with
  | nil => rfl
  | cons c rest => exact List.dropWhile_cons_of_neg (by simp [tight c List.mem_cons_self])

theorem listInner_tight {literal inner : String} (tight : Tight literal) (read : listInner literal = some inner) :
    literal = "list[" ++ inner ++ "]" := by
  unfold listInner at read
  split at read
  case h_2 => cases read
  case h_1 rest start =>
    have later : ∀ c ∈ rest, PythonText.isSpace c = false := fun c member => tight c (by simp [start,member])
    rw [dropWhile_tight later] at read
    split at read
    case h_2 => cases read
    case h_1 inside =>
      have within : ∀ c ∈ inside, PythonText.isSpace c = false := fun c member => later c (List.mem_cons_of_mem _ member)
      have behind : ∀ c ∈ inside.dropWhile isWord, PythonText.isSpace c = false := fun c member =>
        within c ((List.dropWhile_suffix _).subset member)
      simp only [dropWhile_tight within,dropWhile_tight behind] at read
      split at read
      case isFalse => cases read
      case isTrue closed =>
        cases read
        have whole := List.takeWhile_append_dropWhile (p := isWord) (l := inside)
        rw [closed.2] at whole
        rw [← String.toList_inj,start]
        simp [whole]

theorem declared_text {literal : String} {d : Declared} (tight : Tight literal) (known : declared literal = some d) :
    literal = d.text ∧ d ≠ .scalar .list ∧ d ≠ .listOf .list := by
  simp only [declared,strip_tight tight,Option.or_eq_some_iff,Option.map_eq_some_iff,Option.bind_eq_some_iff] at known
  rcases known with ⟨t,scalar,rfl⟩ | ⟨-,t,⟨inner,read,item⟩,rfl⟩
  · obtain ⟨rfl,other⟩ := scalarMap_eq_some scalar
    exact ⟨rfl,by simp [other],by simp⟩
  · obtain ⟨rfl,other⟩ := scalarMap_eq_some item
    exact ⟨listInner_tight tight read,by simp,by simp [other]⟩

/-- The table of the conversion agrees with the parser on literals without spaces. -/
theorem propertySchema_tight {literal : String} {d : Declared} (tight : Tight literal) (known : declared literal = some d) :
    propertySchema (.str literal : Json φ) = some d.schema := by
  obtain ⟨rfl,scalar,list⟩ := declared_text tight known
  cases d with
  | scalar t =>
    cases t with
    | list => exact absurd rfl scalar
    | str | int | float | bool | dict => rfl
  | listOf t =>
    cases t with
    | list => exact absurd rfl list
    | str | int | float | bool | dict => rfl

/-! ### What the validation accepts -/

def schemaOf (literal : String) : Json φ := ((declared literal).map Declared.schema).getD (typed "string")

theorem schemaOf_declared {literal : String} {d : Declared} (known : declared literal = some d) :
    (schemaOf literal : Json φ) = d.schema := by simp [schemaOf,known]

/-- What a simple schema is turned into. -/
def jsonSchema (fields : OrderedDict String String) : Json φ :=
  .dict [("type",.str "object"),("properties",.dict (fields.mapValues schemaOf).items),
    ("required",.list (fields.keys.map .str)),("additionalProperties",.bool false)]

theorem jsonSchema_objects (fields : OrderedDict String String) : ofObjects (jsonSchema fields : Json φ) = true := rfl

theorem isJsonSchema_simple (fields : OrderedDict String String) :
    isJsonSchema (fields.mapValues (Json.str (φ := φ))) = true ↔ ∃ k ∈ fields.keys, k ∈ jsonSchemaKeywords := by
  simp only [isJsonSchema,List.any_eq_true,decide_eq_true_eq,OrderedDict.keys_mapValues]
  exact exists_congr fun k => and_comm

section plain

variable {fields : OrderedDict String String} (supported : Supported fields)
  (tight : ∀ k literal, fields.get? k = some literal → Tight literal)

include supported tight in
theorem convert_tight : convertSimpleToJsonSchema (fields.mapValues (Json.str (φ := φ))) =
    some (jsonSchema fields) := by
  have each : ∀ entry ∈ fields.items, (propertySchema (.str entry.2)).map (fun s => (entry.1,s)) =
      some (entry.1,(schemaOf entry.2 : Json φ)) := by
    rintro ⟨k,literal⟩ inside
    have given := (OrderedDict.get?_eq_some fields k literal).mpr inside
    obtain ⟨d,known⟩ := Option.isSome_iff_exists.mp ((declared_isSome literal).trans (supported k literal given))
    simp [propertySchema_tight (tight k literal given) known,schemaOf_declared known]
  rw [convertSimpleToJsonSchema,OrderedDict.keys_mapValues]
  simp only [OrderedDict.mapValues,List.mapM_map,Function.comp_def,ExceptRules.mapM_of_forall each,Option.map_some]
  rfl

end plain

section standard

variable {whole : φ → Bool} {standard : Json φ → Data φ ο → Bool} (follows : Standard whole standard)
include follows

theorem standard_declared (d : Declared) (v : Data φ ο) : standard d.schema v = true ↔ OfType whole d v := by
  cases d with
  | scalar t => rw [Declared.schema,follows.type,OfType]
  | listOf t =>
    rw [Declared.schema,arrayOf,follows.items,OfType]
    simp only [follows.type]

theorem standard_conforms {fields : OrderedDict String String} (supported : Supported fields) (v : Data φ ο) :
    standard (jsonSchema fields) v = true ↔ Conforms whole fields v := by
  rw [jsonSchema,follows.object]
  refine exists_congr fun entries => and_congr_right fun _ => ?_
  constructor
  · rintro ⟨required,listed⟩
    refine ⟨fun key => ⟨fun member => ?_,?_⟩,?_⟩
    · obtain ⟨entry,inside,rfl⟩ := List.mem_map.mp member
      obtain ⟨k,s,named,property,-⟩ := listed entry inside
      refine ⟨k,?_,named⟩
      rw [← OrderedDict.keys_mapValues schemaOf,OrderedDict.mem_keys,property]
      rfl
    · rintro ⟨k,declares,rfl⟩
      exact required k declares
    · intro entry inside k literal named given
      obtain ⟨j,s,again,property,valid⟩ := listed entry inside
      obtain rfl := Sum.inl.inj (named.symm.trans again)
      obtain ⟨d,known⟩ := Option.isSome_iff_exists.mp ((declared_isSome literal).trans (supported k literal given))
      rw [OrderedDict.get?_mapValues,given,Option.map_some,schemaOf_declared known] at property
      cases property
      exact ⟨d,known,(standard_declared follows d entry.2).mp valid⟩
  · rintro ⟨exact,values⟩
    refine ⟨fun k declares => (exact _).mpr ⟨k,declares,rfl⟩,fun entry inside => ?_⟩
    obtain ⟨k,declares,named⟩ := (exact entry.1).mp (List.mem_map_of_mem inside)
    obtain ⟨literal,given⟩ := Option.isSome_iff_exists.mp ((OrderedDict.mem_keys fields k).mp declares)
    obtain ⟨d,known,typed⟩ := values entry inside k literal named given
    refine ⟨k,d.schema,named,?_,(standard_declared follows d entry.2).mpr typed⟩
    rw [OrderedDict.get?_mapValues,given,Option.map_some,schemaOf_declared known]

end standard

/-- What is validated in the place of the data: a text is read first, where texts are coerced. -/
inductive Reads (f : FloatTexts φ) : Bool → Data φ ο → Data φ ο → Prop where
  | text {text : String} {v : Json φ} (parsed : loads f text = some v) : Reads f true (.str text) (.ofJson v)
  | unread {coerceTypes : Bool} {data : Data φ ο} (plain : coerceTypes = true → ∀ text, data ≠ .str text) :
    Reads f coerceTypes data data

theorem coercedData_reads (f : FloatTexts φ) {jsonSchema : Json φ} (objects : ofObjects jsonSchema = true)
    (coerceTypes : Bool) (data v : Data φ ο) :
    coercedData f jsonSchema coerceTypes data = some v ↔ Reads f coerceTypes data v := by
  cases data with
  | str text =>
    cases coerceTypes with
    | true =>
      simp only [coercedData,objects,and_self,if_true,Option.map_eq_some_iff]
      constructor
      · rintro ⟨j,parsed,rfl⟩
        exact .text parsed
      · intro reads
        cases reads with
        | text parsed => exact ⟨_,parsed,rfl⟩
        | unread plain => exact absurd rfl (plain rfl text)
    | false =>
      simp only [coercedData,Bool.false_eq_true,false_and,if_false,Option.some.injEq]
      constructor
      · rintro rfl
        exact .unread fun coerces => by cases coerces
      · intro reads
        cases reads with
        | unread => rfl
  | none | bool | int | float | list | dict | other =>
    simp only [coercedData,Option.some.injEq]
    constructor
    · rintro rfl
      exact .unread fun _ text same => by cases same
    · intro reads
      cases reads with
      | unread => rfl

/-- A schema without a name of JSON Schema means what it says, where no literal has a space; one with such a name is
validated against as it stands. -/
structure SchemaLaw (f : FloatTexts φ) (whole : φ → Bool) (standard : Json φ → Data φ ο → Bool)
    (fields : OrderedDict String String) : Prop where
  converted : (∀ k ∈ fields.keys, k ∉ jsonSchemaKeywords) → (∀ k literal, fields.get? k = some literal → Tight literal) →
    ∀ data coerceTypes v, validateWithSchema f standard data (.simple fields) coerceTypes = some v ↔
      Reads f coerceTypes data v ∧ Conforms whole fields v
  asWritten : (∃ k ∈ fields.keys, k ∈ jsonSchemaKeywords) → ∀ data coerceTypes v,
    validateWithSchema f standard data (.simple fields) coerceTypes = some v ↔
      v = data ∧ standard (.dict (fields.mapValues .str).items) data = true

theorem unsupported_object : parseTypeLiteral "object" = none := by decide

theorem simple_not_objects {fields : OrderedDict String String} (supported : Supported fields) :
    ofObjects (.dict (fields.mapValues (Json.str (φ := φ))).items) = false := by
  have found : (fields.mapValues (Json.str (φ := φ))).items.lookup "type" = (fields.get? "type").map .str :=
    OrderedDict.get?_mapValues _ _ _
  simp only [ofObjects,found]
  cases given : fields.get? "type" with
  | none => rfl
  | some literal =>
    have other : literal ≠ "object" := by
      rintro rfl
      have known := supported _ _ given
      rw [unsupported_object] at known
      cases known
    simpa using other

theorem simple_schema_law (f : FloatTexts φ) {whole : φ → Bool} {standard : Json φ → Data φ ο → Bool}
    (follows : Standard whole standard) {fields : OrderedDict String String} (supported : Supported fields) :
    SchemaLaw f whole standard fields := by
  have accepted (schema : Json φ) (v w : Data φ ο) :
      (if standard schema v then some v else none) = some w ↔ v = w ∧ standard schema v = true := by
    split <;> simp_all
  refine ⟨fun plain tight data coerceTypes v => ?_,fun named data coerceTypes v => ?_⟩
  · have simple : isJsonSchema (fields.mapValues (Json.str (φ := φ))) = false := by
      rw [← Bool.not_eq_true,isJsonSchema_simple]
      rintro ⟨k,declares,keyword⟩
      exact plain k declares keyword
    simp only [validateWithSchema,Schema.simple,normalizeSchema,simple,Bool.false_eq_true,if_false,
      convert_tight supported tight,Option.bind_some,Option.bind_eq_some_iff,accepted,
      coercedData_reads f (jsonSchema_objects fields)]
    constructor
    · rintro ⟨w,reads,rfl,valid⟩
      exact ⟨reads,(standard_conforms follows supported w).mp valid⟩
    · rintro ⟨reads,conforms⟩
      exact ⟨v,reads,rfl,(standard_conforms follows supported v).mpr conforms⟩
  · have unread : coercedData f (.dict (fields.mapValues .str).items) coerceTypes data = some data := by
      cases data with
      | str text => simp [coercedData,simple_not_objects supported]
      | none | bool | int | float | list | dict | other => rfl
    simp only [validateWithSchema,Schema.simple,normalizeSchema,(isJsonSchema_simple fields).mpr named,if_true,
      Option.bind_some,unread,accepted]
    exact and_congr_left fun _ => eq_comm

def taggedFields : OrderedDict String String := .ofList [("name","str"),("tags","list[int]")]

theorem tagged_fields {k literal : String} (given : taggedFields.get? k = some literal) :
    (k = "name" ∧ literal = "str") ∨ (k = "tags" ∧ literal = "list[int]") := by
  have member := (OrderedDict.get?_eq_some _ _ _).mp given
  have items : taggedFields.items = [("name","str"),("tags","list[int]")] := rfl
  rw [items] at member
  simpa using member

theorem tagged_supported : Supported taggedFields := by
  intro k literal given
  rcases tagged_fields given with ⟨-,rfl⟩ | ⟨-,rfl⟩ <;> decide

def taggedData : Data Unit Unit := .dict [(.inl "name",.str "x"),(.inl "tags",.list [.int 1])]

theorem tagged_accepted :
    validateWithSchema zeroTexts (draft7 fun _ => false) taggedData (.simple taggedFields) true = some taggedData := by
  have tight (k literal : String) (given : taggedFields.get? k = some literal) : Tight literal := by
    rcases tagged_fields given with ⟨-,rfl⟩ | ⟨-,rfl⟩ <;> simp [Tight] <;> decide
  have keys : taggedFields.keys = ["name","tags"] := rfl
  have law := simple_schema_law zeroTexts (draft7_standard (ο := Unit) fun _ => false) tagged_supported
  refine (law.converted (by decide) tight _ _ _).mpr ⟨.unread fun _ _ same => ?_,_,rfl,fun key => ?_,?_⟩
  · cases same
  · rw [keys]
    simp
  · intro entry inside k literal key given
    rcases List.mem_pair.mp inside with rfl | rfl
    · obtain rfl := Sum.inl.inj key
      rcases tagged_fields given with ⟨-,rfl⟩ | ⟨other,-⟩
      · exact ⟨.scalar .str,by decide,rfl⟩
      · simp at other
    · obtain rfl := Sum.inl.inj key
      rcases tagged_fields given with ⟨other,-⟩ | ⟨-,rfl⟩
      · simp at other
      · exact ⟨.listOf .int,by decide,_,rfl,by simp [isType]⟩

def countField : OrderedDict String String := .ofList [("a","int")]

def typeField : OrderedDict String String := .ofList [("type","str")]

def countText : String := dumps zeroTexts (.dict [("a",.int 1)])

/-- A text passes for the object that it parses to, and a field called `type` is not met by a text. -/
theorem text_and_type_field :
    (countText = "\x7b\"a\": 1\x7d" ∧
      validateWithSchema zeroTexts (draft7 fun _ => false) (.str countText : Data Unit Unit) (.simple countField) true =
        some (.dict [(.inl "a",.int 1)]) ∧
      ¬Conforms (fun _ => false) countField (.str countText : Data Unit Unit)) ∧
    validateWithSchema zeroTexts (draft7 fun _ => false) (.dict [(.inl "type",.str "x")] : Data Unit Unit)
      (.simple typeField) false = none ∧
    Conforms (fun _ => false) typeField (.dict [(.inl "type",.str "x")] : Data Unit Unit) := by
  have parsed : loads zeroTexts countText = some (.dict [("a",.int 1)]) := loads_dumps zeroTexts (by decide)
  refine ⟨⟨by decide,?_,?_⟩,?_,?_⟩
  · have run (text : String) : validateWithSchema zeroTexts (draft7 fun _ => false) (.str text : Data Unit Unit)
        (.simple countField) true = ((loads zeroTexts text).map Data.ofJson).bind fun v =>
          if draft7 (fun _ => false) (jsonSchema countField) v then some v else none := rfl
    rw [run,parsed]
    rfl
  · rintro ⟨entries,same,-⟩
    cases same
  · rfl
  · refine ⟨_,rfl,fun key => by simp [typeField,OrderedDict.ofList,OrderedDict.update,OrderedDict.set,OrderedDict.insert,
      OrderedDict.keys,OrderedDict.empty],?_⟩
    intro entry inside k literal key given
    obtain rfl := List.mem_singleton.mp inside
    obtain rfl := Sum.inl.inj key
    obtain rfl : "str" = literal := Option.some.inj given
    exact ⟨.scalar .str,by decide,rfl⟩

end IceOS.SimpleSchemas
