import IceOS.OrderedDict
import IceOS.PythonJson
import Mathlib.Data.List.Dedup
import Mathlib.Data.String.Basic

/-! The input schema of a tool, merged from the fields of its class and the signature of its implementation. It lets
the fields pass as inputs, and knows neither that an optional parameter may be `None` nor what an annotation says that
stands there as text. -/
namespace IceOS.ToolSchemas

variable {φ ο : Type}

/-- A value that JSON knows, or another object. -/
abbrev Value (φ ο : Type) := Json φ ⊕ ο

abbrev Kwargs (φ ο : Type) := OrderedDict String (Value φ ο)

inductive SupportedType where
  | str | int | float | bool | dict | list
  deriving DecidableEq, Repr

/-- What annotates a parameter: `T`, `Optional[T]`, `T | None`, the source text of an annotation, anything else. -/
inductive TypeHint where
  | type (t : SupportedType)
  | optional (a : TypeHint)
  | orNone (a : TypeHint)
  | text (a : TypeHint)
  | other
  deriving DecidableEq, Repr

inductive ParameterKind where
  | positionalOnly | positionalOrKeyword | varPositional | keywordOnly | varKeyword
  deriving DecidableEq, Repr

structure Parameter where
  name : String
  kind : ParameterKind := .positionalOrKeyword
  hint : TypeHint
  hasDefault : Bool := false
  deriving DecidableEq, Repr

def Parameter.catchAll (p : Parameter) : Bool := p.kind = .varPositional ∨ p.kind = .varKeyword

/-- A field of the class: what validates against its schema, which is not empty. -/
structure ModelField (φ ο : Type) where
  name : String
  required : Bool
  accepts : Value φ ο → Bool
  sample : Value φ ο
  accepted : accepts sample = true

/-- The fields of a tool's class, and the parameters of `_execute_impl` behind the object itself. -/
structure ToolClass (φ ο : Type) where
  fields : List (ModelField φ ο)
  parameters : List Parameter
  distinctFields : (fields.map (·.name)).Nodup
  distinctParameters : (parameters.map (·.name)).Nodup

/-! ### The schema -/

inductive PropertySchema (φ ο : Type) where
  | typed (t : SupportedType)
  | unconstrained
  | field (accepts : Value φ ο → Bool)

/-- Properties beside these are refused. -/
structure InputSchema (φ ο : Type) where
  properties : OrderedDict String (PropertySchema φ ο)
  required : List String

def annotationToSchema : TypeHint → PropertySchema φ ο
  | .optional actual => annotationToSchema actual
  | .type t => .typed t
  | .orNone _ | .text _ | .other => .unconstrained

/-- The parameters that the schema has properties for. -/
def explicitParameters (parameters : List Parameter) : List Parameter :=
  parameters.filter fun p => p.name ≠ "self" ∧ p.name ≠ "cls" ∧ !p.catchAll

def signaturePropertiesAndRequired (parameters : List Parameter) :
    OrderedDict String (PropertySchema φ ο) × List String :=
  let explicit := explicitParameters parameters
  (.ofList (explicit.map fun p => (p.name,annotationToSchema p.hint)),
    (explicit.filter (!·.hasDefault)).map (·.name))

def getInputSchema (cls : ToolClass φ ο) : InputSchema φ ο :=
  let modelProps := cls.fields.map fun f => (f.name,PropertySchema.field f.accepts)
  let modelRequired := (cls.fields.filter (·.required)).map (·.name)
  let (sigProps,sigRequired) := signaturePropertiesAndRequired cls.parameters
  { properties := .ofList (modelProps ++ sigProps.items)
    required := (modelRequired ++ sigRequired).dedup.mergeSort (· ≤ ·) }

/-! ### The validation -/

/-- The types of draft 7: a float that is whole is an integer, and a truth value is no number. -/
def isType (whole : φ → Bool) : SupportedType → Value φ ο → Bool
  | .str,.inl (.str _) => true
  | .int,.inl (.int _) => true
  | .int,.inl (.float x) => whole x
  | .float,.inl (.int _) => true
  | .float,.inl (.float _) => true
  | .bool,.inl (.bool _) => true
  | .dict,.inl (.dict _) => true
  | .list,.inl (.list _) => true
  | _,_ => false

def PropertySchema.validates (whole : φ → Bool) (v : Value φ ο) : PropertySchema φ ο → Bool
  | .typed t => isType whole t v
  | .unconstrained => true
  | .field accepts => accepts v

/-- `validate_tool_inputs`, without its error texts. -/
def validateToolInputs (whole : φ → Bool) (schema : InputSchema φ ο) (inputs : Kwargs φ ο) : Bool :=
  schema.required.all (· ∈ inputs.keys) &&
    inputs.items.all fun (key,v) =>
      match schema.properties.get? key with
      | some property => property.validates whole v
      | none => false

/-- A missing `query` is given as an empty text where the schema has one. -/
def withQuery (properties : List String) (kwargs : Kwargs φ ο) : Kwargs φ ο :=
  if "query" ∈ properties ∧ "query" ∉ kwargs.keys then kwargs.set "query" (.inl (.str "")) else kwargs

/-- What `execute` validates and passes on. -/
def inputsOf (cls : ToolClass φ ο) (kwargs : Kwargs φ ο) : Kwargs φ ο :=
  withQuery (getInputSchema cls).properties.keys kwargs

def passesValidation (whole : φ → Bool) (cls : ToolClass φ ο) (kwargs : Kwargs φ ο) : Bool :=
  validateToolInputs whole (getInputSchema cls) (inputsOf cls kwargs)

/-- `self._execute_impl(**inputs)` binds its parameters: no keyword is unexpected, and no parameter is missing. -/
def Binds (parameters : List Parameter) (inputs : Kwargs φ ο) : Prop :=
  (∀ key ∈ inputs.keys, (∃ p ∈ parameters, p.name = key ∧ p.catchAll = false ∧ p.kind ≠ .positionalOnly) ∨
    ∃ p ∈ parameters, p.kind = .varKeyword) ∧
  ∀ p ∈ parameters, p.catchAll = false → p.hasDefault = false → p.kind ≠ .positionalOnly ∧ p.name ∈ inputs.keys

/-! ### What the schema says -/

/-- A display of named things finds each by its name. -/
theorem get?_named {α β : Type} {name : α → String} {value : α → β} {xs : List α} (distinct : (xs.map name).Nodup)
    (k : String) (v : β) :
    (OrderedDict.ofList (xs.map fun x => (name x,value x))).get? k = some v ↔ ∃ x ∈ xs, name x = k ∧ value x = v := by
  have items := OrderedDict.ofList_items (xs.map fun x => (name x,value x)) (by simpa [Function.comp_def] using distinct)
  rw [OrderedDict.get?_eq_some,items]
  simp

/-- What a class has for its names: what stands for a parameter, or else for a field. -/
def byName {β : Type} (cls : ToolClass φ ο) (field : ModelField φ ο → β) (parameter : Parameter → β) :
    OrderedDict String β :=
  .ofList ((cls.fields.map fun f => (f.name,field f)) ++
    (OrderedDict.ofList ((explicitParameters cls.parameters).map fun p => (p.name,parameter p))).items)

section names

variable {β : Type} {cls : ToolClass φ ο} {field : ModelField φ ο → β} {parameter : Parameter → β}

theorem explicit_distinct (cls : ToolClass φ ο) : ((explicitParameters cls.parameters).map (·.name)).Nodup :=
  (List.filter_sublist.map _).nodup cls.distinctParameters

theorem byName_get?_iff (k : String) (v : β) : (byName cls field parameter).get? k = some v ↔
    (∃ p ∈ explicitParameters cls.parameters, p.name = k ∧ parameter p = v) ∨
      (∀ p ∈ explicitParameters cls.parameters, p.name ≠ k) ∧ ∃ f ∈ cls.fields, f.name = k ∧ field f = v := by
  have absent : (OrderedDict.ofList ((explicitParameters cls.parameters).map fun p => (p.name,parameter p))).get? k = none ↔
      ∀ p ∈ explicitParameters cls.parameters, p.name ≠ k := by
    rw [OrderedDict.get?_eq_none,OrderedDict.mem_keys_ofList]
    simp
  have parts : byName cls field parameter = (OrderedDict.ofList (cls.fields.map fun f => (f.name,field f))).update
      (OrderedDict.ofList ((explicitParameters cls.parameters).map fun p => (p.name,parameter p))).items :=
    List.foldl_append
  rw [parts,OrderedDict.get?_update_items,Option.or_eq_some_iff,get?_named (explicit_distinct cls),
    get?_named cls.distinctFields,absent]

theorem mem_byName_keys (k : String) : k ∈ (byName cls field parameter).keys ↔
    (∃ p ∈ explicitParameters cls.parameters, p.name = k) ∨ ∃ f ∈ cls.fields, f.name = k := by
  have inner := OrderedDict.mem_keys_ofList ((explicitParameters cls.parameters).map fun p => (p.name,parameter p)) k
  rw [OrderedDict.keys] at inner
  rw [byName,OrderedDict.mem_keys_ofList,List.map_append,List.mem_append,inner]
  simp [or_comm]

end names

theorem getInputSchema_properties (cls : ToolClass φ ο) : (getInputSchema cls).properties =
    byName cls (fun f => .field f.accepts) (fun p => annotationToSchema p.hint) := rfl

theorem mem_required (cls : ToolClass φ ο) (k : String) : k ∈ (getInputSchema cls).required ↔
    (∃ f ∈ cls.fields, f.required = true ∧ f.name = k) ∨
      ∃ p ∈ explicitParameters cls.parameters, p.hasDefault = false ∧ p.name = k := by
  simp [getInputSchema,signaturePropertiesAndRequired,and_assoc]

theorem validates_iff (whole : φ → Bool) (schema : InputSchema φ ο) (inputs : Kwargs φ ο) :
    validateToolInputs whole schema inputs = true ↔ (∀ k ∈ schema.required, k ∈ inputs.keys) ∧
      ∀ k v, inputs.get? k = some v → ∃ s, schema.properties.get? k = some s ∧ s.validates whole v = true := by
  simp only [validateToolInputs,Bool.and_eq_true,List.all_eq_true,decide_eq_true_eq]
  refine and_congr_right fun _ => ?_
  constructor
  · intro all k v given
    have valid := all (k,v) ((OrderedDict.get?_eq_some _ _ _).mp given)
    simp only at valid
    split at valid
    · next s known => exact ⟨s,known,valid⟩
    · cases valid
  · rintro all ⟨k,v⟩ member
    obtain ⟨s,known,valid⟩ := all k v ((OrderedDict.get?_eq_some _ _ _).mpr member)
    simp only [known,valid]

theorem passes_iff (whole : φ → Bool) (cls : ToolClass φ ο) (kwargs : Kwargs φ ο) :
    passesValidation whole cls kwargs = true ↔
      (∀ f ∈ cls.fields, f.required = true → f.name ∈ (inputsOf cls kwargs).keys) ∧
      (∀ p ∈ explicitParameters cls.parameters, p.hasDefault = false → p.name ∈ (inputsOf cls kwargs).keys) ∧
      ∀ k v, (inputsOf cls kwargs).get? k = some v →
        ∃ s, (getInputSchema cls).properties.get? k = some s ∧ s.validates whole v = true := by
  rw [passesValidation,validates_iff]
  constructor
  · rintro ⟨required,valid⟩
    refine ⟨fun f member needed => required f.name ((mem_required cls _).mpr (.inl ⟨f,member,needed,rfl⟩)),?_,valid⟩
    exact fun p member bare => required p.name ((mem_required cls _).mpr (.inr ⟨p,member,bare,rfl⟩))
  · rintro ⟨fields,parameters,valid⟩
    refine ⟨fun k required => ?_,valid⟩
    rcases (mem_required cls k).mp required with ⟨f,member,needed,rfl⟩ | ⟨p,member,bare,rfl⟩
    · exact fields f member needed
    · exact parameters p member bare

/-! ### What the annotations mean -/

/-- The type, and whether `None` is allowed beside it. -/
def TypeHint.meant : TypeHint → Option (SupportedType × Bool)
  | .type t => some (t,false)
  | .optional a | .orNone a => a.meant.map fun m => (m.1,true)
  | .text a => a.meant
  | .other => none

/-- All explicit parameters are annotated with the supported types. -/
def Supported (cls : ToolClass φ ο) : Prop := ∀ p ∈ explicitParameters cls.parameters, p.hint.meant ≠ none

def OfType (whole : φ → Bool) (a : TypeHint) (v : Value φ ο) : Prop :=
  ∃ t nullable, a.meant = some (t,nullable) ∧ (isType whole t v = true ∨ (nullable = true ∧ v = .inl .null))

/-- The inputs are what the parameters ask for; a missing `query` counts as the empty text. -/
structure Given (whole : φ → Bool) (cls : ToolClass φ ο) (kwargs : Kwargs φ ο) : Prop where
  needed : ∀ p ∈ explicitParameters cls.parameters, p.hasDefault = false → p.name ∈ kwargs.keys
  typed : ∀ k v, kwargs.get? k = some v → ∃ p ∈ explicitParameters cls.parameters, p.name = k ∧ OfType whole p.hint v

def parameterNames (cls : ToolClass φ ο) : List String := (explicitParameters cls.parameters).map (·.name)

/-- The validation lets through what the parameters ask for, and what it lets through can be passed on. -/
structure SoundAndComplete (whole : φ → Bool) (cls : ToolClass φ ο) : Prop where
  accepts : ∀ kwargs, passesValidation whole cls kwargs = true ↔ Given whole cls (withQuery (parameterNames cls) kwargs)
  callable : ∀ kwargs, passesValidation whole cls kwargs = true → Binds cls.parameters (inputsOf cls kwargs)

/-- All fields of the class are parameters, and those that are required have no default there; no parameter is
optional or annotated by text; all can be passed by keyword. -/
structure Plain (cls : ToolClass φ ο) : Prop where
  fields : ∀ f ∈ cls.fields, ∃ p ∈ explicitParameters cls.parameters, p.name = f.name ∧
    (f.required = true → p.hasDefault = false ∨ p.name = "query")
  types : ∀ p ∈ explicitParameters cls.parameters, ∃ t, p.hint = .type t
  keywords : ∀ p ∈ cls.parameters, p.catchAll = false →
    if p ∈ explicitParameters cls.parameters then
      p.kind ≠ .positionalOnly ∨ (p.hasDefault = true ∧ ∃ q ∈ cls.parameters, q.kind = .varKeyword)
    else p.hasDefault = true

/-! ### Plain classes -/

section

variable {whole : φ → Bool} {cls : ToolClass φ ο}

theorem mem_explicitParameters {parameters : List Parameter} {p : Parameter} : p ∈ explicitParameters parameters ↔
    p ∈ parameters ∧ p.name ≠ "self" ∧ p.name ≠ "cls" ∧ p.catchAll = false := by
  simp [explicitParameters]

theorem mem_parameterNames (k : String) :
    k ∈ parameterNames cls ↔ ∃ p ∈ explicitParameters cls.parameters, p.name = k := by
  simp [parameterNames]

theorem Plain.inputsOf_eq (plain : Plain cls) (kwargs : Kwargs φ ο) :
    inputsOf cls kwargs = withQuery (parameterNames cls) kwargs := by
  have same : "query" ∈ (getInputSchema cls).properties.keys ↔ "query" ∈ parameterNames cls := by
    rw [getInputSchema_properties,mem_byName_keys,mem_parameterNames]
    constructor
    · rintro (known | ⟨f,member,named⟩)
      · exact known
      · obtain ⟨p,inside,own,_⟩ := plain.fields f member
        exact ⟨p,inside,own.trans named⟩
    · exact .inl
  simp only [inputsOf,withQuery,same]

/-- The query of a parameter is never missing. -/
theorem withQuery_query {properties : List String} (known : "query" ∈ properties) (kwargs : Kwargs φ ο) :
    "query" ∈ (withQuery properties kwargs).keys := by
  unfold withQuery
  split
  · simp
  · next present =>
    by_contra absent
    exact present ⟨known,absent⟩

theorem Plain.accepts (plain : Plain cls) (kwargs : Kwargs φ ο) :
    passesValidation whole cls kwargs = true ↔ Given whole cls (withQuery (parameterNames cls) kwargs) := by
  have property (k : String) (v : Value φ ο) :
      (∃ s, (getInputSchema cls).properties.get? k = some s ∧ s.validates whole v = true) ↔
        ∃ p ∈ explicitParameters cls.parameters, p.name = k ∧ OfType whole p.hint v := by
    simp only [getInputSchema_properties,byName_get?_iff]
    constructor
    · rintro ⟨s,⟨p,inside,named,rfl⟩ | ⟨unnamed,f,member,named,_⟩,valid⟩
      · obtain ⟨t,annotated⟩ := plain.types p inside
        rw [annotated] at valid
        exact ⟨p,inside,named,t,false,congrArg TypeHint.meant annotated,.inl valid⟩
      · obtain ⟨p,inside,own,_⟩ := plain.fields f member
        exact absurd (own.trans named) (unnamed p inside)
    · rintro ⟨p,inside,named,t,nullable,meant,fits⟩
      obtain ⟨u,annotated⟩ := plain.types p inside
      rw [annotated] at meant
      cases meant
      refine ⟨_,.inl ⟨p,inside,named,rfl⟩,?_⟩
      rw [annotated]
      exact fits.resolve_right fun h => absurd h.1 (by decide)
  rw [passes_iff,plain.inputsOf_eq]
  simp only [property]
  constructor
  · rintro ⟨_,needed,typed⟩
    exact ⟨needed,typed⟩
  · rintro ⟨needed,typed⟩
    refine ⟨fun f member required => ?_,needed,typed⟩
    obtain ⟨p,inside,named,kept⟩ := plain.fields f member
    rcases kept required with bare | query
    · exact named ▸ needed p inside bare
    · rw [← named,query]
      exact withQuery_query ((mem_parameterNames _).mpr ⟨p,inside,query⟩) kwargs

theorem Plain.callable (plain : Plain cls) {inputs : Kwargs φ ο} (given : Given whole cls inputs) :
    Binds cls.parameters inputs := by
  constructor
  · intro k member
    obtain ⟨v,given_v⟩ := Option.isSome_iff_exists.mp ((OrderedDict.mem_keys _ _).mp member)
    obtain ⟨p,inside,named,_⟩ := given.typed k v given_v
    have ⟨own,_,_,single⟩ := mem_explicitParameters.mp inside
    have able := plain.keywords p own single
    rw [if_pos inside] at able
    rcases able with keyword | ⟨_,rest⟩
    · exact .inl ⟨p,own,named,single,keyword⟩
    · exact .inr rest
  · intro p own single bare
    have able := plain.keywords p own single
    split at able
    · next inside => exact ⟨able.resolve_right fun h => by simp [bare] at h,given.needed p inside bare⟩
    · simp [bare] at able

end

/-! ### Other classes -/

def SupportedType.sample : SupportedType → Value φ ο
  | .str => .inl (.str "")
  | .int | .float => .inl (.int 0)
  | .bool => .inl (.bool false)
  | .dict => .inl (.dict [])
  | .list => .inl (.list [])

/-- A value that is neither of the type nor `None`. -/
def SupportedType.foreign : SupportedType → Value φ ο
  | .str => .inl (.int 0)
  | _ => .inl (.str "")

/-- A value of what the annotation means. -/
def TypeHint.sample (a : TypeHint) : Value φ ο := ((a.meant.map Prod.fst).getD .str).sample

/-- Inputs for all parameters and all fields. -/
def fullInputs (cls : ToolClass φ ο) : Kwargs φ ο := byName cls (·.sample) (·.hint.sample)

section

variable {whole : φ → Bool} {cls : ToolClass φ ο}

theorem isType_sample (t : SupportedType) : isType whole t (t.sample : Value φ ο) = true := by
  cases t <;> rfl

theorem not_isType_foreign (t : SupportedType) : isType whole t (t.foreign : Value φ ο) = false := by
  cases t <;> rfl

/-- The schema of an annotation is its type, or open. -/
theorem annotationToSchema_cases {a : TypeHint} {t : SupportedType} {nullable : Bool} (meant : a.meant = some (t,nullable)) :
    (annotationToSchema a : PropertySchema φ ο) = .typed t ∧ (a = .type t ∨ nullable = true) ∨
      (annotationToSchema a : PropertySchema φ ο) = .unconstrained := by
  induction a generalizing nullable with
  | type u =>
    cases meant
    exact .inl ⟨rfl,.inl rfl⟩
  | optional a ih =>
    obtain ⟨⟨u,inner⟩,deeper,same⟩ := Option.map_eq_some_iff.mp meant
    cases same
    exact (ih deeper).imp_left fun h => ⟨h.1,.inr rfl⟩
  | orNone | text | other => exact .inr rfl

theorem sample_ofType {a : TypeHint} {t : SupportedType} {nullable : Bool} (meant : a.meant = some (t,nullable)) :
    OfType whole a (a.sample : Value φ ο) := by
  refine ⟨t,nullable,meant,.inl ?_⟩
  rw [TypeHint.sample,meant]
  exact isType_sample t

theorem sample_validates {a : TypeHint} (supported : a.meant ≠ none) :
    (annotationToSchema a : PropertySchema φ ο).validates whole a.sample = true := by
  obtain ⟨⟨t,nullable⟩,meant⟩ := Option.ne_none_iff_exists'.mp supported
  rcases annotationToSchema_cases meant with ⟨typed,_⟩ | opened
  · rw [typed,TypeHint.sample,meant]
    exact isType_sample t
  · rw [opened]
    rfl

theorem withQuery_eq {properties : List String} {kwargs : Kwargs φ ο}
    (given : "query" ∈ properties → "query" ∈ kwargs.keys) : withQuery properties kwargs = kwargs :=
  if_neg fun missing => missing.2 (given missing.1)

theorem mem_fullInputs_keys (k : String) : k ∈ (fullInputs cls).keys ↔ k ∈ (getInputSchema cls).properties.keys := by
  rw [getInputSchema_properties,fullInputs,mem_byName_keys,mem_byName_keys]

theorem parameter_mem_full {p : Parameter} (inside : p ∈ explicitParameters cls.parameters) :
    p.name ∈ (fullInputs cls).keys :=
  (mem_byName_keys _).mpr (.inl ⟨p,inside,rfl⟩)

theorem fullInputs_valid (supported : Supported cls) {k : String} {v : Value φ ο}
    (given : (fullInputs cls).get? k = some v) :
    ∃ s, (getInputSchema cls).properties.get? k = some s ∧ s.validates whole v = true := by
  simp only [getInputSchema_properties,byName_get?_iff]
  rcases (byName_get?_iff _ _).mp given with ⟨p,inside,named,rfl⟩ | ⟨unnamed,f,member,named,rfl⟩
  · exact ⟨_,.inl ⟨p,inside,named,rfl⟩,sample_validates (supported p inside)⟩
  · exact ⟨_,.inr ⟨unnamed,f,member,named,rfl⟩,f.accepted⟩

theorem full_inputsOf : inputsOf cls (fullInputs cls) = fullInputs cls := withQuery_eq (mem_fullInputs_keys _).mpr

theorem changed_inputsOf (k : String) (v : Value φ ο) :
    inputsOf cls ((fullInputs cls).set k v) = (fullInputs cls).set k v :=
  withQuery_eq fun query => (OrderedDict.mem_keys_set _ _ _ _).mpr (.inr ((mem_fullInputs_keys _).mpr query))

/-- What differs from the full inputs in one value passes if the value does. -/
theorem changed_passes (supported : Supported cls) {k : String} {v : Value φ ο} {s : PropertySchema φ ο}
    (known : (getInputSchema cls).properties.get? k = some s) (valid : s.validates whole v = true) :
    passesValidation whole cls ((fullInputs cls).set k v) = true := by
  rw [passes_iff,changed_inputsOf]
  refine ⟨fun f member _ => ?_,fun p inside _ => ?_,fun j w given => ?_⟩
  · exact (OrderedDict.mem_keys_set _ _ _ _).mpr (.inr ((mem_byName_keys _).mpr (.inr ⟨f,member,rfl⟩)))
  · exact (OrderedDict.mem_keys_set _ _ _ _).mpr (.inr (parameter_mem_full inside))
  · rw [OrderedDict.get?_set] at given
    split at given
    · next here =>
      cases given
      exact here ▸ ⟨s,known,valid⟩
    · exact fullInputs_valid supported given

theorem full_passes (supported : Supported cls) : passesValidation whole cls (fullInputs cls) = true := by
  rw [passes_iff,full_inputsOf]
  refine ⟨fun f member _ => (mem_byName_keys _).mpr (.inr ⟨f,member,rfl⟩),fun p inside _ => parameter_mem_full inside,?_⟩
  exact fun k v => fullInputs_valid supported

theorem parameter_unique {p q : Parameter} (first : p ∈ cls.parameters) (second : q ∈ cls.parameters)
    (same : p.name = q.name) : p = q :=
  List.inj_on_of_nodup_map cls.distinctParameters first second same

theorem full_withQuery : withQuery (parameterNames cls) (fullInputs cls) = fullInputs cls :=
  withQuery_eq fun query => (mem_byName_keys _).mpr (.inl ((mem_parameterNames _).mp query))

theorem SoundAndComplete.parameter (sound : SoundAndComplete whole cls) (supported : Supported cls) {f : ModelField φ ο}
    (member : f ∈ cls.fields) : ∃ p ∈ explicitParameters cls.parameters, p.name = f.name := by
  have given := (sound.accepts _).mp (full_passes supported)
  rw [full_withQuery] at given
  have there : f.name ∈ (fullInputs cls).keys := (mem_byName_keys _).mpr (.inr ⟨f,member,rfl⟩)
  obtain ⟨v,held⟩ := Option.isSome_iff_exists.mp ((OrderedDict.mem_keys _ _).mp there)
  obtain ⟨p,inside,named,_⟩ := given.typed _ v held
  exact ⟨p,inside,named⟩

/-- Where all fields are parameters, the full inputs are what the parameters ask for. -/
theorem full_typed (whole : φ → Bool) (supported : Supported cls)
    (fields : ∀ f ∈ cls.fields, ∃ p ∈ explicitParameters cls.parameters, p.name = f.name) {k : String} {v : Value φ ο}
    (given : (fullInputs cls).get? k = some v) :
    ∃ p ∈ explicitParameters cls.parameters, p.name = k ∧ OfType whole p.hint v := by
  rcases (byName_get?_iff _ _).mp given with ⟨p,inside,named,rfl⟩ | ⟨unnamed,f,member,named,_⟩
  · obtain ⟨⟨t,nullable⟩,meant⟩ := Option.ne_none_iff_exists'.mp (supported p inside)
    exact ⟨p,inside,named,sample_ofType meant⟩
  · obtain ⟨p,inside,own⟩ := fields f member
    exact absurd (own.trans named) (unnamed p inside)

/-- A field that is required needs its parameter, though that may have a default. -/
theorem SoundAndComplete.needed (sound : SoundAndComplete whole cls) (supported : Supported cls) {f : ModelField φ ο}
    (member : f ∈ cls.fields) (required : f.required = true) {p : Parameter}
    (inside : p ∈ explicitParameters cls.parameters) (named : p.name = f.name) : p.hasDefault = false ∨ p.name = "query" := by
  by_contra neither
  obtain ⟨default,other⟩ := not_or.mp neither
  have keeps {k : String} (there : k ∈ (fullInputs cls).keys) (apart : k ≠ p.name) :
      k ∈ ((fullInputs cls).erase p.name).keys := by
    rw [OrderedDict.keys_erase]
    exact List.mem_filter.mpr ⟨there,by simpa using apart⟩
  have same : withQuery (parameterNames cls) ((fullInputs cls).erase p.name) = (fullInputs cls).erase p.name := by
    refine withQuery_eq fun query => keeps ?_ (Ne.symm other)
    exact (mem_byName_keys _).mpr (.inl ((mem_parameterNames _).mp query))
  have passes : passesValidation whole cls ((fullInputs cls).erase p.name) = true := by
    refine (sound.accepts _).mpr ?_
    rw [same]
    constructor
    · intro q second bare
      refine keeps (parameter_mem_full second) fun twice => default ?_
      have one := parameter_unique (mem_explicitParameters.mp second).1 (mem_explicitParameters.mp inside).1 twice
      exact one ▸ bare
    · intro k v held
      rw [OrderedDict.get?_erase] at held
      split at held
      · cases held
      · exact full_typed whole supported (fun f member => sound.parameter supported member) held
  have same' : inputsOf cls ((fullInputs cls).erase p.name) = (fullInputs cls).erase p.name := by
    refine withQuery_eq fun query => keeps ?_ (Ne.symm other)
    exact (mem_fullInputs_keys _).mpr query
  have there := ((passes_iff _ _ _).mp passes).1 f member required
  rw [same',← named,OrderedDict.keys_erase] at there
  simp at there

theorem changed_withQuery (k : String) (v : Value φ ο) :
    withQuery (parameterNames cls) ((fullInputs cls).set k v) = (fullInputs cls).set k v := by
  refine withQuery_eq fun query => (OrderedDict.mem_keys_set _ _ _ _).mpr (.inr ?_)
  exact (mem_byName_keys _).mpr (.inl ((mem_parameterNames _).mp query))

theorem parameter_schema {p : Parameter} (inside : p ∈ explicitParameters cls.parameters) :
    (getInputSchema cls).properties.get? p.name = some (annotationToSchema p.hint) := by
  rw [getInputSchema_properties]
  exact (byName_get?_iff _ _).mpr (.inl ⟨p,inside,rfl,rfl⟩)

/-- A parameter takes what its annotation means. -/
theorem SoundAndComplete.accepts_value (sound : SoundAndComplete whole cls) (supported : Supported cls) {p : Parameter}
    (inside : p ∈ explicitParameters cls.parameters) (v : Value φ ο) :
    (annotationToSchema p.hint).validates whole v = true ↔ OfType whole p.hint v := by
  have held : ((fullInputs cls).set p.name v).get? p.name = some v := OrderedDict.get?_set_same _ _ _
  constructor
  · intro valid
    have given := (sound.accepts _).mp (changed_passes supported (parameter_schema inside) valid)
    rw [changed_withQuery] at given
    obtain ⟨q,second,named,fits⟩ := given.typed p.name v held
    have one := parameter_unique (mem_explicitParameters.mp second).1 (mem_explicitParameters.mp inside).1 named
    exact one ▸ fits
  · intro fits
    have passes : passesValidation whole cls ((fullInputs cls).set p.name v) = true := by
      refine (sound.accepts _).mpr ?_
      rw [changed_withQuery]
      refine ⟨fun q second _ => (OrderedDict.mem_keys_set _ _ _ _).mpr (.inr (parameter_mem_full second)),?_⟩
      intro k w given
      rw [OrderedDict.get?_set] at given
      split at given
      · next here =>
        cases given
        exact ⟨p,inside,here,fits⟩
      · exact full_typed whole supported (fun f member => sound.parameter supported member) given
    obtain ⟨s,known,valid⟩ := ((passes_iff _ _ _).mp passes).2.2 p.name v (by rw [changed_inputsOf]; exact held)
    rw [parameter_schema inside] at known
    cases known
    exact valid

/-- `None` is refused, and a text as annotation accepts everything. -/
theorem SoundAndComplete.type (sound : SoundAndComplete whole cls) (supported : Supported cls) {p : Parameter}
    (inside : p ∈ explicitParameters cls.parameters) : ∃ t, p.hint = .type t := by
  obtain ⟨⟨t,nullable⟩,meant⟩ := Option.ne_none_iff_exists'.mp (supported p inside)
  rcases annotationToSchema_cases (φ := φ) (ο := ο) meant with ⟨typed,plain | rfl⟩ | opened
  · exact ⟨t,plain⟩
  · have valid := (sound.accepts_value supported inside (.inl .null)).mpr ⟨t,true,meant,.inr ⟨rfl,rfl⟩⟩
    rw [typed] at valid
    cases t <;> cases valid
  · have fits := (sound.accepts_value supported inside t.foreign).mp (by rw [opened]; rfl)
    obtain ⟨u,other,same,fits⟩ := fits
    cases meant.symm.trans same
    rcases fits with typed | ⟨_,null⟩
    · rw [not_isType_foreign] at typed
      cases typed
    · cases t <;> cases null

theorem SoundAndComplete.keyword (sound : SoundAndComplete whole cls) (supported : Supported cls) {p : Parameter}
    (member : p ∈ cls.parameters) (single : p.catchAll = false) :
    if p ∈ explicitParameters cls.parameters then
      p.kind ≠ .positionalOnly ∨ (p.hasDefault = true ∧ ∃ q ∈ cls.parameters, q.kind = .varKeyword)
    else p.hasDefault = true := by
  have binds := sound.callable _ (full_passes supported)
  rw [full_inputsOf] at binds
  split
  · next inside =>
    rcases binds.1 p.name (parameter_mem_full inside) with ⟨q,second,named,_,keyword⟩ | rest
    · exact .inl (parameter_unique second member named ▸ keyword)
    · cases default : p.hasDefault with
      | false => exact .inl (binds.2 p member single default).1
      | true => exact .inr ⟨rfl,rest⟩
  · next outside =>
    by_contra bare
    have there := (binds.2 p member single (Bool.eq_false_iff.mpr bare)).2
    obtain ⟨v,held⟩ := Option.isSome_iff_exists.mp ((OrderedDict.mem_keys _ _).mp there)
    obtain ⟨q,second,named,_⟩ := full_typed whole supported (fun f member => sound.parameter supported member) held
    exact outside (parameter_unique (mem_explicitParameters.mp second).1 member named ▸ second)

/-- The schema is sound and complete exactly for plain classes. -/
theorem soundAndComplete_iff (supported : Supported cls) : SoundAndComplete whole cls ↔ Plain cls := by
  constructor
  · intro sound
    refine ⟨fun f member => ?_,fun p => sound.type supported,fun p => sound.keyword supported⟩
    obtain ⟨p,inside,named⟩ := sound.parameter supported member
    exact ⟨p,inside,named,fun required => sound.needed supported member required inside named⟩
  · intro plain
    refine ⟨plain.accepts,fun kwargs passes => ?_⟩
    have given := (plain.accepts kwargs).mp passes
    rw [plain.inputsOf_eq]
    exact plain.callable given

end

/-! ### Two tools -/

/-- Every tool has the fields `name` and `description`. -/
def textField (name : String) : ModelField Unit Unit :=
  { name,required := false,accepts := isType (fun _ => false) .str,sample := .inl (.str ""),accepted := rfl }

/-- A tool with one parameter, which is optional. -/
def greeter : ToolClass Unit Unit where
  fields := [textField "name",textField "description"]
  parameters := [{ name := "greeting",hint := .optional (.type .str) }]
  distinctFields := by decide
  distinctParameters := by decide

/-- The tool's name passes as an input and cannot be passed on, and `None` is refused. -/
theorem greeter_unsound : Supported greeter ∧ ¬SoundAndComplete (fun _ => false) greeter ∧
    passesValidation (fun _ => false) greeter (.ofList [("greeting",.inl (.str "Hi")),("name",.inl (.str "Ann"))]) = true ∧
    ¬Binds greeter.parameters (.ofList [("greeting",.inl (.str "Hi")),("name",.inl (.str "Ann"))] : Kwargs Unit Unit) ∧
    passesValidation (fun _ => false) greeter (.ofList [("greeting",.inl .null)]) = false := by
  have passes : passesValidation (fun _ => false) greeter
      (.ofList [("greeting",.inl (.str "Hi")),("name",.inl (.str "Ann"))]) = true := by decide +kernel
  have unbound : ¬Binds greeter.parameters
      (.ofList [("greeting",.inl (.str "Hi")),("name",.inl (.str "Ann"))] : Kwargs Unit Unit) := by
    intro binds
    have unexpected := binds.1 "name" (by decide)
    revert unexpected
    decide
  refine ⟨by unfold Supported; decide,fun sound => ?_,passes,unbound,by decide +kernel⟩
  exact unbound (sound.callable _ passes)

/-- A tool that is passed its name and its description, a query and a limit. -/
def searcher : ToolClass Unit Unit where
  fields := [textField "name",textField "description"]
  parameters := [{ name := "name",hint := .type .str },{ name := "description",hint := .type .str },
    { name := "query",hint := .type .str },{ name := "limit",hint := .type .int,hasDefault := true }]
  distinctFields := by decide
  distinctParameters := by decide

theorem searcher_sound : SoundAndComplete (fun _ => false) searcher := by
  have types : ∀ p ∈ explicitParameters searcher.parameters, p.hint = .type .str ∨ p.hint = .type .int := by
    decide
  refine (soundAndComplete_iff (by unfold Supported; decide)).mpr ⟨fun f declared => ?_,fun p inside => ?_,by decide⟩
  · have named : ∀ name ∈ searcher.fields.map (·.name), ∃ p ∈ explicitParameters searcher.parameters, p.name = name := by
      decide
    have optional : ∀ required ∈ searcher.fields.map (·.required), required = false := by decide
    obtain ⟨p,inside,own⟩ := named f.name (List.mem_map_of_mem declared)
    refine ⟨p,inside,own,fun required => ?_⟩
    rw [optional f.required (List.mem_map_of_mem declared)] at required
    cases required
  · exact (types p inside).elim (⟨_,·⟩) (⟨_,·⟩)

end IceOS.ToolSchemas
