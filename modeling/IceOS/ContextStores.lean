import IceOS.JsonRoundTrip
import IceOS.NodeModels

/-! The two stores of node contexts: a cache with a file behind it, and a hash of Redis. -/
namespace IceOS

open PythonJson

variable {φ : Type}

structure ContextEntry (φ : Type) where
  data : Json φ
  executionId : Option String := none

abbrev ContextDocument (φ : Type) := OrderedDict String (ContextEntry φ)

abbrev ContextSchema := OrderedDict String String

/-- An unknown node id or an empty one to clear means all of them. -/
inductive StoreCall (φ : Type) where
  | get (nodeId : String)
  | set (nodeId : String) (context : Json φ) (schema : ContextSchema)
  | update (nodeId : String) (content : Json φ) (executionId : Option String) (schema : ContextSchema)
  | clear (nodeId : Option String)

/-- `isinstance` with a type of `TYPE_NAME_MAP`; a truth value is an `int` too. -/
def isInstance : String → Json φ → Bool
  | "int",.int _ | "int",.bool _ => true
  | "str",.str _ => true
  | "float",.float _ => true
  | "bool",.bool _ => true
  | "list",.list _ => true
  | "dict",.dict _ => true
  | _,_ => false

def validateSchema (content : Json φ) (schema : ContextSchema) : Bool :=
  schema.items.isEmpty ||
    match content with
    | .dict entries => schema.items.all fun field => (entries.lookup field.1).any (isInstance field.2)
    | _ => false

def contextStoreError (message : String) : Exn :=
  ⟨message,"ContextStoreError(" ++ PythonText.repr message ++ ")"⟩

def schemaMismatch (nodeId : String) : Exn :=
  contextStoreError ("Context for node " ++ nodeId ++ " does not match schema.")

def tooManyDigits : String := "Exceeds the limit (4300 digits) for integer string conversion"

/-- An empty execution id counts as none. -/
def givenId (executionId : Option String) : Option String := executionId.filter (· ≠ "")

/-! ### The file -/

def writable (d : ContextDocument φ) : Bool := d.items.all fun item => representable item.2.data

/-- A document that could be written. -/
structure WrittenDocument (φ : Type) where
  document : ContextDocument φ
  written : writable document = true

theorem writable_empty : writable (.empty : ContextDocument φ) = true := rfl

/-- The document in the file is `none` where it does not parse. -/
structure ContextStore (φ : Type) where
  cache : ContextDocument φ := .empty
  file : Option (WrittenDocument φ) := some ⟨.empty,writable_empty⟩

namespace ContextStore

/-- What the file is read as. -/
def readFile (s : ContextStore φ) : ContextDocument φ :=
  match s.file with
  | some text => text.document
  | none => .empty

/-- `json.dump` into the opened file, which is truncated before. -/
def writeFile (s : ContextStore φ) (d : ContextDocument φ) : Except Exn Unit × ContextStore φ :=
  if written : writable d = true then (.ok (),{ s with file := some ⟨d,written⟩ })
  else (.error (valueError tooManyDigits),{ s with file := none })

def get (s : ContextStore φ) (nodeId : String) : Json φ :=
  match s.cache.get? nodeId with
  | some entry => entry.data
  | none => .dict []

/-- `set` writes the whole cache. -/
def set (s : ContextStore φ) (nodeId : String) (context : Json φ) (schema : ContextSchema) :
    Except Exn Unit × ContextStore φ :=
  if !validateSchema context schema then (.error (schemaMismatch nodeId),s)
  else
    let s := { s with cache := s.cache.set nodeId { data := context } }
    match s.writeFile s.cache with
    | (.ok _,s) => (.ok (),s)
    | (.error e,s) => (.error (contextStoreError e.text),s)

/-- `update` adds the entry to what it reads from the file. -/
def update (s : ContextStore φ) (nodeId : String) (content : Json φ) (executionId : Option String)
    (schema : ContextSchema) : Except Exn Unit × ContextStore φ :=
  if !validateSchema content schema then (.error (schemaMismatch nodeId),s)
  else
    let entry := { data := content,executionId := givenId executionId }
    let s := { s with cache := s.cache.set nodeId entry }
    s.writeFile (s.readFile.set nodeId entry)

def clear (s : ContextStore φ) (nodeId : Option String) : ContextStore φ :=
  match givenId nodeId with
  | some id => ({ s with cache := s.cache.erase id }.writeFile (s.readFile.erase id)).2
  | none => {}

def handle (s : ContextStore φ) : StoreCall φ → Except Exn (Json φ) × ContextStore φ
  | .get nodeId => (.ok (s.get nodeId),s)
  | .set nodeId context schema => ((s.set nodeId context schema).1.map fun _ => .null,(s.set nodeId context schema).2)
  | .update nodeId content executionId schema =>
    ((s.update nodeId content executionId schema).1.map fun _ => .null,(s.update nodeId content executionId schema).2)
  | .clear nodeId => (.ok .null,s.clear nodeId)

end ContextStore

/-! ### Redis -/

/-- The fields of the hash; there is no execution in which Redis does not answer. -/
structure RedisContextStore where
  fields : OrderedDict String String := .empty

namespace RedisContextStore

variable (f : FloatTexts φ)

/-- Whatever goes wrong counts as a missing value. -/
def get (s : RedisContextStore) (nodeId : String) : Json φ :=
  match s.fields.get? nodeId with
  | none => .null
  | some raw =>
    if raw = "" then .null
    else
      match loads f raw with
      | some (.dict entries) => (entries.lookup "data").getD .null
      | _ => .null

/-- What cannot be written is only logged. -/
def write (s : RedisContextStore) (nodeId : String) (payload : Json φ) : RedisContextStore :=
  if representable payload then ⟨s.fields.set nodeId (dumps f payload)⟩ else s

/-- The schema is not looked at. -/
def set (s : RedisContextStore) (nodeId : String) (context : Json φ) : RedisContextStore :=
  s.write f nodeId (.dict [("data",context)])

def update (s : RedisContextStore) (nodeId : String) (content : Json φ) (executionId : Option String) :
    RedisContextStore :=
  s.write f nodeId (.dict (("data",content) :: (givenId executionId).toList.map fun id => ("execution_id",.str id)))

def clear (s : RedisContextStore) (nodeId : Option String) : RedisContextStore :=
  match givenId nodeId with
  | some id => ⟨s.fields.erase id⟩
  | none => {}

def handle (s : RedisContextStore) : StoreCall φ → Except Exn (Json φ) × RedisContextStore
  | .get nodeId => (.ok (s.get f nodeId),s)
  | .set nodeId context _ => (.ok .null,s.set f nodeId context)
  | .update nodeId content executionId _ => (.ok .null,s.update f nodeId content executionId)
  | .clear nodeId => (.ok .null,s.clear nodeId)

end RedisContextStore

end IceOS
