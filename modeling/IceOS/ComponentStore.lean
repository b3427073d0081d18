import IceOS.ActionRuns
import IceOS.OrderedDict

/-! The stored components. Registration goes through a repository, which keeps them in Redis, in the memory of the
application or in a database; updates and deletions go to Redis. -/
namespace IceOS

open ActionRuns

variable {β : Type}

inductive ComponentType where
  | tool
  | agent
  | workflow
  | code
  deriving DecidableEq, Repr

def ComponentType.text : ComponentType → String
  | tool => "tool"
  | agent => "agent"
  | workflow => "workflow"
  | code => "code"

/-- `fields` are the fields beside these, which the routes store and do not look at. -/
structure ComponentDefinition (β : Type) where
  type : ComponentType
  name : String
  fields : β
  deriving DecidableEq, Repr

structure ComponentRecord (β : Type) where
  definition : ComponentDefinition β
  createdAt : Option String
  updatedAt : Option String
  version : Nat := 1
  deriving DecidableEq, Repr

/-- The `json` and the `lock` under a key. -/
structure ComponentDocument (β : Type) where
  record : ComponentRecord β
  lock : String
  deriving DecidableEq, Repr

inductive RepositoryKind where
  | redis
  | inMemory
  | sql
  deriving DecidableEq, Repr

/-- The two functions named `_hash_lock`: the one of the repositories hashes a JSON text with blanks after its separators,
the one of the routes a text without. -/
structure ComponentHashes (β : Type) where
  repository : ComponentRecord β → String
  route : ComponentRecord β → String

/-- What a clock shows while a request is handled: twice to the application, and to the database. -/
structure RequestTimes where
  created : String
  updated : String
  database : String
  deriving DecidableEq, Repr

def componentId (componentType name : String) : String := componentType ++ ":" ++ name

def componentKey (componentType name : String) : String := "component:" ++ componentType ++ ":" ++ name

/-- `componentIndex` and `componentsIndex` are two keys of Redis, of one letter's difference. `latest` is no part of the
store: the definition that the last accepted request wrote for each component that it did not delete. -/
structure ComponentStore (β : Type) where
  redis : OrderedDict String (ComponentDocument β) := .empty
  componentIndex : OrderedDict String String := .empty
  componentsIndex : OrderedDict String String := .empty
  appComponents : OrderedDict String (ComponentDocument β) := .empty
  appIndex : OrderedDict String String := .empty
  rows : OrderedDict String (ComponentRecord β) := .empty
  latest : OrderedDict String (ComponentDefinition β) := .empty

/-- A request, with what its validation says of a registered definition and the `X-Version-Lock` header of an update. -/
inductive ComponentRequest (β : Type) where
  | register (definition : ComponentDefinition β) (valid : Bool) (times : RequestTimes)
  | update (componentType name : String) (definition : ComponentDefinition β) (versionLock : Option String)
      (times : RequestTimes)
  | delete (componentType name : String)
  deriving DecidableEq, Repr

namespace ComponentStore

/-! ### The repositories -/

def get (x : ComponentHashes β) (kind : RepositoryKind) (s : ComponentStore β) (componentType name : String) :
    Option (ComponentDocument β) :=
  match kind with
  | .redis => s.redis.get? (componentKey componentType name)
  | .inMemory => s.appComponents.get? (componentKey componentType name)
  | .sql => (s.rows.get? (componentId componentType name)).map fun row => ⟨row,x.repository row⟩

/-- The database sets the times of a row itself. -/
def writeRow (row : Option (ComponentRecord β)) (payload : ComponentRecord β) (now : String) : ComponentRecord β :=
  match row with
  | none => { payload with createdAt := some now,updatedAt := some now }
  | some row => { row with definition := payload.definition,version := payload.version,updatedAt := some now }

def put (kind : RepositoryKind) (s : ComponentStore β) (componentType name : String) (payload : ComponentRecord β)
    (lock now : String) : ComponentStore β :=
  match kind with
  | .redis => { s with redis := s.redis.set (componentKey componentType name) ⟨payload,lock⟩ }
  | .inMemory => { s with appComponents := s.appComponents.set (componentKey componentType name) ⟨payload,lock⟩ }
  | .sql =>
    let id := componentId componentType name
    { s with rows := s.rows.set id (writeRow (s.rows.get? id) payload now) }

def setIndex (kind : RepositoryKind) (s : ComponentStore β) (key lock : String) : ComponentStore β :=
  match kind with
  | .redis => { s with componentIndex := s.componentIndex.set key lock }
  | .inMemory => { s with appIndex := s.appIndex.set key lock }
  | .sql => s

def getIndex (x : ComponentHashes β) (kind : RepositoryKind) (s : ComponentStore β) : OrderedDict String String :=
  match kind with
  | .redis => s.componentIndex
  | .inMemory => s.appIndex
  | .sql => s.rows.mapValues x.repository

/-! ### The routes -/

/-- What a registration is about to store. -/
def nextRecord (existing : Option (ComponentDocument β)) (definition : ComponentDefinition β) (times : RequestTimes) :
    ComponentRecord β where
  definition := definition
  createdAt :=
    match existing with
    | some document => document.record.createdAt
    | none => some times.created
  updatedAt := some times.updated
  version :=
    match existing with
    | some document => document.record.version + 1
    | none => 1

/-- The service's `register`, once the definition is valid. -/
def register (x : ComponentHashes β) (kind : RepositoryKind) (s : ComponentStore β) (definition : ComponentDefinition β)
    (times : RequestTimes) : String × ComponentStore β :=
  let componentType := definition.type.text
  let name := definition.name
  let existing := s.get x kind componentType name
  let record := nextRecord existing definition times
  let lock := x.repository record
  if existing.any fun document => document.lock ≠ "" && document.lock = lock then
    (lock,s.setIndex kind (componentId componentType name) lock)
  else
    (lock,(s.put kind componentType name record lock times.database).setIndex kind (componentId componentType name) lock)

def updateComponent (x : ComponentHashes β) (s : ComponentStore β) (componentType name : String)
    (definition : ComponentDefinition β) (versionLock : Option String) (times : RequestTimes) :
    Except Nat (String × ComponentStore β) :=
  if definition.type.text ≠ componentType ∨ definition.name ≠ name then .error 400
  else
    match s.redis.get? (componentKey componentType name) with
    | none => .error 404
    | some document =>
      if document.lock = "" then .error 404
      else
        match versionLock with
        | none => .error 428
        | some clientLock =>
          if document.lock ≠ clientLock then .error 409
          else
            -- the creation time of the stored record is not looked at, and its version neither
            let record : ComponentRecord β :=
              { definition,createdAt := some times.created,updatedAt := some times.updated }
            let newLock := x.route record
            .ok (newLock,{ s with redis := s.redis.set (componentKey componentType name) ⟨record,newLock⟩ })

def deleteComponent (s : ComponentStore β) (componentType name : String) : ComponentStore β :=
  { s with
    redis := s.redis.erase (componentKey componentType name)
    componentsIndex := s.componentsIndex.erase (componentId componentType name) }

/-- A deletion is always accepted. -/
def step (x : ComponentHashes β) (kind : RepositoryKind) (s : ComponentStore β) :
    ComponentRequest β → Option (ComponentStore β)
  | .register definition valid times =>
    if valid then
      let t := (s.register x kind definition times).2
      some { t with latest := t.latest.set (componentId definition.type.text definition.name) definition }
    else some s
  | .update componentType name definition versionLock times =>
    match s.updateComponent x componentType name definition versionLock times with
    | .error _ => some s
    | .ok (_,t) => some { t with latest := t.latest.set (componentId componentType name) definition }
  | .delete componentType name =>
    let t := s.deleteComponent componentType name
    some { t with latest := t.latest.erase (componentId componentType name) }

/-- The component that a request changes, where it is accepted. -/
def changes (x : ComponentHashes β) (s : ComponentStore β) : ComponentRequest β → Option String
  | .register definition valid _ => if valid then some (componentId definition.type.text definition.name) else none
  | .update componentType name definition versionLock times =>
    match s.updateComponent x componentType name definition versionLock times with
    | .error _ => none
    | .ok _ => some (componentId componentType name)
  | .delete .. => none

end ComponentStore

end IceOS
