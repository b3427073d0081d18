import IceOS.PythonDatetime
import IceOS.PythonValues
import IceOS.WorkingMemory
import Mathlib.Data.Finset.Basic

/-! The episodic memory and its two backends: Redis, with a hash for each episode and a set of keys for each attribute, and
a dictionary of entries. -/
namespace IceOS.EpisodicMemory

open PythonDatetime PythonJson

variable {φ κ : Type}

abbrev Metadata (φ : Type) := OrderedDict String (Json φ)

structure MemoryEntry (φ κ : Type) where
  key : String
  content : Json φ
  metadata : Metadata φ
  timestamp : DateTime
  tokenUsage : Nat
  costUsd : κ

/-- The order in which Python or Redis goes through a set. -/
structure SetOrder where
  list : Finset String → List String
  nodup : ∀ keys, (list keys).Nodup
  mem : ∀ keys key, key ∈ list keys ↔ key ∈ keys

def plain (pattern : String) : Prop := ∀ c ∈ pattern.toList, c ∉ ['*','?','[','\\']

instance (pattern : String) : Decidable (plain pattern) := List.decidableBAll _ _

/-- What the memory calls on: floating-point numbers, `lower`, the patterns of Redis, the TTL of the configuration, and
the price of a number of tokens. -/
structure EpisodicRules (φ κ : Type) where
  floats : PythonFloats φ
  lower : String → String
  lower_empty : lower "" = ""
  glob : String → String → Bool
  glob_plain : ∀ pattern key, plain pattern → (glob (pattern ++ "*") key = true ↔ pattern.toList <+: key.toList)
  cfg : MemoryConfig
  cost : Nat → κ
  noCost : κ
  cost_zero : cost 0 = noCost

/-- The clocks of Redis and of the application, and the orders of sets, when a request is handled. -/
structure Moment where
  now : Int
  timestamp : DateTime
  redisOrder : SetOrder
  memoryOrder : SetOrder
  keysOrder : SetOrder

/-- Missing metadata, filters and patterns count as empty ones. -/
inductive EpisodicRequest (φ : Type) where
  | store (key : String) (content : Json φ) (metadata : Metadata φ)
  | retrieve (key : String)
  | delete (key : String)
  | search (query : String) (limit : Int) (filters : Metadata φ)
  | listKeys (pattern : String) (limit : Int)

inductive EpisodicReply (φ κ : Type) where
  | stored
  | entry (entry : Option (MemoryEntry φ κ))
  | deleted (found : Bool)
  | entries (entries : List (MemoryEntry φ κ))
  | keys (keys : List String)

/-! ### What both backends do -/

def ttl (cfg : MemoryConfig) : Int :=
  match cfg.ttlSeconds with
  | some seconds => if seconds = 0 then 604800 else seconds
  | none => 604800

def tokenUsage : Json φ → Nat
  | .str text => text.length / 4
  | _ => 0

/-- The metadata of an entry: what was given, and the attributes of an episode. -/
def episodeMetadata (metadata : Metadata φ) : Metadata φ :=
  metadata.update
    [("episode_type",(metadata.get? "type").getD (.str "conversation")),
      ("participants",(metadata.get? "participants").getD (.list [])),
      ("outcome",(metadata.get? "outcome").getD (.str "ongoing")),
      ("sentiment",(metadata.get? "sentiment").getD (.str "neutral")),
      ("tags",(metadata.get? "tags").getD (.list []))]

def newEntry (x : EpisodicRules φ κ) (timestamp : DateTime) (key : String) (content : Json φ) (metadata : Metadata φ) :
    MemoryEntry φ κ where
  key := key
  content := content
  metadata := episodeMetadata metadata
  timestamp := timestamp
  tokenUsage := tokenUsage content
  costUsd := x.cost (tokenUsage content)

def queryMatches (x : EpisodicRules φ κ) (query : String) (content : Json φ) : Bool :=
  PythonText.contains (x.lower query) (x.lower (x.floats.str content))

/-- `items[:limit]` -/
def sliceTo {α : Type} (items : List α) (limit : Int) : List α :=
  if 0 ≤ limit then items.take limit.toNat else items.take (items.length - (-limit).toNat)

/-- The keys that pass a test which may raise. -/
def collect (test : String → Except Exn Bool) : List String → Except Exn (Finset String)
  | [] => .ok ∅
  | key :: rest => do
    let passed ← test key
    let found ← collect test rest
    return if passed then insert key found else found

def retrieveAll (retrieve : String → Except Exn (Option (MemoryEntry φ κ))) :
    List String → Except Exn (List (MemoryEntry φ κ))
  | [] => .ok []
  | key :: rest => do
    let entry ← retrieve key
    let entries ← retrieveAll retrieve rest
    return entry.toList ++ entries

def newestFirst (entries : List (MemoryEntry φ κ)) : List (MemoryEntry φ κ) :=
  entries.mergeSort fun a b => decide (b.timestamp.value ≤ a.timestamp.value)

/-- The end of a search: `keys` are the matching keys in the order of the set. -/
def answer (retrieve : String → Except Exn (Option (MemoryEntry φ κ))) (keys : List String) (limit : Int) :
    Except Exn (List (MemoryEntry φ κ)) := do
  let entries ← retrieveAll retrieve (sliceTo keys limit)
  return sliceTo (newestFirst entries) limit

/-! ### Redis -/

structure EpisodeHash where
  content : String
  metadata : String
  timestamp : String
  expires : Int
  deriving DecidableEq, Repr

structure EpisodeIndex where
  members : Finset String
  expires : Int

/-- The hashes under `episode:` and the sets under `episode_idx:`. -/
structure RedisEpisodes where
  hashes : OrderedDict String EpisodeHash := .empty
  indexes : OrderedDict String EpisodeIndex := .empty

def fullKey (key : String) : String := "episode:" ++ key

/-- `full_key.replace("episode:", "")` -/
def strip (full : String) : String := String.join (PythonText.split "episode:" full)

/-- The attributes that episodes are indexed by. -/
inductive Attribute where
  | type
  | participant
  | tag
  | date
  | outcome
  deriving DecidableEq

def Attribute.word : Attribute → String
  | type => "type"
  | participant => "participant"
  | tag => "tag"
  | date => "date"
  | outcome => "outcome"

/-- The name of a set. -/
def index (a : Attribute) (text : String) : String := "episode_idx:" ++ (a.word ++ (":" ++ text))

/-- The sets of `_index_episode`. -/
def indexNames (x : EpisodicRules φ κ) (metadata : Metadata φ) (timestamp : DateTime) : Except Exn (List String) := do
  let participants ← PythonFloats.iterate ((metadata.get? "participants").getD (.list []))
  let tags ← PythonFloats.iterate ((metadata.get? "tags").getD (.list []))
  return index .type (x.floats.str ((metadata.get? "episode_type").getD (.str "unknown"))) ::
    (participants.map (fun v => index .participant (x.floats.str v)) ++ tags.map (fun v => index .tag (x.floats.str v)) ++
      [index .date timestamp.date,index .outcome (x.floats.str ((metadata.get? "outcome").getD (.str "unknown")))])

def wantedTags (filters : Metadata φ) : Except Exn (List (Json φ)) :=
  match filters.get? "tags" with
  | some v => PythonFloats.iterate v
  | none => .ok []

/-- The sets that a search with filters intersects. -/
def wantedIndexes (x : EpisodicRules φ κ) (filters : Metadata φ) : Except Exn (List String) := do
  let tags ← wantedTags filters
  let named (a : Attribute) (v : Option (Json φ)) := v.toList.map fun v => index a (x.floats.str v)
  return named .type (filters.get? "type") ++ named .participant (filters.get? "participant") ++
    tags.map (fun v => index .tag (x.floats.str v)) ++ named .outcome (filters.get? "outcome") ++
    named .date (filters.get? "date")

/-- `json.dumps` -/
def dumpsOrRaise (x : EpisodicRules φ κ) (v : Json φ) : Except Exn String :=
  if representable v then .ok (dumps x.floats.toFloatTexts v)
  else .error (valueError "Exceeds the limit (4300 digits) for integer string conversion")

namespace RedisEpisodes

/-- A hash that has not expired. -/
def hash? (s : RedisEpisodes) (now : Int) (full : String) : Option EpisodeHash :=
  (s.hashes.get? full).filter fun hash => now < hash.expires

def members (s : RedisEpisodes) (now : Int) (name : String) : Finset String :=
  match s.indexes.get? name with
  | some index => if now < index.expires then index.members else ∅
  | none => ∅

/-- `sadd` and `expire` -/
def sadd (now expires : Int) (key : String) (s : RedisEpisodes) (name : String) : RedisEpisodes :=
  { s with indexes := s.indexes.set name ⟨insert key (s.members now name),expires⟩ }

def srem (key : String) (s : RedisEpisodes) (name : String) : RedisEpisodes :=
  match s.indexes.get? name with
  | some index => { s with indexes := s.indexes.set name { index with members := index.members.erase key } }
  | none => s

/-- Content that is a string is stored as it is. -/
def contentText (x : EpisodicRules φ κ) : Json φ → Except Exn String
  | .str text => .ok text
  | v => dumpsOrRaise x v

/-- The pipeline is executed at the end: where something raises, nothing is stored. -/
def store (x : EpisodicRules φ κ) (m : Moment) (key : String) (content : Json φ) (metadata : Metadata φ)
    (s : RedisEpisodes) : Except Exn RedisEpisodes := do
  let entry := newEntry x m.timestamp key content metadata
  let content ← contentText x content
  let metadata ← dumpsOrRaise x (.dict entry.metadata.items)
  let names ← indexNames x entry.metadata entry.timestamp
  let expires := m.now + ttl x.cfg
  let s := { s with hashes := s.hashes.set (fullKey key) ⟨content,metadata,entry.timestamp.isoformat,expires⟩ }
  return names.foldl (sadd m.now expires key) s

/-- What is no JSON stays a string. -/
def readContent (x : EpisodicRules φ κ) (text : String) : Json φ :=
  (loads x.floats.toFloatTexts text).getD (.str text)

def retrieve (x : EpisodicRules φ κ) (now : Int) (s : RedisEpisodes) (key : String) :
    Except Exn (Option (MemoryEntry φ κ)) :=
  match s.hash? now (fullKey key) with
  | none => .ok none
  | some hash =>
    match loads x.floats.toFloatTexts hash.metadata,DateTime.fromisoformat hash.timestamp with
    | some (.dict items),some timestamp =>
      .ok (some ⟨key,readContent x hash.content,.ofList items,timestamp,0,x.noCost⟩)
    | some (.dict _),none => .error (valueError ("Invalid isoformat string: " ++ PythonText.repr hash.timestamp))
    | some _,_ => .error (valueError "metadata: Input should be a valid dictionary")
    | none,_ => .error (valueError "Expecting value")

def delete (x : EpisodicRules φ κ) (now : Int) (s : RedisEpisodes) (key : String) : Except Exn (Bool × RedisEpisodes) := do
  match ← s.retrieve x now key with
  | none => return (false,s)
  | some entry =>
    let names ← indexNames x entry.metadata entry.timestamp
    let s := names.foldl (srem key) s
    return (true,{ s with hashes := s.hashes.erase (fullKey key) })

/-- `KEYS` -/
def keys (x : EpisodicRules φ κ) (m : Moment) (s : RedisEpisodes) (pattern : String) : List String :=
  m.keysOrder.list ((s.hashes.keys.filter fun full => (s.hash? m.now full).isSome && x.glob pattern full).toFinset)

/-- `SINTER` -/
def intersection (s : RedisEpisodes) (now : Int) : List String → Finset String
  | [] => ∅
  | name :: names => (s.members now name).filter fun key => ∀ other ∈ names, key ∈ s.members now other

def matchesQuery (x : EpisodicRules φ κ) (now : Int) (s : RedisEpisodes) (query key : String) : Except Exn Bool :=
  (s.retrieve x now key).map fun entry => entry.any fun entry => queryMatches x query entry.content

def matchingKeys (x : EpisodicRules φ κ) (m : Moment) (s : RedisEpisodes) (query : String) (filters : Metadata φ) :
    Except Exn (Finset String) :=
  if filters.items.isEmpty then
    collect (s.matchesQuery x m.now query) (((s.keys x m "episode:*").take 100).map strip)
  else do
    let names ← wantedIndexes x filters
    let found := s.intersection m.now names
    if query = "" then return found else collect (s.matchesQuery x m.now query) (m.redisOrder.list found)

def search (x : EpisodicRules φ κ) (m : Moment) (s : RedisEpisodes) (query : String) (limit : Int) (filters : Metadata φ) :
    Except Exn (List (MemoryEntry φ κ)) := do
  let found ← s.matchingKeys x m query filters
  answer (s.retrieve x m.now) (m.redisOrder.list found) limit

def listKeys (x : EpisodicRules φ κ) (m : Moment) (s : RedisEpisodes) (pattern : String) (limit : Int) : List String :=
  (sliceTo (s.keys x m (fullKey pattern ++ "*")) limit).map strip

def handle (x : EpisodicRules φ κ) (m : Moment) (s : RedisEpisodes) :
    EpisodicRequest φ → Except Exn (EpisodicReply φ κ) × RedisEpisodes
  | .store key content metadata =>
    match s.store x m key content metadata with
    | .ok t => (.ok .stored,t)
    | .error e => (.error e,s)
  | .retrieve key => ((s.retrieve x m.now key).map .entry,s)
  | .delete key =>
    match s.delete x m.now key with
    | .ok (found,t) => (.ok (.deleted found),t)
    | .error e => (.error e,s)
  | .search query limit filters => ((s.search x m query limit filters).map .entries,s)
  | .listKeys pattern limit => (.ok (.keys (s.listKeys x m pattern limit)),s)

end RedisEpisodes

/-! ### The dictionary -/

abbrev MemoryStore (φ κ : Type) := OrderedDict String (MemoryEntry φ κ)

/-- A filter that is not given is passed. -/
def tested (filter : Option (Json φ)) (test : Json φ → Except Exn Bool) : Except Exn Bool :=
  match filter with
  | some v => test v
  | none => .ok true

/-- The filters, as the entries are compared with them; `date` is not among them. -/
def passes (x : EpisodicRules φ κ) (filters metadata : Metadata φ) : Except Exn Bool := do
  let typed := (filters.get? "type").all fun v => x.floats.equalJson ((metadata.get? "episode_type").getD .null) v
  if !typed then return false
  let joined ← tested (filters.get? "participant") fun v =>
    x.floats.member v ((metadata.get? "participants").getD (.list []))
  if !joined then return false
  let tagged ← tested (filters.get? "tags") fun v => x.floats.allIn ((metadata.get? "tags").getD (.list [])) v
  if !tagged then return false
  return (filters.get? "outcome").all fun v => x.floats.equalJson ((metadata.get? "outcome").getD .null) v

namespace MemoryStore

def found (x : EpisodicRules φ κ) (s : MemoryStore φ κ) (query : String) (filters : Metadata φ) (key : String) :
    Except Exn Bool :=
  match s.get? key with
  | none => .ok false
  | some entry =>
    if query ≠ "" ∧ queryMatches x query entry.content = false then .ok false else passes x filters entry.metadata

def matchingKeys (x : EpisodicRules φ κ) (s : MemoryStore φ κ) (query : String) (filters : Metadata φ) :
    Except Exn (Finset String) :=
  collect (found x s query filters) s.keys

def search (x : EpisodicRules φ κ) (m : Moment) (s : MemoryStore φ κ) (query : String) (limit : Int)
    (filters : Metadata φ) : Except Exn (List (MemoryEntry φ κ)) := do
  let found ← matchingKeys x s query filters
  answer (fun key => .ok (s.get? key)) (m.memoryOrder.list found) limit

def listKeys (s : MemoryStore φ κ) (pattern : String) (limit : Int) : List String :=
  sliceTo (s.keys.filter fun key => pattern.toList.isPrefixOf key.toList) limit

def handle (x : EpisodicRules φ κ) (m : Moment) (s : MemoryStore φ κ) :
    EpisodicRequest φ → Except Exn (EpisodicReply φ κ) × MemoryStore φ κ
  | .store key content metadata => (.ok .stored,s.set key (newEntry x m.timestamp key content metadata))
  | .retrieve key => (.ok (.entry (s.get? key)),s)
  | .delete key => (.ok (.deleted (s.get? key).isSome),s.erase key)
  | .search query limit filters => ((search x m s query limit filters).map .entries,s)
  | .listKeys pattern limit => (.ok (.keys (listKeys s pattern limit)),s)

end MemoryStore

end IceOS.EpisodicMemory
