import IceOS.ActionRuns
import IceOS.EpisodeFilters
import IceOS.EpisodeSearches

/-! Whether the two backends of the episodic memory agree, request by request, and whether what was stored is retrieved. -/
namespace IceOS.EpisodicMemory

open ActionRuns PythonDatetime PythonJson

variable {φ κ : Type}

/-- The two backends under the same requests, and the content and the metadata that were last stored under each key. -/
structure BackendPair (φ κ : Type) where
  redis : RedisEpisodes := {}
  memory : MemoryStore φ κ := .empty
  latest : OrderedDict String (Json φ × Metadata φ) := .empty

/-- An entry without its accounts, which Redis does not keep. -/
def MemoryEntry.cleared (x : EpisodicRules φ κ) (e : MemoryEntry φ κ) : MemoryEntry φ κ :=
  { e with tokenUsage := 0,costUsd := x.noCost }

/-- An entry as it is compared: with its accounts or without. -/
def MemoryEntry.view (x : EpisodicRules φ κ) (accounts : Bool) (e : MemoryEntry φ κ) : MemoryEntry φ κ :=
  if accounts then e else e.cleared x

@[simp] theorem MemoryEntry.view_content (x : EpisodicRules φ κ) (accounts : Bool) (e : MemoryEntry φ κ) :
    (e.view x accounts).content = e.content := by cases accounts <;> rfl

@[simp] theorem MemoryEntry.view_metadata (x : EpisodicRules φ κ) (accounts : Bool) (e : MemoryEntry φ κ) :
    (e.view x accounts).metadata = e.metadata := by cases accounts <;> rfl

@[simp] theorem MemoryEntry.view_timestamp (x : EpisodicRules φ κ) (accounts : Bool) (e : MemoryEntry φ κ) :
    (e.view x accounts).timestamp = e.timestamp := by cases accounts <;> rfl

def MemoryEntry.told (e : MemoryEntry φ κ) : Json φ × Metadata φ := (e.content,e.metadata)

theorem MemoryEntry.view_told (x : EpisodicRules φ κ) (accounts : Bool) (e : MemoryEntry φ κ) :
    (e.view x accounts).told = e.told := by cases accounts <;> rfl

/-- The same answer of Redis and of the dictionary: sets have no order of their own, except that entries come newest
first. -/
def Agrees (x : EpisodicRules φ κ) (accounts : Bool) :
    Except Exn (EpisodicReply φ κ) → Except Exn (EpisodicReply φ κ) → Prop
  | .ok (.entry r),.ok (.entry e) => r = e.map (MemoryEntry.view x accounts)
  | .ok (.entries r),.ok (.entries e) => r.Perm (e.map (MemoryEntry.view x accounts)) ∧ NewestFirst r ∧ NewestFirst e
  | .ok (.keys r),.ok (.keys e) => r.Perm e
  | r,e => r = e

namespace BackendPair

def step (x : EpisodicRules φ κ) (s : BackendPair φ κ) (a : Moment × EpisodicRequest φ) : Option (BackendPair φ κ) :=
  some {
    redis := (s.redis.handle x a.1 a.2).2
    memory := (MemoryStore.handle x a.1 s.memory a.2).2
    latest :=
      match a.2 with
      | .store key content metadata => s.latest.set key (content,episodeMetadata metadata)
      | .delete key => s.latest.erase key
      | _ => s.latest }

/-- The backends agree on a request, and both retrieve what was stored. -/
structure Faithful (x : EpisodicRules φ κ) (accounts : Bool) (s : BackendPair φ κ) (a : Moment × EpisodicRequest φ) :
    Prop where
  agrees : Agrees x accounts (s.redis.handle x a.1 a.2).1 (MemoryStore.handle x a.1 s.memory a.2).1
  retrieves : ∀ key, a.2 = .retrieve key → ∃ r e, (s.redis.handle x a.1 a.2).1 = .ok (.entry r) ∧
    (MemoryStore.handle x a.1 s.memory a.2).1 = .ok (.entry e) ∧ r.map MemoryEntry.told = s.latest.get? key ∧
      e.map MemoryEntry.told = s.latest.get? key

def FaithfulThroughout (x : EpisodicRules φ κ) (accounts : Bool) (requests : List (Moment × EpisodicRequest φ)) : Prop :=
  ∀ earlier a later s, requests = earlier ++ a :: later → run (step x) earlier {} = some s → Faithful x accounts s a

/-- The keys in a set of Redis, expired or not. -/
def listed (s : RedisEpisodes) (name : String) : Finset String :=
  match s.indexes.get? name with
  | some index => index.members
  | none => ∅

/-- Nothing that Redis holds has outlived its TTL. -/
structure Alive (s : RedisEpisodes) (now : Int) : Prop where
  hashes : ∀ full hash, s.hashes.get? full = some hash → now < hash.expires
  indexes : ∀ name index, s.indexes.get? name = some index → index.members ≠ ∅ → now < index.expires

/-- The keys of the stored episodes whose content matches. -/
def matching (x : EpisodicRules φ κ) (s : BackendPair φ κ) (query : String) : List String :=
  s.memory.keys.filter fun key =>
    (s.memory.get? key).any fun e => query = "" ∨ queryMatches x query e.content = true

/-- The keys of those that also have all the attributes with these index names. -/
def named (x : EpisodicRules φ κ) (s : BackendPair φ κ) (query : String) (wanted : List String) : List String :=
  (s.matching x query).filter fun key =>
    (s.memory.get? key).any fun e =>
      match indexNames x e.metadata e.timestamp with
      | .ok names => ∀ name ∈ wanted, name ∈ names
      | .error _ => false

/-- An episode that Redis can give back, and find under the sets that it is in. -/
structure Storable (x : EpisodicRules φ κ) (accounts : Bool) (s : BackendPair φ κ) (m : Moment) (key : String)
    (content : Json φ) (metadata : Metadata φ) : Prop where
  strange : ∀ text, content = .str text → loads x.floats.toFloatTexts text = none
  written : representable content = true
  described : representable (.dict (episodeMetadata metadata).items) = true
  lives : 0 < ttl x.cfg
  indexed : ∃ names, indexNames x (episodeMetadata metadata) m.timestamp = .ok names ∧
    ∀ e ∈ s.memory.get? key, ∀ old, indexNames x e.metadata e.timestamp = .ok old → old ⊆ names
  free : accounts = true → tokenUsage content = 0

/-- A search without filters that reaches every key and leaves it as it is. -/
structure Scannable (x : EpisodicRules φ κ) (s : BackendPair φ κ) (query : String) (limit : Int) : Prop where
  clear : ∀ key ∈ s.memory.keys, PythonText.contains "episode:" key = false
  few : s.memory.keys.length ≤ 100
  fits : Fits (s.matching x query).length limit

/-- A search whose filters compare alike. -/
def Searchable (x : EpisodicRules φ κ) (s : BackendPair φ κ) (query : String) (limit : Int) (filters : Metadata φ) :
    Prop :=
  ∃ wanted, wantedIndexes x filters = .ok wanted ∧ (wanted = [] → s.matching x query = []) ∧
    (∀ key ∈ s.matching x query, ∀ e ∈ s.memory.get? key, ComparedAlike x filters e) ∧
      Fits (s.named x query wanted).length limit

structure Listable (s : BackendPair φ κ) (pattern : String) (limit : Int) : Prop where
  plain : plain pattern
  clear : ∀ key ∈ s.memory.keys, pattern.toList <+: key.toList → PythonText.contains "episode:" key = false
  fits : Fits (s.memory.keys.filter fun key => pattern.toList.isPrefixOf key.toList).length limit

/-- A request on which the backends agree, and after which they still do. -/
def Careful (x : EpisodicRules φ κ) (accounts : Bool) (s : BackendPair φ κ) (a : Moment × EpisodicRequest φ) : Prop :=
  Alive s.redis a.1.now ∧
    match a.2 with
    | .store key content metadata => Storable x accounts s a.1 key content metadata
    | .search query limit filters =>
      if filters.items = [] then Scannable x s query limit else Searchable x s query limit filters
    | .listKeys pattern limit => Listable s pattern limit
    | .retrieve _ | .delete _ => True

/-- A hash of Redis holds an entry. -/
structure Encodes (x : EpisodicRules φ κ) (hash : EpisodeHash) (e : MemoryEntry φ κ) : Prop where
  content : RedisEpisodes.readContent x hash.content = e.content
  metadata : loads x.floats.toFloatTexts hash.metadata = some (.dict e.metadata.items)
  timestamp : DateTime.fromisoformat hash.timestamp = some e.timestamp

structure Sound (x : EpisodicRules φ κ) (accounts : Bool) (s : BackendPair φ κ) : Prop where
  stored : ∀ key e, s.memory.get? key = some e →
    e.key = key ∧ ∃ hash, s.redis.hashes.get? (fullKey key) = some hash ∧ Encodes x hash e
  kept : ∀ full ∈ s.redis.hashes.keys, ∃ key, full = fullKey key ∧ (s.memory.get? key).isSome = true
  named : ∀ key e, s.memory.get? key = some e → ∃ names, indexNames x e.metadata e.timestamp = .ok names
  indexed : ∀ key name, key ∈ listed s.redis name ↔
    ∃ e names, s.memory.get? key = some e ∧ indexNames x e.metadata e.timestamp = .ok names ∧ name ∈ names
  latest : ∀ key, s.latest.get? key = (s.memory.get? key).map MemoryEntry.told
  unpriced : accounts = true → ∀ key e, s.memory.get? key = some e → e.cleared x = e

/-! ### What Redis holds -/

section

variable {x : EpisodicRules φ κ} {accounts : Bool} {s : BackendPair φ κ} {m : Moment} {now : Int}

theorem Alive.hash? (alive : Alive s.redis now) (full : String) :
    s.redis.hash? now full = s.redis.hashes.get? full := by
  simp only [RedisEpisodes.hash?]
  cases stored : s.redis.hashes.get? full with
  | none => rfl
  | some hash => simp only [Option.filter_some,decide_eq_true (alive.hashes full hash stored),if_true]

theorem Alive.members (alive : Alive s.redis now) (name : String) : s.redis.members now name = listed s.redis name := by
  simp only [RedisEpisodes.members,listed]
  cases held : s.redis.indexes.get? name with
  | none => rfl
  | some index =>
    by_cases empty : index.members = ∅
    · simp only [empty]
      split <;> rfl
    · exact if_pos (alive.indexes name index held empty)

theorem Sound.hashes_none (sound : Sound x accounts s) {key : String} (absent : s.memory.get? key = none) :
    s.redis.hashes.get? (fullKey key) = none := by
  rw [OrderedDict.get?_eq_none]
  intro member
  obtain ⟨other,same,present⟩ := sound.kept _ member
  rw [← fullKey_inj.mp same,absent] at present
  cases present

theorem ofList_self {α : Type} (d : OrderedDict String α) : OrderedDict.ofList d.items = d :=
  OrderedDict.ext_items (OrderedDict.ofList_items d.items d.nodup)

theorem Sound.viewed (sound : Sound x accounts s) {key : String} {e : MemoryEntry φ κ}
    (held : s.memory.get? key = some e) : e.cleared x = e.view x accounts := by
  cases accounts with
  | false => rfl
  | true => exact sound.unpriced rfl key e held

/-- Redis retrieves the entry of the dictionary, as it is compared. -/
theorem Sound.retrieve (sound : Sound x accounts s) (alive : Alive s.redis now) (key : String) :
    s.redis.retrieve x now key = .ok ((s.memory.get? key).map (MemoryEntry.view x accounts)) := by
  cases held : s.memory.get? key with
  | none =>
    simp only [RedisEpisodes.retrieve,alive.hash?,sound.hashes_none held]
    rfl
  | some e =>
    obtain ⟨own,hash,stored,encodes⟩ := sound.stored key e held
    simp only [RedisEpisodes.retrieve,alive.hash?,stored,encodes.metadata,encodes.timestamp,encodes.content,ofList_self,
      Option.map_some,← sound.viewed held,MemoryEntry.cleared,own]

theorem listed_sadd {r : RedisEpisodes} {expires : Int} {key name : String} (other : String) :
    listed (r.sadd now expires key name) other =
      if name = other then insert key (r.members now other) else listed r other := by
  simp only [listed,RedisEpisodes.sadd,OrderedDict.get?_set]
  by_cases same : name = other
  · simp only [same,if_true]
  · simp only [same,if_false]

theorem members_sadd {r : RedisEpisodes} {expires : Int} (later : now < expires) {key name : String} (other : String) :
    (r.sadd now expires key name).members now other =
      if name = other then insert key (r.members now other) else r.members now other := by
  simp only [RedisEpisodes.members,RedisEpisodes.sadd,OrderedDict.get?_set]
  by_cases same : name = other
  · simp only [same,if_true,later]
  · simp only [same,if_false]

/-- Adding a key to several sets. -/
theorem foldl_sadd {expires : Int} (later : now < expires) (key : String) (names : List String) (r : RedisEpisodes) :
    (names.foldl (RedisEpisodes.sadd now expires key) r).hashes = r.hashes ∧ ∀ other,
      (names.foldl (RedisEpisodes.sadd now expires key) r).members now other =
          (if other ∈ names then insert key (r.members now other) else r.members now other) ∧
        listed (names.foldl (RedisEpisodes.sadd now expires key) r) other =
          if other ∈ names then insert key (r.members now other) else listed r other := by
  induction names generalizing r with
  | nil => exact ⟨rfl,fun other => ⟨by simp,by simp⟩⟩
  | cons name names ih =>
    obtain ⟨hashes,sets⟩ := ih (r.sadd now expires key name)
    refine ⟨hashes,fun other => ?_⟩
    obtain ⟨members,listing⟩ := sets other
    rw [List.foldl_cons,members,listing,members_sadd later,listed_sadd]
    by_cases same : name = other
    · subst same
      by_cases again : name ∈ names <;> simp [again]
    · simp [same,Ne.symm same]

theorem foldl_srem (key : String) (names : List String) (r : RedisEpisodes) :
    (names.foldl (RedisEpisodes.srem key) r).hashes = r.hashes ∧ ∀ other,
      listed (names.foldl (RedisEpisodes.srem key) r) other =
        if other ∈ names then (listed r other).erase key else listed r other := by
  have one (r : RedisEpisodes) (name other : String) : listed (r.srem key name) other =
      if name = other then (listed r other).erase key else listed r other := by
    simp only [RedisEpisodes.srem]
    cases held : r.indexes.get? name with
    | none =>
      by_cases same : name = other
      · subst same
        simp [listed,held]
      · simp only [same,if_false]
    | some index =>
      simp only [listed,OrderedDict.get?_set]
      by_cases same : name = other
      · subst same
        simp only [held,if_true]
      · simp only [same,if_false]
  induction names generalizing r with
  | nil => exact ⟨rfl,fun other => by simp⟩
  | cons name names ih =>
    obtain ⟨hashes,sets⟩ := ih (r.srem key name)
    constructor
    · rw [List.foldl_cons,hashes]
      simp only [RedisEpisodes.srem]
      split <;> rfl
    · intro other
      rw [List.foldl_cons,sets other,one]
      by_cases same : name = other
      · subst same
        by_cases again : name ∈ names <;> simp [again]
      · simp [same,Ne.symm same]

end

end BackendPair

end IceOS.EpisodicMemory
