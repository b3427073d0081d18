import IceOS.ApiSecurity
import IceOS.EpisodicMemory

/-! Shared memory pools: keys behind the pool's name in a memory of three tiers, which several pools may
share. -/
namespace IceOS.SharedMemory

open ApiSecurity (startsWith)

inductive MemoryTier
  | working | episodic | semantic
  deriving DecidableEq, Repr

def MemoryTier.text : MemoryTier → String
  | .working => "working"
  | .episodic => "episodic"
  | .semantic => "semantic"

def MemoryTier.all : List MemoryTier := [.working,.episodic,.semantic]

variable {α : Type}

/-- The entries of a tier, in the order in which it lists them. -/
abbrev Tier (α : Type) := WorkingEntries α Value

abbrev Memory (α : Type) := MemoryTier → Tier α

/-- `WorkingMemory.list_keys`: the limit is looked at after a key was taken. -/
def collectKeys (pattern : Option String) (limit : Int) (taken : List String) : List String → List String
  | [] => taken
  | key :: rest =>
    if pattern.any fun p => p ≠ "" && !startsWith key p then collectKeys pattern limit taken rest
    else if limit ≤ (taken ++ [key]).length then taken ++ [key]
    else collectKeys pattern limit (taken ++ [key]) rest

/-- `list_keys` of the other two memories. -/
def sliceKeys (pattern : Option String) (limit : Int) (keys : List String) : List String :=
  EpisodicMemory.sliceTo (keys.filter fun key => pattern.all fun p => p = "" || startsWith key p) limit

/-- `list_keys` of a tier. -/
def Memory.listKeys (m : Memory α) (tier : MemoryTier) (pattern : Option String := none) (limit : Int := 100) :
    List String :=
  match tier with
  | .working => collectKeys pattern limit [] (m tier).keys
  | .episodic | .semantic => sliceKeys pattern limit (m tier).keys

def Memory.delete (m : Memory α) (tier : MemoryTier) (key : String) : Bool × Memory α :=
  (((m tier).get? key).isSome,Function.update m tier ((m tier).erase key))

/-! ### A pool -/

def poolPrefix (pool : String) : String := "pool:" ++ pool ++ ":"

def poolKey (pool key : String) : String := poolPrefix pool ++ key

/-- The name that `store` leaves in the metadata. -/
def owner (entry : MemoryEntry α Value) : Option (Option Value) := entry.metadata.get? "pool_name"

def workingConfig (ttlSeconds : Int) : MemoryConfig := { ttlSeconds := some ttlSeconds,maxEntries := some 10000 }

def poolMetadata (pool storedAt : String) (tier : MemoryTier) (metadata : OrderedDict String (Option Value)) :
    OrderedDict String (Option Value) :=
  metadata.update [("pool_name",some (.str pool)),("stored_at",some (.str storedAt)),("memory_type",some (.str tier.text))]

/-- Only the working memory moves a stored key to the end and makes place. -/
def storeIn (m : Memory α) (ttlSeconds : Int) (pool : String) (now : Int) (storedAt key : String) (content : α)
    (tier : MemoryTier) (metadata : OrderedDict String (Option Value) := .empty) : Memory α :=
  let metadata := poolMetadata pool storedAt tier metadata
  let full := poolKey pool key
  Function.update m tier (match tier with
    | .working => WorkingMemory.store (workingConfig ttlSeconds) now full content metadata (m tier)
    | .episodic | .semantic => (m tier).set full { key := full,content,metadata,timestamp := now })

def dropText (text : String) (n : Nat) : String := String.ofList (text.toList.drop n)

/-- `SharedMemoryPool.list_keys`: the filter comes after the tier's own limit. -/
def listKeys (m : Memory α) (pool : String) (tier : MemoryTier) : List String :=
  ((m.listKeys tier).filter fun key => startsWith key (poolPrefix pool)).map fun key =>
    dropText key (poolPrefix pool).length

def deleteIn (m : Memory α) (pool : String) (tier : MemoryTier) (key : String) : Bool × Memory α :=
  m.delete tier (poolKey pool key)

def clearTier (m : Memory α) (pool : String) (tier : MemoryTier) : Memory α :=
  (listKeys m pool tier).foldl (fun m key => (deleteIn m pool tier key).2) m

/-- The tiers that `clear` goes through. -/
def clearedTiers (tier : Option MemoryTier) : List MemoryTier := tier.elim MemoryTier.all fun t => [t]

def clear (m : Memory α) (pool : String) (tier : Option MemoryTier := none) : Memory α :=
  (clearedTiers tier).foldl (fun m t => clearTier m pool t) m

/-! ### The service -/

/-- The pools in use, with the seconds that their entries live. -/
structure SharedMemoryService (α : Type) where
  pools : OrderedDict String Int := .empty
  memory : Memory α := fun _ => .empty

def getPool (s : SharedMemoryService α) (pool : String) (ttlSeconds : Int := 3600) (autoCreate : Bool := true) :
    Except Exn (SharedMemoryService α) :=
  if pool ∈ s.pools.keys then .ok s
  else if autoCreate then .ok { s with pools := s.pools.set pool ttlSeconds }
  else .error (valueError ("Pool '" ++ pool ++ "' does not exist"))

def deletePool (s : SharedMemoryService α) (pool : String) : Bool × SharedMemoryService α :=
  if pool ∈ s.pools.keys then (true,{ pools := s.pools.erase pool,memory := clear s.memory pool })
  else (false,s)

/-- Whoever got a pool can delete it. -/
theorem getPool_known {s t : SharedMemoryService α} {pool : String} {ttlSeconds : Int} {autoCreate : Bool}
    (got : getPool s pool ttlSeconds autoCreate = .ok t) : pool ∈ t.pools.keys ∧ t.memory = s.memory := by
  simp only [getPool] at got
  split at got
  · next known =>
    cases got
    exact ⟨known,rfl⟩
  · split at got
    · cases got
      exact ⟨(OrderedDict.mem_keys_set _ _ _ _).mpr (.inl rfl),rfl⟩
    · cases got

/-! ### What a pool holds -/

/-- The pool has stored something under the key. -/
def Holds (m : Memory α) (pool : String) (tier : MemoryTier) (key : String) : Prop :=
  ∃ entry, (m tier).get? (poolKey pool key) = some entry ∧ owner entry = some (some (.str pool))

/-- Entries of others stay as they are. -/
def SparesOthers (m after : Memory α) (pool : String) : Prop :=
  ∀ tier full entry, (m tier).get? full = some entry → owner entry ≠ some (some (.str pool)) →
    (after tier).get? full = some entry

/-- The listing shows all keys of the pool and no other, and a clear or the deletion of the pool removes them and
no other. -/
structure Emptiable (s : SharedMemoryService α) (pool : String) : Prop where
  listed : ∀ tier key, key ∈ listKeys s.memory pool tier ↔ Holds s.memory pool tier key
  cleared : ∀ asked, ∀ tier ∈ clearedTiers asked, ∀ key, ¬Holds (clear s.memory pool asked) pool tier key
  spared : ∀ asked, SparesOthers s.memory (clear s.memory pool asked) pool
  deleted : pool ∈ s.pools.keys → (deletePool s pool).1 = true ∧ pool ∉ (deletePool s pool).2.pools.keys ∧
    (∀ tier key, ¬Holds (deletePool s pool).2.memory pool tier key) ∧
      SparesOthers s.memory (deletePool s pool).2.memory pool

/-- In each tier the pool's keys are among the first hundred, and of these the ones that begin with the pool's prefix
are its own. -/
def FitsOnePage (m : Memory α) (pool : String) : Prop :=
  ∀ tier, (∀ key, Holds m pool tier key → poolKey pool key ∈ (m tier).keys.take 100) ∧
    ∀ key, poolKey pool key ∈ (m tier).keys.take 100 → Holds m pool tier key

/-! ### What the listing shows -/

theorem startsWith_iff (text start : String) : startsWith text start = true ↔ ∃ rest, text = start ++ rest := by
  rw [startsWith,List.isPrefixOf_iff_prefix]
  constructor
  · rintro ⟨rest,parts⟩
    refine ⟨String.ofList rest,String.toList_inj.mp ?_⟩
    rw [String.toList_append,String.toList_ofList,parts]
  · rintro ⟨rest,rfl⟩
    rw [String.toList_append]
    exact List.prefix_append _ _

theorem dropText_append (start rest : String) : dropText (start ++ rest) start.length = rest := by
  rw [dropText,String.toList_append,← String.length_toList,List.drop_left,String.ofList_toList]

theorem collectKeys_none (limit : Nat) (keys taken : List String) (room : taken.length < limit) :
    collectKeys none limit taken keys = taken ++ keys.take (limit - taken.length) := by
  induction keys generalizing taken with
  | nil => rw [collectKeys,List.take_nil,List.append_nil]
  | cons key rest ih =>
    have left : limit - taken.length = (limit - (taken.length + 1)) + 1 := by omega
    rw [collectKeys,Option.any_none,if_neg Bool.false_ne_true,List.length_append,List.length_singleton,left,
      List.take_succ_cons]
    split
    · next full =>
      have none_left : limit - (taken.length + 1) = 0 := by omega
      rw [none_left,List.take_zero]
    · rw [ih (taken ++ [key]) (by rw [List.length_append,List.length_singleton]; omega),List.length_append,
        List.length_singleton,List.append_assoc,List.singleton_append]

/-- Without a limit a tier lists its first hundred keys. -/
theorem Memory.listKeys_default (m : Memory α) (tier : MemoryTier) : m.listKeys tier = (m tier).keys.take 100 := by
  have sliced : sliceKeys none 100 (m tier).keys = (m tier).keys.take 100 := by
    simp [sliceKeys,EpisodicMemory.sliceTo]
  cases tier with
  | working => exact collectKeys_none 100 (m .working).keys [] (by decide)
  | episodic => exact sliced
  | semantic => exact sliced

theorem mem_listKeys (m : Memory α) (pool : String) (tier : MemoryTier) (key : String) :
    key ∈ listKeys m pool tier ↔ poolKey pool key ∈ (m tier).keys.take 100 := by
  simp only [listKeys,Memory.listKeys_default,List.mem_map,List.mem_filter]
  constructor
  · rintro ⟨full,⟨page,starts⟩,rfl⟩
    obtain ⟨rest,rfl⟩ := (startsWith_iff _ _).mp starts
    rwa [dropText_append]
  · intro page
    exact ⟨poolKey pool key,⟨page,(startsWith_iff _ _).mpr ⟨key,rfl⟩⟩,dropText_append _ _⟩

/-! ### What a clear removes -/

theorem foldl_deleteIn (m : Memory α) (pool : String) (tier : MemoryTier) (keys : List String) :
    keys.foldl (fun m key => (deleteIn m pool tier key).2) m =
      Function.update m tier ((keys.map (poolKey pool)).foldl OrderedDict.erase (m tier)) := by
  induction keys generalizing m with
  | nil => exact (Function.update_eq_self tier m).symm
  | cons key rest ih =>
    rw [List.foldl_cons,ih,List.map_cons,List.foldl_cons]
    simp [deleteIn,Memory.delete]

/-- A clear of a tier removes what the listing shows. -/
theorem clearTier_get? (m : Memory α) (pool : String) (tier t : MemoryTier) (full : String) :
    (clearTier m pool tier t).get? full =
      if t = tier ∧ full ∈ (listKeys m pool tier).map (poolKey pool) then none else (m t).get? full := by
  rw [clearTier,foldl_deleteIn]
  by_cases same : t = tier
  · subst same
    rw [Function.update_self,OrderedDict.get?_foldl_erase]
    simp
  · rw [Function.update_of_ne same,if_neg fun both => same both.1]

theorem clearTier_other (m : Memory α) (pool : String) {tier t : MemoryTier} (other : t ≠ tier) :
    clearTier m pool tier t = m t := by
  rw [clearTier,foldl_deleteIn,Function.update_of_ne other]

/-- A clear of several tiers removes what the listings showed before it. -/
theorem foldl_clearTier (m : Memory α) (pool : String) {tiers : List MemoryTier} (nodup : tiers.Nodup) (t : MemoryTier)
    (full : String) : (tiers.foldl (fun m t => clearTier m pool t) m t).get? full =
      if t ∈ tiers ∧ full ∈ (listKeys m pool t).map (poolKey pool) then none else (m t).get? full := by
  induction tiers generalizing m with
  | nil => simp
  | cons tier rest ih =>
    obtain ⟨fresh,nodup⟩ := List.nodup_cons.mp nodup
    rw [List.foldl_cons,ih (clearTier m pool tier) nodup]
    by_cases same : t = tier
    · subst same
      rw [if_neg fun both => fresh both.1,clearTier_get?]
      simp
    · have listing : listKeys (clearTier m pool tier) pool t = listKeys m pool t := by
        simp only [listKeys,Memory.listKeys_default,clearTier_other m pool same]
      rw [listing,clearTier_other m pool same]
      simp [same]

theorem clear_get? (m : Memory α) (pool : String) (asked : Option MemoryTier) (t : MemoryTier) (full : String) :
    (clear m pool asked t).get? full =
      if t ∈ clearedTiers asked ∧ full ∈ (listKeys m pool t).map (poolKey pool) then none else (m t).get? full := by
  have nodup : (clearedTiers asked).Nodup := by
    cases asked with
    | none => decide
    | some tier => exact List.nodup_singleton tier
  exact foldl_clearTier m pool nodup t full

theorem FitsOnePage.listed {m : Memory α} {pool : String} (fits : FitsOnePage m pool) (tier : MemoryTier) (key : String) :
    key ∈ listKeys m pool tier ↔ Holds m pool tier key := by
  rw [mem_listKeys]
  exact ⟨(fits tier).2 key,(fits tier).1 key⟩

theorem FitsOnePage.cleared {m : Memory α} {pool : String} (fits : FitsOnePage m pool) (asked : Option MemoryTier) :
    ∀ tier ∈ clearedTiers asked, ∀ key, ¬Holds (clear m pool asked) pool tier key := by
  rintro tier member key ⟨entry,found,own⟩
  rw [clear_get?] at found
  split at found
  · cases found
  · next kept =>
    have shown := (fits.listed tier key).mpr ⟨entry,found,own⟩
    exact kept ⟨member,List.mem_map_of_mem shown⟩

theorem FitsOnePage.spared {m : Memory α} {pool : String} (fits : FitsOnePage m pool) (asked : Option MemoryTier) :
    SparesOthers m (clear m pool asked) pool := by
  intro tier full entry found foreign
  rw [clear_get?]
  split
  · next gone =>
    obtain ⟨key,shown,rfl⟩ := List.mem_map.mp gone.2
    obtain ⟨held,same,own⟩ := (fits.listed tier key).mp shown
    rw [found] at same
    cases same
    exact absurd own foreign
  · exact found

theorem fitsOnePage_of_listed {m : Memory α} {pool : String}
    (listed : ∀ tier key, key ∈ listKeys m pool tier ↔ Holds m pool tier key) : FitsOnePage m pool := by
  intro tier
  constructor
  · intro key held
    exact (mem_listKeys m pool tier key).mp ((listed tier key).mpr held)
  · intro key page
    exact (listed tier key).mp ((mem_listKeys m pool tier key).mpr page)

/-- A pool can be listed and emptied exactly when in each tier its keys are among the first hundred and its prefix
belongs to it there. -/
theorem emptiable_iff (s : SharedMemoryService α) (pool : String) : Emptiable s pool ↔ FitsOnePage s.memory pool := by
  refine ⟨fun e => fitsOnePage_of_listed e.listed,fun fits => ?_⟩
  refine { listed := fits.listed,cleared := fits.cleared,spared := fits.spared,deleted := fun known => ?_ }
  simp only [deletePool,if_pos known]
  refine ⟨trivial,?_,fun tier => ?_,fits.spared none⟩
  · rw [OrderedDict.mem_keys,OrderedDict.get?_erase,if_pos rfl]
    exact Bool.false_ne_true
  · exact fits.cleared none tier (by cases tier <;> decide)

/-! ### A pool that is too large -/

theorem owner_stored (pool storedAt : String) (tier : MemoryTier) (metadata : OrderedDict String (Option Value)) :
    (poolMetadata pool storedAt tier metadata).get? "pool_name" = some (some (.str pool)) := by
  simp [poolMetadata,OrderedDict.update]

/-- What is stored in a tier without eviction is held from then on. -/
theorem holds_storeIn {m : Memory α} {ttlSeconds : Int} {pool : String} {now : Int} {storedAt key : String} {content : α}
    {tier : MemoryTier} (keeps : tier ≠ .working) {metadata : OrderedDict String (Option Value)} {j : String}
    (held : j = key ∨ Holds m pool tier j) :
    Holds (storeIn m ttlSeconds pool now storedAt key content tier metadata) pool tier j := by
  have stored : storeIn m ttlSeconds pool now storedAt key content tier metadata tier =
      (m tier).set (poolKey pool key) { key := poolKey pool key,content
                                        metadata := poolMetadata pool storedAt tier metadata,timestamp := now } := by
    simp only [storeIn,Function.update_self]
    cases tier with
    | working => exact absurd rfl keeps
    | episodic => rfl
    | semantic => rfl
  simp only [Holds,stored,OrderedDict.get?_set]
  split
  · exact ⟨_,rfl,owner_stored pool storedAt tier metadata⟩
  · next other =>
    rcases held with rfl | ⟨entry,found,own⟩
    · exact absurd rfl other
    · exact ⟨entry,found,own⟩

def storeAll (m : Memory Nat) (pool : String) (keys : List String) : Memory Nat :=
  keys.foldl (fun m key => storeIn m 3600 pool 0 "1970-01-01T00:00:00" key 0 .semantic) m

theorem holds_storeAll (m : Memory Nat) (pool : String) (keys : List String) {key : String}
    (held : key ∈ keys ∨ Holds m pool .semantic key) : Holds (storeAll m pool keys) pool .semantic key := by
  induction keys generalizing m with
  | nil => exact held.resolve_left (List.not_mem_nil)
  | cons first rest ih =>
    refine ih _ ?_
    rcases held with member | before
    · rcases List.mem_cons.mp member with same | later
      · exact .inr (holds_storeIn (by decide) (.inl same))
      · exact .inl later
    · exact .inr (holds_storeIn (by decide) (.inr before))

def manyKeys : List String := (List.range 101).map fun n => String.ofList (List.replicate n 'k')

theorem manyKeys_nodup : manyKeys.Nodup := by
  refine List.Nodup.map (fun i j same => ?_) List.nodup_range
  have lengths := congrArg (·.toList.length) same
  simpa using lengths

/-- A hundred and one facts of one pool: the listing shows a hundred. -/
theorem large_pool_not_emptied : ¬∀ (s : SharedMemoryService Nat) (pool : String), Emptiable s pool := by
  intro emptiable
  have e := emptiable { pools := OrderedDict.empty.set "p" 3600,memory := storeAll (fun _ => .empty) "p" manyKeys } "p"
  have shown : manyKeys ⊆ listKeys (storeAll (fun _ => .empty) "p" manyKeys) "p" .semantic := fun key member =>
    (e.listed .semantic key).mpr (holds_storeAll _ "p" manyKeys (.inl member))
  have short : (listKeys (storeAll (fun _ => .empty) "p" manyKeys) "p" .semantic).length ≤ 100 := by
    rw [listKeys,List.length_map,Memory.listKeys_default]
    exact (List.length_filter_le _ _).trans (List.length_take_le 100 _)
  have long := (List.subperm_of_subset manyKeys_nodup shown).length_le
  have count : manyKeys.length = 101 := by rw [manyKeys,List.length_map,List.length_range]
  omega

end IceOS.SharedMemory
