import IceOS.EpisodeAgreement
import Mathlib.Data.Finset.Sort
import Mathlib.Data.String.Basic

/-! Runs of requests to the two backends of the episodic memory. -/
namespace IceOS.EpisodicMemory.BackendPair

open ActionRuns PythonDatetime PythonJson

variable {φ κ : Type} {x : EpisodicRules φ κ} {accounts : Bool} {s : BackendPair φ κ} {m : Moment}

/-! ### What requests do to the stores -/

theorem dumpsOrRaise_ok {v : Json φ} (fits : representable v = true) :
    dumpsOrRaise x v = .ok (dumps x.floats.toFloatTexts v) := if_pos fits

theorem readContent_contentText {content : Json φ}
    (strange : ∀ text, content = .str text → loads x.floats.toFloatTexts text = none)
    (fits : representable content = true) :
    ∃ text, RedisEpisodes.contentText x content = .ok text ∧ RedisEpisodes.readContent x text = content := by
  cases content with
  | str text =>
    refine ⟨text,rfl,?_⟩
    rw [RedisEpisodes.readContent,strange text rfl,Option.getD_none]
  | _ =>
    refine ⟨_,dumpsOrRaise_ok fits,?_⟩
    rw [RedisEpisodes.readContent,loads_dumps _ fits,Option.getD_some]

/-- Redis keeps what it is given, and adds the key to the sets of its attributes. -/
theorem redis_store (key : String) {content : Json φ} {metadata : Metadata φ} {names : List String}
    (strange : ∀ text, content = .str text → loads x.floats.toFloatTexts text = none)
    (fits : representable content = true) (fits' : representable (.dict (episodeMetadata metadata).items) = true)
    (indexed : indexNames x (episodeMetadata metadata) m.timestamp = .ok names) (r : RedisEpisodes) :
    ∃ hash, Encodes x hash (newEntry x m.timestamp key content metadata) ∧ r.store x m key content metadata =
      .ok (names.foldl (RedisEpisodes.sadd m.now (m.now + ttl x.cfg) key)
        { r with hashes := r.hashes.set (fullKey key) hash }) := by
  obtain ⟨text,written,read⟩ := readContent_contentText strange fits
  refine ⟨⟨text,dumps x.floats.toFloatTexts (.dict (episodeMetadata metadata).items),m.timestamp.isoformat,
    m.now + ttl x.cfg⟩,⟨read,loads_dumps _ fits',DateTime.fromisoformat_isoformat _⟩,?_⟩
  simp only [RedisEpisodes.store,newEntry,written,dumpsOrRaise_ok fits',indexed,bind,Except.bind,pure,Except.pure]

theorem Sound.redis_delete (sound : Sound x accounts s) (alive : Alive s.redis m.now) {key : String}
    {e : MemoryEntry φ κ} (held : s.memory.get? key = some e) {names : List String}
    (indexed : indexNames x e.metadata e.timestamp = .ok names) :
    s.redis.delete x m.now key =
      .ok (true,{ names.foldl (RedisEpisodes.srem key) s.redis with hashes := s.redis.hashes.erase (fullKey key) }) := by
  have kept := (foldl_srem key names s.redis).1
  simp only [RedisEpisodes.delete,sound.retrieve alive,held,Option.map_some,MemoryEntry.view_metadata,
    MemoryEntry.view_timestamp,indexed,kept,bind,Except.bind,pure,Except.pure]

theorem Sound.redis_delete_absent (sound : Sound x accounts s) (alive : Alive s.redis m.now) {key : String}
    (absent : s.memory.get? key = none) : s.redis.delete x m.now key = .ok (false,s.redis) := by
  simp only [RedisEpisodes.delete,sound.retrieve alive,absent,Option.map_none,bind,Except.bind,pure,Except.pure]

/-! ### The stores stay in step -/

theorem sound_empty : Sound x accounts {} where
  stored := by intro key e held; cases held
  kept := by intro full member; cases member
  named := by intro key e held; cases held
  indexed := by
    intro key name
    constructor
    · intro member; cases member
    · rintro ⟨e,names,held,_⟩; cases held
  latest := fun _ => rfl
  unpriced := by intro _ key e held; cases held

theorem cleared_newEntry {timestamp : DateTime} {key : String} {content : Json φ} {metadata : Metadata φ}
    (free : tokenUsage content = 0) :
    (newEntry x timestamp key content metadata).cleared x = newEntry x timestamp key content metadata := by
  simp only [MemoryEntry.cleared,newEntry,free,x.cost_zero]

theorem Sound.store (sound : Sound x accounts s) (alive : Alive s.redis m.now) {key : String} {content : Json φ}
    {metadata : Metadata φ} {names : List String} {hash : EpisodeHash}
    (encodes : Encodes x hash (newEntry x m.timestamp key content metadata)) (later : 0 < ttl x.cfg)
    (indexed : indexNames x (episodeMetadata metadata) m.timestamp = .ok names)
    (grows : ∀ e ∈ s.memory.get? key, ∀ old, indexNames x e.metadata e.timestamp = .ok old → old ⊆ names)
    (free : accounts = true → tokenUsage content = 0) :
    Sound x accounts {
      redis := names.foldl (RedisEpisodes.sadd m.now (m.now + ttl x.cfg) key)
        { s.redis with hashes := s.redis.hashes.set (fullKey key) hash }
      memory := s.memory.set key (newEntry x m.timestamp key content metadata)
      latest := s.latest.set key (content,episodeMetadata metadata) } := by
  have expires : m.now < m.now + ttl x.cfg := by omega
  obtain ⟨hashes,sets⟩ := foldl_sadd expires key names
    { s.redis with hashes := s.redis.hashes.set (fullKey key) hash }
  have listing (name other : String) : other ∈ listed (names.foldl (RedisEpisodes.sadd m.now (m.now + ttl x.cfg) key)
      { s.redis with hashes := s.redis.hashes.set (fullKey key) hash }) name ↔
      name ∈ names ∧ other = key ∨ other ∈ listed s.redis name := by
    have before : RedisEpisodes.members { s.redis with hashes := s.redis.hashes.set (fullKey key) hash } m.now name =
      listed s.redis name := alive.members name
    rw [(sets name).2,before]
    by_cases added : name ∈ names
    · simp [added]
    · simp [added]
      rfl
  constructor
  · intro other e held
    rw [OrderedDict.get?_set] at held
    simp only [hashes,OrderedDict.get?_set,fullKey_inj]
    split at held
    · next same =>
      cases held
      subst same
      exact ⟨rfl,hash,by simp,encodes⟩
    · next apart =>
      rw [if_neg apart]
      exact sound.stored other e held
  · intro full member
    simp only [hashes,OrderedDict.mem_keys_set] at member
    rcases member with rfl | member
    · exact ⟨key,rfl,by simp⟩
    · obtain ⟨other,rfl,present⟩ := sound.kept full member
      refine ⟨other,rfl,?_⟩
      rw [OrderedDict.get?_set]
      split <;> simp [present]
  · exact OrderedDict.forall_set ⟨names,indexed⟩ sound.named
  · intro other name
    rw [listing,OrderedDict.get?_set,sound.indexed]
    by_cases same : key = other
    · subst same
      rw [if_pos rfl]
      constructor
      · rintro (⟨added,_⟩ | ⟨e,old,held,oldNames,member⟩)
        · exact ⟨_,names,rfl,indexed,added⟩
        · exact ⟨_,names,rfl,indexed,grows e held old oldNames member⟩
      · rintro ⟨e,others,held,otherNames,member⟩
        cases held
        cases indexed.symm.trans otherNames
        exact .inl ⟨member,rfl⟩
    · rw [if_neg same]
      exact ⟨fun either => either.resolve_left fun new => same new.2.symm,.inr⟩
  · intro other
    simp only [OrderedDict.get?_set]
    split
    · rfl
    · exact sound.latest other
  · exact fun counted => OrderedDict.forall_set (cleared_newEntry (free counted)) (sound.unpriced counted)

theorem Sound.delete (sound : Sound x accounts s) {key : String} {e : MemoryEntry φ κ}
    (held : s.memory.get? key = some e) {names : List String} (indexed : indexNames x e.metadata e.timestamp = .ok names) :
    Sound x accounts {
      redis := { names.foldl (RedisEpisodes.srem key) s.redis with hashes := s.redis.hashes.erase (fullKey key) }
      memory := s.memory.erase key
      latest := s.latest.erase key } where
  stored := by
    intro other e' held'
    simp only [OrderedDict.get?_erase,fullKey_inj] at held' ⊢
    split at held'
    · cases held'
    · next apart =>
      rw [if_neg apart]
      exact sound.stored other e' held'
  kept := by
    intro full member
    rw [OrderedDict.mem_keys,OrderedDict.get?_erase] at member
    split at member
    · cases member
    · next apart =>
      obtain ⟨other,rfl,present⟩ := sound.kept full ((OrderedDict.mem_keys _ _).mpr member)
      refine ⟨other,rfl,?_⟩
      rw [OrderedDict.get?_erase,if_neg (fun same => apart (congrArg fullKey same))]
      exact present
  named := OrderedDict.forall_erase sound.named key
  indexed := by
    intro other name
    have listing : listed { names.foldl (RedisEpisodes.srem key) s.redis with
        hashes := s.redis.hashes.erase (fullKey key) } name =
      if name ∈ names then (listed s.redis name).erase key else listed s.redis name := (foldl_srem key names s.redis).2 name
    rw [listing,OrderedDict.get?_erase]
    by_cases same : key = other
    · subst same
      rw [if_pos rfl]
      constructor
      · intro member
        split at member
        · exact absurd rfl (Finset.ne_of_mem_erase member)
        · next absent =>
          obtain ⟨e',others,held',otherNames,inside⟩ := (sound.indexed key name).mp member
          cases held.symm.trans held'
          cases indexed.symm.trans otherNames
          exact absurd inside absent
      · rintro ⟨_,_,none,_⟩
        cases none
    · rw [if_neg same,← sound.indexed]
      split
      · exact ⟨Finset.mem_of_mem_erase,fun member => Finset.mem_erase.mpr ⟨Ne.symm same,member⟩⟩
      · exact Iff.rfl
  latest := by
    intro other
    simp only [OrderedDict.get?_erase]
    split
    · rfl
    · exact sound.latest other
  unpriced counted := OrderedDict.forall_erase (sound.unpriced counted) key

theorem Sound.step {a : Moment × EpisodicRequest φ} {t : BackendPair φ κ} (sound : Sound x accounts s)
    (careful : Careful x accounts s a) (stepped : step x s a = some t) : Sound x accounts t := by
  obtain ⟨m,request⟩ := a
  obtain ⟨alive,fine⟩ := careful
  cases stepped
  cases request with
  | store key content metadata =>
    obtain ⟨names,indexed,grows⟩ := fine.indexed
    obtain ⟨hash,encodes,stored⟩ := redis_store key fine.strange fine.written fine.described indexed s.redis
    simp only [RedisEpisodes.handle,MemoryStore.handle,stored]
    exact sound.store alive encodes fine.lives indexed grows fine.free
  | delete key =>
    cases held : s.memory.get? key with
    | none =>
      have memory : s.memory.erase key = s.memory := OrderedDict.erase_eq_self ((OrderedDict.get?_eq_none _ _).mp held)
      have latest : s.latest.erase key = s.latest := by
        refine OrderedDict.erase_eq_self ((OrderedDict.get?_eq_none _ _).mp ?_)
        rw [sound.latest,held,Option.map_none]
      simp only [RedisEpisodes.handle,MemoryStore.handle,sound.redis_delete_absent alive held,memory,latest]
      exact sound
    | some e =>
      obtain ⟨names,indexed⟩ := sound.named key e held
      simp only [RedisEpisodes.handle,MemoryStore.handle,sound.redis_delete alive held indexed]
      exact sound.delete held indexed
  | retrieve key => exact sound
  | search query limit filters => exact sound
  | listKeys pattern limit => exact sound

/-! ### Requests are answered alike -/

theorem queryMatches_empty (content : Json φ) : queryMatches x "" content = true := by
  rw [queryMatches,x.lower_empty]
  exact (PythonText.contains_iff _ _).mpr List.nil_infix

theorem mem_matching {query key : String} : key ∈ s.matching x query ↔
    ∃ e, s.memory.get? key = some e ∧ queryMatches x query e.content = true := by
  simp only [matching,List.mem_filter,OrderedDict.mem_keys,Option.any_eq_true,decide_eq_true_eq]
  constructor
  · rintro ⟨_,e,held,fits⟩
    refine ⟨e,held,fits.elim (fun empty => ?_) id⟩
    rw [empty]
    exact queryMatches_empty e.content
  · rintro ⟨e,held,fits⟩
    exact ⟨by rw [held]; rfl,e,held,.inr fits⟩

theorem Sound.mem_named (sound : Sound x accounts s) {query key : String} {wanted : List String} :
    key ∈ s.named x query wanted ↔ key ∈ s.matching x query ∧ ∀ name ∈ wanted, key ∈ listed s.redis name := by
  rw [BackendPair.named,List.mem_filter]
  refine and_congr_right fun member => ?_
  obtain ⟨e,held,_⟩ := mem_matching.mp member
  obtain ⟨names,indexed⟩ := sound.named key e held
  simp only [held,Option.any_some,indexed,decide_eq_true_eq,sound.indexed]
  refine forall₂_congr fun name _ => ⟨fun inside => ⟨e,names,rfl,indexed,inside⟩,?_⟩
  rintro ⟨e',others,same,otherNames,inside⟩
  cases same
  cases indexed.symm.trans otherNames
  exact inside

theorem named_subset {query : String} {wanted : List String} : s.named x query wanted ⊆ s.matching x query :=
  fun _ member => List.mem_of_mem_filter member

theorem matching_nodup {query : String} : (s.matching x query).Nodup := s.memory.keys_nodup.filter _

theorem named_nodup {query : String} {wanted : List String} : (s.named x query wanted).Nodup := matching_nodup.filter _

theorem Sound.matchesQuery (sound : Sound x accounts s) (alive : Alive s.redis m.now) (query key : String) :
    s.redis.matchesQuery x m.now query key = .ok (decide (key ∈ s.matching x query)) := by
  rw [RedisEpisodes.matchesQuery,sound.retrieve alive]
  simp only [mem_matching]
  cases s.memory.get? key with
  | none => rfl
  | some e => simp [Except.map]

theorem plain_fullKey {pattern : String} (simple : plain pattern) : plain (fullKey pattern) := by
  have start : plain "episode:" := by decide
  intro c member
  simp only [fullKey,String.toList_append,List.mem_append] at member
  exact member.elim (start c) (simple c)

theorem prefix_fullKey {pattern key : String} :
    (fullKey pattern).toList <+: (fullKey key).toList ↔ pattern.toList <+: key.toList := by
  simp only [fullKey,String.toList_append,List.prefix_append_right_inj]

theorem Sound.redis_stored (sound : Sound x accounts s) (alive : Alive s.redis m.now) (key : String) :
    (s.redis.hash? m.now (fullKey key)).isSome = (s.memory.get? key).isSome := by
  rw [alive.hash?]
  cases held : s.memory.get? key with
  | none => rw [sound.hashes_none held]; rfl
  | some e =>
    obtain ⟨_,hash,stored,_⟩ := sound.stored key e held
    rw [stored]
    rfl

/-- The keys that Redis lists for a plain pattern. -/
theorem Sound.redis_keys (sound : Sound x accounts s) (alive : Alive s.redis m.now) {pattern : String}
    (simple : plain pattern) : (s.redis.keys x m (fullKey pattern ++ "*")).Perm
      ((s.memory.keys.filter fun key => pattern.toList.isPrefixOf key.toList).map fullKey) := by
  refine (List.perm_ext_iff_of_nodup (m.keysOrder.nodup _) ?_).mpr fun full => ?_
  · exact (s.memory.keys_nodup.filter _).map fun _ _ => fullKey_inj.mp
  simp only [m.keysOrder.mem,List.mem_toFinset,List.mem_map,Bool.and_eq_true,List.mem_filter,
    List.isPrefixOf_iff_prefix]
  constructor
  · rintro ⟨member,_,fits⟩
    obtain ⟨key,rfl,present⟩ := sound.kept full member
    have start := (x.glob_plain _ _ (plain_fullKey simple)).mp fits
    exact ⟨key,⟨(OrderedDict.mem_keys _ _).mpr present,prefix_fullKey.mp start⟩,rfl⟩
  · rintro ⟨key,⟨member,start⟩,rfl⟩
    have present := (OrderedDict.mem_keys _ _).mp member
    have stored := (sound.redis_stored alive key).trans present
    refine ⟨?_,stored,(x.glob_plain _ _ (plain_fullKey simple)).mpr (prefix_fullKey.mpr start)⟩
    rw [alive.hash?] at stored
    exact (OrderedDict.mem_keys _ _).mpr stored

theorem map_strip {keys : List String} (clear : ∀ key ∈ keys, PythonText.contains "episode:" key = false) :
    (keys.map fullKey).map strip = keys := by
  rw [List.map_map]
  exact (List.map_congr_left fun key member => strip_fullKey (clear key member)).trans (List.map_id _)

theorem mem_keys_of_matching {query key : String} (member : key ∈ s.matching x query) : key ∈ s.memory.keys :=
  List.mem_of_mem_filter member

/-- A search of Redis without filters. -/
theorem Sound.scan_found (sound : Sound x accounts s) (alive : Alive s.redis m.now) {query : String}
    {filters : Metadata φ} (unfiltered : filters.items = [])
    (clear : ∀ key ∈ s.memory.keys, PythonText.contains "episode:" key = false) (few : s.memory.keys.length ≤ 100) :
    s.redis.matchingKeys x m query filters = .ok (s.matching x query).toFinset := by
  have scanned : (s.redis.keys x m "episode:*").Perm (s.memory.keys.map fullKey) := by
    have listed := sound.redis_keys (m := m) alive (show plain "" from fun c member => by cases member)
    have all : (s.memory.keys.filter fun key => "".toList.isPrefixOf key.toList) = s.memory.keys :=
      List.filter_eq_self.mpr fun key _ => rfl
    rwa [all] at listed
  have short : (s.redis.keys x m "episode:*").length ≤ 100 := by
    rw [scanned.length_eq,List.length_map]
    exact few
  have stripped := scanned.map strip
  rw [map_strip clear] at stripped
  rw [RedisEpisodes.matchingKeys,if_pos (by rw [unfiltered]; rfl),List.take_of_length_le short,
    collect_ok fun key _ => sound.matchesQuery alive query key]
  refine congrArg Except.ok (Finset.ext fun key => ?_)
  simp only [List.mem_toFinset,List.mem_filter,decide_eq_true_eq,stripped.mem_iff]
  exact and_iff_right_of_imp mem_keys_of_matching

theorem Alive.mem_intersection (alive : Alive s.redis m.now) {wanted : List String} (seeks : wanted ≠ []) {key : String} :
    key ∈ s.redis.intersection m.now wanted ↔ ∀ name ∈ wanted, key ∈ listed s.redis name := by
  cases wanted with
  | nil => exact absurd rfl seeks
  | cons name names =>
    simp only [RedisEpisodes.intersection,Finset.mem_filter,alive.members,List.forall_mem_cons]

/-- A search of Redis with filters. -/
theorem Sound.filtered_found (sound : Sound x accounts s) (alive : Alive s.redis m.now) {query : String}
    {filters : Metadata φ} (filtered : filters.items ≠ []) {wanted : List String}
    (sought : wantedIndexes x filters = .ok wanted) (idle : wanted = [] → s.matching x query = []) :
    s.redis.matchingKeys x m query filters = .ok (s.named x query wanted).toFinset := by
  have among (key : String) : key ∈ s.redis.intersection m.now wanted ∧ key ∈ s.matching x query ↔
      key ∈ s.named x query wanted := by
    by_cases none : wanted = []
    · simp only [sound.mem_named,idle none,List.not_mem_nil,and_false,false_and]
    · rw [alive.mem_intersection none,sound.mem_named,and_comm]
  have names : filters.items.isEmpty = false := List.isEmpty_eq_false_iff.mpr filtered
  simp only [RedisEpisodes.matchingKeys,names,sought,bind,Except.bind,pure,Except.pure,Bool.false_eq_true,if_false]
  split
  · next empty =>
    refine congrArg Except.ok (Finset.ext fun key => ?_)
    rw [List.mem_toFinset,← among]
    refine (and_iff_left_of_imp fun member => ?_).symm
    cases wanted with
    | nil => cases Finset.notMem_empty key member
    | cons name names =>
      obtain ⟨e,_,held,_⟩ := (sound.indexed key name).mp
        ((alive.mem_intersection (List.cons_ne_nil name names)).mp member name List.mem_cons_self)
      rw [empty]
      exact mem_matching.mpr ⟨e,held,queryMatches_empty e.content⟩
  · rw [collect_ok fun key _ => sound.matchesQuery alive query key]
    refine congrArg Except.ok (Finset.ext fun key => ?_)
    simp only [List.mem_toFinset,List.mem_filter,decide_eq_true_eq,m.redisOrder.mem,among]

/-- A search of the dictionary. -/
theorem memory_found {query : String} {filters : Metadata φ} {found : List String} (among : found ⊆ s.matching x query)
    (decides : ∀ key ∈ s.matching x query, ∀ e ∈ s.memory.get? key,
      passes x filters e.metadata = .ok (decide (key ∈ found))) :
    MemoryStore.matchingKeys x s.memory query filters = .ok found.toFinset := by
  have tests (key : String) : MemoryStore.found x s.memory query filters key = .ok (decide (key ∈ found)) := by
    have outside : key ∉ s.matching x query → key ∉ found := fun absent member => absent (among member)
    rw [MemoryStore.found]
    cases held : s.memory.get? key with
    | none =>
      rw [decide_eq_false (outside fun member => ?_)]
      obtain ⟨e,stored,_⟩ := mem_matching.mp member
      cases held.symm.trans stored
    | some e =>
      dsimp only
      split
      · next apart =>
        rw [decide_eq_false (outside fun member => ?_)]
        obtain ⟨e',stored,fits⟩ := mem_matching.mp member
        cases held.symm.trans stored
        rw [apart.2] at fits
        cases fits
      · next fits =>
        refine decides key (mem_matching.mpr ⟨e,held,?_⟩) e held
        by_cases empty : query = ""
        · rw [empty]
          exact queryMatches_empty e.content
        · simpa [empty] using fits
  rw [MemoryStore.matchingKeys,collect_ok fun key _ => tests key]
  refine congrArg Except.ok (Finset.ext fun key => ?_)
  simp only [List.mem_toFinset,List.mem_filter,decide_eq_true_eq]
  exact and_iff_right_of_imp fun member => mem_keys_of_matching (among member)

/-- Searches that found the same keys. -/
theorem Sound.search_agrees (sound : Sound x accounts s) (alive : Alive s.redis m.now) {query : String} {limit : Int}
    {filters : Metadata φ} {found : List String} (among : found ⊆ s.matching x query) (once : found.Nodup)
    (redis : s.redis.matchingKeys x m query filters = .ok found.toFinset)
    (memory : MemoryStore.matchingKeys x s.memory query filters = .ok found.toFinset) (fits : Fits found.length limit) :
    Agrees x accounts ((s.redis.search x m query limit filters).map .entries)
      ((MemoryStore.search x m s.memory query limit filters).map .entries) := by
  have stored : ∀ key ∈ found.toFinset, (s.memory.get? key).isSome = true := by
    intro key member
    exact (OrderedDict.mem_keys _ _).mp (mem_keys_of_matching (among (List.mem_toFinset.mp member)))
  rw [← List.toFinset_card_of_nodup once] at fits
  obtain ⟨r,e,left,right,same,sorted,sorted'⟩ := answers_agree (sound.retrieve alive) (fun key => rfl) stored fits
    m.redisOrder m.memoryOrder
  simp only [RedisEpisodes.search,MemoryStore.search,redis,memory,left,right,bind,Except.bind,Except.map]
  exact ⟨same,sorted,sorted'⟩

theorem Sound.list_agrees (sound : Sound x accounts s) (alive : Alive s.redis m.now) {pattern : String}
    (simple : plain pattern) {limit : Int}
    (clear : ∀ key ∈ s.memory.keys, pattern.toList <+: key.toList → PythonText.contains "episode:" key = false)
    (fits : Fits (s.memory.keys.filter fun key => pattern.toList.isPrefixOf key.toList).length limit) :
    (s.redis.listKeys x m pattern limit).Perm (MemoryStore.listKeys s.memory pattern limit) := by
  have listing := sound.redis_keys alive simple
  have length := listing.length_eq
  rw [List.length_map] at length
  rw [RedisEpisodes.listKeys,MemoryStore.listKeys,sliceTo_fits (by rw [length]; exact fits),sliceTo_fits fits,length]
  split
  · refine (listing.map strip).trans ?_
    rw [map_strip fun key member => ?_]
    obtain ⟨stored,start⟩ := List.mem_filter.mp member
    exact clear key stored (List.isPrefixOf_iff_prefix.mp start)
  · exact .refl _

/-- The backends agree on a careful request. -/
theorem Sound.agrees {a : Moment × EpisodicRequest φ} (sound : Sound x accounts s) (careful : Careful x accounts s a) :
    Agrees x accounts (s.redis.handle x a.1 a.2).1 (MemoryStore.handle x a.1 s.memory a.2).1 := by
  obtain ⟨m,request⟩ := a
  obtain ⟨alive,fine⟩ := careful
  cases request with
  | store key content metadata =>
    obtain ⟨names,indexed,_⟩ := fine.indexed
    obtain ⟨hash,_,stored⟩ := redis_store key fine.strange fine.written fine.described indexed s.redis
    simp only [RedisEpisodes.handle,MemoryStore.handle,stored]
    rfl
  | retrieve key =>
    simp only [RedisEpisodes.handle,MemoryStore.handle,sound.retrieve alive]
    rfl
  | delete key =>
    cases held : s.memory.get? key with
    | none =>
      simp only [RedisEpisodes.handle,MemoryStore.handle,sound.redis_delete_absent alive held,held]
      rfl
    | some e =>
      obtain ⟨names,indexed⟩ := sound.named key e held
      simp only [RedisEpisodes.handle,MemoryStore.handle,sound.redis_delete alive held indexed,held]
      rfl
  | search query limit filters =>
    by_cases unfiltered : filters.items = []
    · have scannable : Scannable x s query limit := by simpa only [if_pos unfiltered] using fine
      refine sound.search_agrees alive (List.Subset.refl _) matching_nodup
        (sound.scan_found alive unfiltered scannable.clear scannable.few) (memory_found (List.Subset.refl _) ?_)
        scannable.fits
      intro key member e held
      have none (name : String) : filters.get? name = none := by rw [OrderedDict.get?,unfiltered]; rfl
      rw [decide_eq_true member]
      simp only [passes,none,tested]
      rfl
    · have searchable : Searchable x s query limit filters := by simpa only [if_neg unfiltered] using fine
      obtain ⟨wanted,sought,idle,alike,fits⟩ := searchable
      refine sound.search_agrees alive named_subset named_nodup
        (sound.filtered_found alive unfiltered sought idle) (memory_found named_subset ?_) fits
      intro key member e held
      obtain ⟨names,indexed⟩ := sound.named key e held
      rw [passes_eq (alike key member e held) sought indexed,BackendPair.named]
      refine congrArg Except.ok (decide_eq_decide.mpr ?_)
      rw [List.mem_filter,Option.mem_def.mp held,Option.any_some,indexed,decide_eq_true_eq]
      exact (and_iff_right member).symm
  | listKeys pattern limit =>
    exact sound.list_agrees alive fine.plain fine.clear fine.fits

/-- On a careful request both backends also retrieve what was stored. -/
theorem Sound.faithful {a : Moment × EpisodicRequest φ} (sound : Sound x accounts s) (careful : Careful x accounts s a) :
    Faithful x accounts s a where
  agrees := sound.agrees careful
  retrieves := by
    obtain ⟨m,request⟩ := a
    rintro key rfl
    refine ⟨_,_,congrArg (Except.map EpisodicReply.entry) (sound.retrieve careful.1 key),rfl,?_,?_⟩
    · rw [Option.map_map,sound.latest]
      exact congrArg (Option.map · _) (funext (MemoryEntry.view_told x accounts))
    · exact (sound.latest key).symm

/-- In a run of careful requests the backends agree on every request. -/
theorem backends_agree (x : EpisodicRules φ κ) (accounts : Bool) (requests : List (Moment × EpisodicRequest φ))
    (careful : Throughout (step x) (Careful x accounts) requests {}) : FaithfulThroughout x accounts requests := by
  rintro earlier a later s rfl ran
  obtain ⟨early,fine⟩ := throughout_append ran careful
  have sound := run_invariant (fun s a t => Sound.step (s := s) (a := a) (t := t)) ran sound_empty early
  exact sound.faithful fine.1

/-! ### Two runs -/

/-- Floating-point numbers of which there is only zero. -/
def zeroFloats : PythonFloats Unit where
  toFloatTexts := PythonJson.zeroTexts
  repr _ := "0.0"
  equal _ _ := true
  equalInt _ i := decide (i = 0)

def plainRules : EpisodicRules Unit Nat where
  floats := zeroFloats
  lower text := String.ofList (text.toList.map Char.toLower)
  lower_empty := rfl
  glob pattern key := pattern.toList.dropLast.isPrefixOf key.toList
  glob_plain pattern key _ := by simp
  cfg := {}
  cost tokens := tokens
  noCost := 0
  cost_zero := rfl

def sortedSets : SetOrder where
  list keys := keys.sort
  nodup keys := Finset.sort_nodup keys _
  mem keys key := Finset.mem_sort _

def monday : Moment where
  now := 0
  timestamp := ⟨2024,1,1,12,0,0,0,by decide,by decide,by decide,by decide,by decide,by decide,by decide⟩
  redisOrder := sortedSets
  memoryOrder := sortedSets
  keysOrder := sortedSets

def note : Moment × EpisodicRequest Unit := (monday,.store "a" (.str "123") .empty)
def question : Moment × EpisodicRequest Unit := (monday,.retrieve "a")

def noted : RedisEpisodes := (RedisEpisodes.handle plainRules monday {} note.2).2

/-- A string of digits comes back from Redis as a number. -/
theorem noted_decoded : ∀ r ∈ ((noted.retrieve plainRules monday.now "a").toOption.bind id), isText r.content = false := by
  decide +kernel

theorem retrieve_of_handle {r : RedisEpisodes} {key : String} {e : Option (MemoryEntry φ κ)}
    (answered : (r.handle x m (.retrieve key)).1 = .ok (.entry e)) : r.retrieve x m.now key = .ok e := by
  obtain ⟨found,retrieved,same⟩ := ExceptRules.map_eq_ok.mp answered
  cases same
  exact retrieved

theorem backends_disagree : ¬∀ requests, FaithfulThroughout plainRules false requests := by
  intro always
  obtain ⟨r,_,redis,_,told,_⟩ := (always [note,question] [note] question [] _ rfl rfl).retrieves "a" rfl
  cases r with
  | none => cases told
  | some r =>
    have content : some r.told = some (Json.str "123",episodeMetadata .empty) := told.trans rfl
    have answered : (RedisEpisodes.handle plainRules monday
        (RedisEpisodes.handle plainRules monday {} note.2).2 (.retrieve "a")).1 = .ok (.entry (some r)) := redis
    have retrieved : RedisEpisodes.retrieve plainRules monday.now noted "a" = .ok (some r) := by
      rw [noted]
      exact retrieve_of_handle answered
    have decoded := noted_decoded r (by rw [retrieved]; rfl)
    rw [show r.content = .str "123" from congrArg Prod.fst (Option.some.inj content)] at decoded
    cases decoded

def tagged : Metadata Unit := .ofList [("type",.str "note"),("tags",.list [.str "home"])]

def careful : List (Moment × EpisodicRequest Unit) :=
  [(monday,.store "a" (.str "hello") tagged),(monday,.search "hell" 10 (.ofList [("tags",.list [.str "home"])])),
    (monday,.listKeys "" 100),(monday,.retrieve "a")]

theorem alive_of_items {r : RedisEpisodes} {now : Int} (hashes : ∀ item ∈ r.hashes.items, now < item.2.expires)
    (indexes : ∀ item ∈ r.indexes.items, now < item.2.expires) : Alive r now where
  hashes full hash held := hashes (full,hash) ((OrderedDict.get?_eq_some _ _ _).mp held)
  indexes name index held _ := indexes (name,index) ((OrderedDict.get?_eq_some _ _ _).mp held)

theorem careful_run : Throughout (step plainRules) (Careful plainRules false) careful {} := by
  refine ⟨⟨alive_of_items (by decide) (by decide),?_⟩,?_⟩
  · constructor
    · rintro text ⟨⟩
      decide +kernel
    · rfl
    · decide +kernel
    · decide
    · exact ⟨_,rfl,fun e held => by cases held⟩
    · exact fun counted => by cases counted
  rintro s ⟨⟩
  refine ⟨⟨alive_of_items (by decide +kernel) (by decide +kernel),?_⟩,?_⟩
  · refine ⟨_,rfl,(fun idle => by cases idle),fun key _ e held => Textual.comparedAlike ?_,by decide +kernel⟩
    cases List.mem_singleton.mp ((OrderedDict.get?_eq_some _ _ _).mp held)
    constructor <;> decide +kernel
  rintro s ⟨⟩
  refine ⟨⟨alive_of_items (by decide +kernel) (by decide +kernel),?_⟩,?_⟩
  · exact ⟨by decide +kernel,by decide +kernel,by decide +kernel⟩
  rintro s ⟨⟩
  exact ⟨⟨alive_of_items (by decide +kernel) (by decide +kernel),trivial⟩,fun _ _ => trivial⟩

theorem careful_backends_agree : FaithfulThroughout plainRules false careful :=
  backends_agree plainRules false careful careful_run

end IceOS.EpisodicMemory.BackendPair
