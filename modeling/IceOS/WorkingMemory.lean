import IceOS.OrderedDict
import IceOS.PythonText
import IceOS.Recency

/-! The working memory: entries in the order of their last use, which expire, and of which the oldest make
place for new ones. -/
namespace IceOS

/-- The settings that the memories read. A TTL of zero counts as none, and so does a bound of zero. -/
structure MemoryConfig where
  ttlSeconds : Option Int := some 3600
  maxEntries : Option Nat := some 1000
  enableVectorSearch : Bool := false
  embeddingDim : Nat := 384

/-- `timestamp` is in microseconds; a metadata value may be `None`. -/
structure MemoryEntry (α β : Type) where
  key : String
  content : α
  metadata : OrderedDict String (Option β)
  timestamp : Int
  accessCount : Nat := 0

/-- `str` of a content, and `lower` of a text. -/
structure TextRules (α : Type) where
  str : α → String
  lower : String → String

def MemoryConfig.expired (cfg : MemoryConfig) (timestamp now : Int) : Bool :=
  match cfg.ttlSeconds with
  | none => false
  | some ttl => ttl != 0 && ttl * 1000000 < now - timestamp

inductive MemoryRequest (α β : Type) where
  | store (key : String) (content : α) (metadata : OrderedDict String (Option β))
  | retrieve (key : String)
  | delete (key : String)
  | search (query : String) (limit : Int) (filters : List (String × Option β))
  | cleanup

abbrev WorkingEntries (α β : Type) := OrderedDict String (MemoryEntry α β)

namespace WorkingMemory

variable {α β : Type}

/-- Pop the oldest entries until the bound is met. -/
def enforceSizeLimit (cfg : MemoryConfig) (entries : WorkingEntries α β) : WorkingEntries α β :=
  match cfg.maxEntries with
  | none | some 0 => entries
  | some max => OrderedDict.dropFirst^[entries.items.length - max] entries

def store (cfg : MemoryConfig) (now : Int) (key : String) (content : α) (metadata : OrderedDict String (Option β))
    (entries : WorkingEntries α β) : WorkingEntries α β :=
  enforceSizeLimit cfg ((entries.erase key).set key { key,content,metadata,timestamp := now })

def retrieve (cfg : MemoryConfig) (now : Int) (key : String) (entries : WorkingEntries α β) :
    Option (MemoryEntry α β) × WorkingEntries α β :=
  match entries.get? key with
  | none => (none,entries)
  | some entry =>
    if cfg.expired entry.timestamp now then (none,entries.erase key)
    else
      let entry := { entry with accessCount := entry.accessCount + 1 }
      (some entry,(entries.erase key).set key entry)

/-- `_cleanup_expired` -/
def cleanupExpired (cfg : MemoryConfig) (now : Int) (entries : WorkingEntries α β) : WorkingEntries α β :=
  ((entries.items.filter fun item => cfg.expired item.2.timestamp now).map Prod.fst).foldl OrderedDict.erase entries

def accepts [DecidableEq β] (rules : TextRules α) (query : String) (filters : List (String × Option β))
    (entry : MemoryEntry α β) : Bool :=
  PythonText.contains (rules.lower query) (rules.lower (rules.str entry.content)) &&
    filters.all fun filter => (entry.metadata.get? filter.1).join = filter.2

/-- The loop stops when the limit is reached, which is first looked at after a match. -/
def collect (wanted : MemoryEntry α β → Bool) (limit : Int) :
    List (MemoryEntry α β) → List (MemoryEntry α β) → List (MemoryEntry α β)
  | [], results => results
  | entry :: rest, results =>
    if !wanted entry then collect wanted limit rest results
    else if limit ≤ (results ++ [entry]).length then results ++ [entry]
    else collect wanted limit rest (results ++ [entry])

def search [DecidableEq β] (rules : TextRules α) (cfg : MemoryConfig) (now : Int) (query : String) (limit : Int)
    (filters : List (String × Option β)) (entries : WorkingEntries α β) : List (MemoryEntry α β) :=
  collect (fun entry => !cfg.expired entry.timestamp now && accepts rules query filters entry) limit
    (entries.items.map Prod.snd) []

/-- What a request did that counts later. -/
inductive Deed (α β : Type) where
  | stored (key : String) (content : α) (metadata : OrderedDict String (Option β)) (timestamp : Int)
  | retrieved (key : String)
  | deleted (key : String)

/-- The entries, and the deeds so far, latest first. -/
structure Session (α β : Type) where
  entries : WorkingEntries α β := .empty
  deeds : List (Deed α β) := []

/-- A request at a time. -/
def serve (cfg : MemoryConfig) (s : Session α β) (a : Int × MemoryRequest α β) : Session α β :=
  match a.2 with
  | .store key content metadata =>
    ⟨store cfg a.1 key content metadata s.entries,.stored key content metadata a.1 :: s.deeds⟩
  | .retrieve key =>
    match retrieve cfg a.1 key s.entries with
    | (none,entries) => { s with entries }
    | (some _,entries) => ⟨entries,.retrieved key :: s.deeds⟩
  | .delete key => ⟨s.entries.erase key,.deleted key :: s.deeds⟩
  | .search _ _ _ => s
  | .cleanup => { s with entries := cleanupExpired cfg a.1 s.entries }

def serveAll (cfg : MemoryConfig) (requests : List (Int × MemoryRequest α β)) : Session α β :=
  requests.foldl (serve cfg) {}

namespace Deed

/-- The keys that were stored or retrieved, latest first. -/
def uses : List (Deed α β) → List String
  | [] => []
  | .stored key _ _ _ :: earlier => key :: uses earlier
  | .retrieved key :: earlier => key :: uses earlier
  | .deleted _ :: earlier => uses earlier

/-- What was last stored under the key and has not been deleted since, and when. -/
def lastStored (k : String) : List (Deed α β) → Option (α × OrderedDict String (Option β) × Int)
  | [] => none
  | .stored key content metadata timestamp :: earlier =>
    if key = k then some (content,metadata,timestamp) else lastStored k earlier
  | .retrieved _ :: earlier => lastStored k earlier
  | .deleted key :: earlier => if key = k then none else lastStored k earlier

end Deed

/-! ### What the entries have to do with the deeds -/

open Deed Recency

/-- Entries are what was last stored. What is missing has expired, or `max` other keys have been used since. -/
structure Mirrors (cfg : MemoryConfig) (max : Nat) (now : Int) (s : Session α β) : Prop where
  known : ∀ k entry, s.entries.get? k = some entry →
    entry.key = k ∧ lastStored k s.deeds = some (entry.content,entry.metadata,entry.timestamp)
  missing : ∀ k content metadata timestamp, lastStored k s.deeds = some (content,metadata,timestamp) →
    s.entries.get? k = none → cfg.expired timestamp now = true ∨ max ≤ (since (uses s.deeds) k).card
  ordered : Ordered (uses s.deeds) s.entries.keys

variable {cfg : MemoryConfig} {max : Nat} {now later : Int} {s : Session α β}

theorem empty_mirrors (cfg : MemoryConfig) (max : Nat) (now : Int) : Mirrors cfg max now ({} : Session α β) where
  known _ _ found := by cases found
  missing _ _ _ _ stored _ := by cases stored
  ordered := List.Pairwise.nil

theorem expired_mono {timestamp : Int} (passes : now ≤ later) (expired : cfg.expired timestamp now = true) :
    cfg.expired timestamp later = true := by
  cases ttl : cfg.ttlSeconds with
  | none => simp [MemoryConfig.expired,ttl] at expired
  | some ttl' =>
    simp only [MemoryConfig.expired,ttl,Bool.and_eq_true,decide_eq_true_eq] at expired ⊢
    exact ⟨expired.1,by omega⟩

theorem Mirrors.wait (mirrors : Mirrors cfg max now s) (passes : now ≤ later) : Mirrors cfg max later s where
  known := mirrors.known
  missing k content metadata timestamp stored gone :=
    (mirrors.missing k content metadata timestamp stored gone).imp_left (expired_mono passes)
  ordered := mirrors.ordered

/-- Entries may go when they are missed for a reason. -/
theorem Mirrors.remove (mirrors : Mirrors cfg max now s) {entries : WorkingEntries α β}
    (sublist : entries.items.Sublist s.entries.items)
    (reason : ∀ k entry, s.entries.get? k = some entry → entries.get? k = none →
      cfg.expired entry.timestamp now = true ∨ max ≤ (since (uses s.deeds) k).card) :
    Mirrors cfg max now { s with entries } where
  known k entry found := by
    apply mirrors.known k entry
    rw [OrderedDict.get?_eq_some] at found ⊢
    exact sublist.subset found
  missing k content metadata timestamp stored gone := by
    cases found : s.entries.get? k with
    | none => exact mirrors.missing k content metadata timestamp stored found
    | some entry =>
      have same := (mirrors.known k entry found).2.symm.trans stored
      simp only [Option.some.injEq,Prod.mk.injEq] at same
      rw [← same.2.2]
      exact reason k entry found gone
  ordered := ordered_sublist (sublist.map Prod.fst) mirrors.ordered

theorem mem_keys_erase (d : WorkingEntries α β) (k : String) : k ∉ (d.erase k).keys := by
  rw [← OrderedDict.get?_eq_none,OrderedDict.get?_erase_eq_update,Function.update_self]

/-- A key that is used moves to the end, with an entry for what was last stored under it. -/
theorem Mirrors.use (mirrors : Mirrors cfg max now s) {k : String} {entry : MemoryEntry α β} {deed : Deed α β}
    (key : entry.key = k) (used : uses (deed :: s.deeds) = k :: uses s.deeds)
    (stored : lastStored k (deed :: s.deeds) = some (entry.content,entry.metadata,entry.timestamp))
    (others : ∀ j, k ≠ j → lastStored j (deed :: s.deeds) = lastStored j s.deeds) :
    Mirrors cfg max now ⟨(s.entries.erase k).set k entry,deed :: s.deeds⟩ where
  known j found there := by
    rw [OrderedDict.get?_set] at there
    split at there
    · next same =>
      cases same
      cases there
      exact ⟨key,stored⟩
    · next other =>
      rw [OrderedDict.get?_erase_eq_update,Function.update_of_ne (Ne.symm other)] at there
      rw [others j other]
      exact mirrors.known j found there
  missing j content metadata timestamp last gone := by
    rw [OrderedDict.get?_set] at gone
    split at gone
    · cases gone
    · next other =>
      rw [OrderedDict.get?_erase_eq_update,Function.update_of_ne (Ne.symm other)] at gone
      rw [others j other] at last
      refine (mirrors.missing j content metadata timestamp last gone).imp_right fun many => ?_
      rw [used,since_other _ other]
      exact many.trans (Finset.card_le_card (Finset.subset_insert k _))
  ordered := by
    have keys : ((s.entries.erase k).set k entry).keys = (s.entries.erase k).keys ++ [k] := by
      rw [OrderedDict.keys_set,if_neg (mem_keys_erase s.entries k)]
    rw [keys,used]
    refine ordered_use (ordered_sublist ?_ mirrors.ordered) (mem_keys_erase s.entries k)
    exact List.filter_sublist.map Prod.fst

theorem enforceSizeLimit_items (bounded : cfg.maxEntries = some max) (positive : 1 ≤ max)
    (entries : WorkingEntries α β) :
    (enforceSizeLimit cfg entries).items = entries.items.drop (entries.items.length - max) := by
  obtain ⟨n,rfl⟩ : ∃ n, max = n + 1 := ⟨max - 1,by omega⟩
  simp only [enforceSizeLimit,bounded]
  exact OrderedDict.dropFirst_iterate_items _ _

/-- The entries that make place have `max` others behind them. -/
theorem Mirrors.evict (mirrors : Mirrors cfg max now s) (bounded : cfg.maxEntries = some max) (positive : 1 ≤ max) :
    Mirrors cfg max now { s with entries := enforceSizeLimit cfg s.entries } := by
  have items := enforceSizeLimit_items bounded positive s.entries
  refine mirrors.remove (by rw [items]; exact List.drop_sublist _ _) fun k entry found gone => .inr ?_
  generalize extra : s.entries.items.length - max = n at items
  have parts : s.entries.keys = s.entries.keys.take n ++ s.entries.keys.drop n := (List.take_append_drop n _).symm
  have back : (enforceSizeLimit cfg s.entries).keys = s.entries.keys.drop n := by
    simp only [OrderedDict.keys,items,List.map_drop]
  have present : k ∈ s.entries.keys := (OrderedDict.mem_keys _ _).mpr (by rw [found]; rfl)
  have ahead : k ∈ s.entries.keys.take n := by
    rw [parts] at present
    rcases List.mem_append.mp present with ahead | behind
    · exact ahead
    · rw [OrderedDict.get?_eq_none,back] at gone
      exact absurd behind gone
  have size : (s.entries.keys.drop n).length = s.entries.items.length - n := by
    simp only [OrderedDict.keys,List.length_drop,List.length_map]
  have some : 0 < n := by
    rcases Nat.eq_zero_or_pos n with zero | some
    · rw [zero,List.take_zero] at ahead
      cases ahead
    · exact some
  calc max = (s.entries.keys.drop n).length := by omega
    _ ≤ (since (uses s.deeds) k).card :=
      behind_le_since (parts ▸ mirrors.ordered) ((List.drop_sublist n _).nodup (OrderedDict.keys_nodup _)) ahead

theorem Mirrors.delete (mirrors : Mirrors cfg max now s) (k : String) :
    Mirrors cfg max now ⟨s.entries.erase k,.deleted k :: s.deeds⟩ where
  known j entry there := by
    rw [OrderedDict.get?_erase_eq_update,Function.update_apply] at there
    split at there
    · cases there
    · next other =>
      simp only [lastStored,if_neg (Ne.symm other)]
      exact mirrors.known j entry there
  missing j content metadata timestamp last gone := by
    simp only [lastStored] at last
    split at last
    · cases last
    · next other =>
      rw [OrderedDict.get?_erase_eq_update,Function.update_of_ne (Ne.symm other)] at gone
      exact mirrors.missing j content metadata timestamp last gone
  ordered := ordered_sublist (List.filter_sublist.map Prod.fst) mirrors.ordered

theorem Mirrors.cleanup (mirrors : Mirrors cfg max now s) :
    Mirrors cfg max now { s with entries := cleanupExpired cfg now s.entries } := by
  refine mirrors.remove (OrderedDict.foldl_erase_sublist _ _) fun k entry found gone => .inl ?_
  simp only [cleanupExpired,OrderedDict.get?_foldl_erase] at gone
  split at gone
  · next member =>
    obtain ⟨⟨j,other⟩,inside,rfl⟩ := List.mem_map.mp member
    obtain ⟨inside,expired⟩ := List.mem_filter.mp inside
    cases ((OrderedDict.get?_eq_some _ _ _).mpr inside).symm.trans found
    exact expired
  · cases found.symm.trans gone

theorem retouch_length {k : String} {entry : MemoryEntry α β} (found : s.entries.get? k = some entry)
    (fresh : MemoryEntry α β) : ((s.entries.erase k).set k fresh).items.length ≤ s.entries.items.length := by
  have member : (k,entry) ∈ s.entries.items := (OrderedDict.get?_eq_some _ _ _).mp found
  have fewer : (s.entries.erase k).items.length < s.entries.items.length :=
    List.length_filter_lt_length_iff_exists.mpr ⟨(k,entry),member,by simp⟩
  rw [OrderedDict.set_erase_items,List.length_append]
  exact fewer

/-- A request keeps the entries and the deeds in step, and the bound. -/
theorem serve_mirrors (bounded : cfg.maxEntries = some max) (positive : 1 ≤ max) (a : Int × MemoryRequest α β)
    (mirrors : Mirrors cfg max a.1 s) (small : s.entries.items.length ≤ max) :
    Mirrors cfg max a.1 (serve cfg s a) ∧ (serve cfg s a).entries.items.length ≤ max := by
  obtain ⟨now,r⟩ := a
  cases r with
  | store key content metadata =>
    have used : Mirrors cfg max now
        ⟨(s.entries.erase key).set key { key,content,metadata,timestamp := now },
          .stored key content metadata now :: s.deeds⟩ :=
      mirrors.use rfl rfl (by simp [lastStored]) fun j other => by simp [lastStored,other]
    refine ⟨used.evict bounded positive,?_⟩
    have items := enforceSizeLimit_items bounded positive
      ((s.entries.erase key).set key { key,content,metadata,timestamp := now })
    simp only [serve,store,items,List.length_drop]
    omega
  | retrieve key =>
    cases found : s.entries.get? key with
    | none =>
      simp only [serve,retrieve,found]
      exact ⟨mirrors,small⟩
    | some entry =>
      cases expired : cfg.expired entry.timestamp now with
      | true =>
        simp only [serve,retrieve,found,expired,if_true]
        refine ⟨mirrors.remove List.filter_sublist fun k other there gone => ?_,?_⟩
        · rw [OrderedDict.get?_erase_eq_update,Function.update_apply] at gone
          split at gone
          · next same =>
            cases same
            cases found.symm.trans there
            exact .inl expired
          · cases there.symm.trans gone
        · exact (List.length_filter_le _ _).trans small
      | false =>
        simp only [serve,retrieve,found,expired]
        obtain ⟨same,stored⟩ := mirrors.known key entry found
        exact ⟨mirrors.use same rfl stored fun j _ => rfl,(retouch_length found _).trans small⟩
  | delete key => exact ⟨mirrors.delete key,(List.length_filter_le _ _).trans small⟩
  | search query limit filters => exact ⟨mirrors,small⟩
  | cleanup => exact ⟨mirrors.cleanup,(OrderedDict.foldl_erase_sublist _ _).length_le.trans small⟩

theorem serveAll_mirrors (bounded : cfg.maxEntries = some max) (positive : 1 ≤ max)
    (requests : List (Int × MemoryRequest α β)) (clock : (requests.map Prod.fst ++ [now]).Pairwise (· ≤ ·)) :
    Mirrors cfg max now (serveAll cfg requests) ∧ (serveAll cfg requests).entries.items.length ≤ max := by
  induction requests using List.reverseRecOn generalizing now with
  | nil => exact ⟨empty_mirrors cfg max now,Nat.zero_le max⟩
  | append_singleton requests a ih =>
    rw [List.map_append,List.map_singleton] at clock
    obtain ⟨early,_,late⟩ := List.pairwise_append.mp clock
    obtain ⟨mirrors,small⟩ := ih early
    obtain ⟨mirrors,small⟩ := serve_mirrors bounded positive a mirrors small
    simp only [serveAll,List.foldl_append]
    refine ⟨mirrors.wait (late a.1 ?_ now List.mem_cons_self),small⟩
    exact List.mem_append_right _ List.mem_cons_self

theorem collect_sound {wanted : MemoryEntry α β → Bool} {limit : Int} {entry : MemoryEntry α β}
    (entries results : List (MemoryEntry α β)) (found : entry ∈ collect wanted limit entries results) :
    entry ∈ results ∨ (entry ∈ entries ∧ wanted entry = true) := by
  induction entries generalizing results with
  | nil => exact .inl found
  | cons first rest ih =>
    have added (member : entry ∈ results ++ [first]) (fits : wanted first = true) :
        entry ∈ results ∨ entry ∈ first :: rest ∧ wanted entry = true := by
      rcases List.mem_append.mp member with old | new
      · exact .inl old
      · cases List.mem_singleton.mp new
        exact .inr ⟨List.mem_cons_self,fits⟩
    have after (member : entry ∈ rest ∧ wanted entry = true) :
        entry ∈ results ∨ entry ∈ first :: rest ∧ wanted entry = true :=
      .inr ⟨List.mem_cons_of_mem first member.1,member.2⟩
    simp only [collect,Bool.not_eq_true'] at found
    split at found
    · exact (ih results found).elim .inl after
    · next fits =>
      rw [Bool.not_eq_false] at fits
      split at found
      · exact added found fits
      · exact (ih _ found).elim (added · fits) after

/-- The memory never holds more than `max` entries. It returns what was last stored under a key and not deleted, as
long as that has not expired and fewer than `max` other keys have been stored or retrieved since the key itself; and
whatever it returns was last stored under its key, not deleted since, and has not expired. -/
theorem workingMemory_lru [DecidableEq β] (cfg : MemoryConfig) (max : Nat) (bounded : cfg.maxEntries = some max)
    (positive : 1 ≤ max) (requests : List (Int × MemoryRequest α β)) (now : Int)
    (clock : (requests.map Prod.fst ++ [now]).Pairwise (· ≤ ·)) :
    (serveAll cfg requests).entries.items.length ≤ max ∧
    (∀ k content metadata timestamp,
      lastStored k (serveAll cfg requests).deeds = some (content,metadata,timestamp) →
      cfg.expired timestamp now = false → (since (uses (serveAll cfg requests).deeds) k).card < max →
      ∃ entry, (retrieve cfg now k (serveAll cfg requests).entries).1 = some entry ∧
        entry.content = content ∧ entry.metadata = metadata) ∧
    (∀ k entry, (retrieve cfg now k (serveAll cfg requests).entries).1 = some entry →
      lastStored k (serveAll cfg requests).deeds = some (entry.content,entry.metadata,entry.timestamp) ∧
        cfg.expired entry.timestamp now = false) ∧
    ∀ rules query limit filters, ∀ entry ∈ search rules cfg now query limit filters (serveAll cfg requests).entries,
      lastStored entry.key (serveAll cfg requests).deeds = some (entry.content,entry.metadata,entry.timestamp) ∧
        cfg.expired entry.timestamp now = false := by
  obtain ⟨mirrors,small⟩ := serveAll_mirrors bounded positive requests clock
  generalize serveAll cfg requests = s at mirrors small
  refine ⟨small,?_,?_,?_⟩
  · intro k content metadata timestamp stored fresh few
    cases found : s.entries.get? k with
    | none =>
      rcases mirrors.missing k content metadata timestamp stored found with expired | many
      · cases fresh.symm.trans expired
      · omega
    | some entry =>
      have same := (mirrors.known k entry found).2.symm.trans stored
      simp only [Option.some.injEq,Prod.mk.injEq] at same
      obtain ⟨rfl,rfl,rfl⟩ := same
      simp only [retrieve,found,fresh]
      exact ⟨_,rfl,rfl,rfl⟩
  · intro k entry returned
    cases found : s.entries.get? k with
    | none => simp [retrieve,found] at returned
    | some other =>
      have stored := (mirrors.known k other found).2
      simp only [retrieve,found] at returned
      split at returned
      · cases returned
      · next fresh =>
        cases returned
        exact ⟨stored,Bool.eq_false_of_not_eq_true fresh⟩
  · intro rules query limit filters entry found
    rcases collect_sound _ _ found with none | ⟨inside,wanted⟩
    · cases none
    · obtain ⟨⟨k,_⟩,member,rfl⟩ := List.mem_map.mp inside
      obtain ⟨rfl,stored⟩ := mirrors.known k _ ((OrderedDict.get?_eq_some _ _ _).mpr member)
      simp only [Bool.and_eq_true,Bool.not_eq_true'] at wanted
      exact ⟨stored,wanted.1⟩

/-- Two entries fit. The first is read again before a third one comes, so the second has to go. -/
def refreshing : List (Int × MemoryRequest Nat Nat) :=
  [(0,.store "plan" 1 .empty),(1,.store "draft" 2 .empty),(2,.retrieve "plan"),(3,.store "review" 3 .empty)]

theorem refreshing_lru : (serveAll { maxEntries := some 2 } refreshing).entries.items.length ≤ 2 ∧
    (∃ entry, (retrieve { maxEntries := some 2 } 4 "plan" (serveAll { maxEntries := some 2 } refreshing).entries).1 =
      some entry ∧ entry.content = 1 ∧ entry.metadata = .empty) ∧
    ¬∃ entry, (retrieve { maxEntries := some 2 } 4 "plan" (serveAll { maxEntries := some 2 } refreshing).entries).1 =
      some entry ∧ entry.content ≠ 1 := by
  obtain ⟨small,kept,right,_⟩ :=
    workingMemory_lru { maxEntries := some 2 } 2 rfl (by decide) refreshing 4 (by decide)
  have stored : lastStored "plan" (serveAll { maxEntries := some 2 } refreshing).deeds = some (1,.empty,0) := rfl
  refine ⟨small,kept "plan" 1 .empty 0 stored rfl (by decide +kernel),?_⟩
  rintro ⟨entry,returned,other⟩
  have same := stored.symm.trans (right "plan" entry returned).1
  simp only [Option.some.injEq,Prod.mk.injEq] at same
  exact other same.1.symm

end WorkingMemory

end IceOS
