import IceOS.OrderedDict
import IceOS.Recency

/-! The least-recently-used cache of the core, against the history of its calls. -/
namespace IceOS

open Recency

section

variable {κ α : Type}

/-- An empty cache cannot be asked for, so a cache always holds what was set last. Python's `None`
is `none`. -/
structure LRUCache (κ α : Type) where
  capacity : Nat
  positive : 0 < capacity
  store : OrderedDict κ (Option α) := .empty

inductive CacheError
  | valueError (message : String)
deriving DecidableEq, Repr

inductive CacheRequest (κ α : Type)
  | get (key : κ)
  | set (key : κ) (value : Option α)
  | clear

namespace LRUCache

/-- `__init__`. -/
def init (capacity : Int) : Except CacheError (LRUCache κ α) :=
  if h : capacity ≤ 0 then .error (.valueError "capacity must be > 0")
  else .ok { capacity := capacity.toNat,positive := by omega }

variable [DecidableEq κ]

def get (c : LRUCache κ α) (key : κ) : Option α × LRUCache κ α :=
  match c.store.get? key with
  | none => (none,c)
  | some value => (value,{ c with store := (c.store.erase key).set key value })

def set (c : LRUCache κ α) (key : κ) (value : Option α) : LRUCache κ α :=
  let store := ((if key ∈ c.store.keys then c.store.erase key else c.store).set key value)
  { c with store := if c.capacity < store.keys.length then store.dropFirst else store }

def clear (c : LRUCache κ α) : LRUCache κ α := { c with store := .empty }

def step (c : LRUCache κ α) : CacheRequest κ α → LRUCache κ α
  | .get key => (c.get key).2
  | .set key value => c.set key value
  | .clear => c.clear

def run (c : LRUCache κ α) (requests : List (CacheRequest κ α)) : LRUCache κ α := requests.foldl step c

end LRUCache

variable [DecidableEq κ]

/-! The abstract cache is the history of the calls, latest first. -/
namespace CacheHistory

/-- The value of the latest set of the key. -/
def lastSet : List (CacheRequest κ α) → κ → Option α
  | [], _ => none
  | .get _ :: earlier, key => lastSet earlier key
  | .set j value :: earlier, key => if j = key then value else lastSet earlier key
  | .clear :: _, _ => none

/-- The keys that were set or hit, latest first. A get hits while fewer than `capacity` others were
set or hit since its key was. -/
def uses (capacity : Nat) : List (CacheRequest κ α) → List κ
  | [] => []
  | .get key :: earlier =>
    let used := uses capacity earlier
    if key ∈ used ∧ (since used key).card < capacity then key :: used else used
  | .set key _ :: earlier => key :: uses capacity earlier
  | .clear :: _ => []

def answer (capacity : Nat) (history : List (CacheRequest κ α)) (key : κ) : Option α :=
  if (since (uses capacity history) key).card < capacity then lastSet history key else none

theorem lastSet_unused (capacity : Nat) {history : List (CacheRequest κ α)} {key : κ}
    (unused : key ∉ uses capacity history) : lastSet history key = none := by
  induction history with
  | nil => rfl
  | cons request earlier ih =>
    cases request with
    | get j =>
      refine ih fun member => unused ?_
      simp only [uses]
      split
      · exact List.mem_cons_of_mem j member
      · exact member
    | set j value =>
      obtain ⟨other,before⟩ := List.ne_and_not_mem_of_not_mem_cons unused
      simp only [lastSet,if_neg (Ne.symm other)]
      exact ih before
    | clear => rfl

end CacheHistory

namespace LRUCache

open CacheHistory

/-- The store holds the keys in the order of their last uses, with the values last set. -/
structure Refines (c : LRUCache κ α) (history : List (CacheRequest κ α)) : Prop where
  retains : Retains c.capacity (uses c.capacity history) c.store.keys
  values : ∀ key value, c.store.get? key = some value → value = lastSet history key

theorem keys_moved (d : OrderedDict κ (Option α)) (key : κ) (value : Option α) :
    ((d.erase key).set key value).keys = d.keys.filter (· ≠ key) ++ [key] := by
  simp only [OrderedDict.keys]
  rw [OrderedDict.set_erase_items,List.map_append]
  exact congrArg (· ++ [key]) (OrderedDict.keys_erase d key)

theorem get?_moved (d : OrderedDict κ (Option α)) (key j : κ) (value : Option α) :
    ((d.erase key).set key value).get? j = if key = j then some value else d.get? j := by
  rw [OrderedDict.get?_set]
  split
  · rfl
  · next other => rw [OrderedDict.get?_erase,if_neg other]

/-- A present key is moved, an absent one appended: both are the same. -/
theorem set_store (c : LRUCache κ α) (key : κ) (value : Option α) :
    (if key ∈ c.store.keys then c.store.erase key else c.store).set key value =
      (c.store.erase key).set key value := by
  split
  · rfl
  · next absent => rw [OrderedDict.erase_eq_self absent]

section

variable {c : LRUCache κ α} {history : List (CacheRequest κ α)}

theorem fresh_refines (fresh : c.store = .empty) : Refines c [] where
  retains := by
    rw [fresh]
    exact retains_nil
  values key value found := by
    rw [fresh] at found
    cases found

/-- A key is in the store exactly while a get hits it. -/
theorem Refines.hit_iff (r : Refines c history) (key : κ) : key ∈ c.store.keys ↔
    key ∈ uses c.capacity history ∧ (since (uses c.capacity history) key).card < c.capacity :=
  r.retains.mem_iff key

theorem Refines.get_answer (r : Refines c history) (key : κ) :
    (c.get key).1 = answer c.capacity history key := by
  have hit := r.hit_iff key
  rw [OrderedDict.mem_keys] at hit
  simp only [LRUCache.get,answer]
  cases found : c.store.get? key with
  | some value =>
    rw [found] at hit
    have few := (hit.mp rfl).2
    rw [if_pos few]
    exact r.values key value found
  | none =>
    rw [found] at hit
    dsimp only
    split
    · next few =>
      refine (lastSet_unused c.capacity fun used => ?_).symm
      cases hit.mpr ⟨used,few⟩
    · rfl

theorem use_short {max : Nat} {keys : List κ} {key : κ}
    (short : (keys.filter (· ≠ key) ++ [key]).length ≤ max) :
    Recency.use max keys key = keys.filter (· ≠ key) ++ [key] := by
  simp only [Recency.use,Nat.sub_eq_zero_of_le short,List.drop_zero]

theorem Refines.get (r : Refines c history) (key : κ) : Refines (c.get key).2 (.get key :: history) := by
  have hit := r.hit_iff key
  simp only [LRUCache.get]
  cases found : c.store.get? key with
  | none =>
    have missed : key ∉ c.store.keys := (OrderedDict.get?_eq_none c.store key).mp found
    have same : uses c.capacity (.get key :: history) = uses c.capacity history := if_neg fun h => missed (hit.mpr h)
    exact { retains := same ▸ r.retains,values := r.values }
  | some value =>
    have inside : key ∈ c.store.keys := by
      rw [OrderedDict.mem_keys,found]
      rfl
    have used : uses c.capacity (.get key :: history) = key :: uses c.capacity history := if_pos (hit.mp inside)
    have short : (c.store.keys.filter (· ≠ key) ++ [key]).length ≤ c.capacity := by
      have fewer : (c.store.keys.filter (· ≠ key)).length < c.store.keys.length :=
        List.length_filter_lt_length_iff_exists.mpr ⟨key,inside,by simp⟩
      rw [List.length_append,List.length_singleton]
      exact le_trans (Nat.succ_le_of_lt fewer) r.retains.bounded
    refine { retains := ?_,values := ?_ }
    · change Retains c.capacity _ ((c.store.erase key).set key value).keys
      rw [used,keys_moved,← use_short short]
      exact r.retains.use key
    · intro j w moved
      change ((c.store.erase key).set key value).get? j = some w at moved
      rw [get?_moved] at moved
      split at moved
      · next same =>
        cases moved
        exact same ▸ r.values key value found
      · exact r.values j w moved

omit [DecidableEq κ] in
theorem keys_dropFirst (d : OrderedDict κ (Option α)) : d.dropFirst.keys = d.keys.drop 1 := by
  simp [OrderedDict.keys,OrderedDict.dropFirst]

theorem set_keys (bounded : c.store.keys.length ≤ c.capacity) (key : κ) (value : Option α) :
    (c.set key value).store.keys = Recency.use c.capacity c.store.keys key := by
  have length := List.length_filter_le (fun j => decide (j ≠ key)) c.store.keys
  simp only [LRUCache.set,set_store,keys_moved,Recency.use]
  split
  · next full =>
    rw [keys_dropFirst,keys_moved]
    congr 1
    rw [List.length_append,List.length_singleton] at full ⊢
    omega
  · next room =>
    rw [keys_moved,Nat.sub_eq_zero_of_le (Nat.not_lt.mp room),List.drop_zero]

theorem set_get? (c : LRUCache κ α) (key j : κ) (value w : Option α)
    (found : (c.set key value).store.get? j = some w) : ((c.store.erase key).set key value).get? j = some w := by
  simp only [LRUCache.set,set_store] at found
  split at found
  · rw [OrderedDict.get?_eq_some] at found ⊢
    exact List.mem_of_mem_tail found
  · exact found

theorem Refines.set (r : Refines c history) (key : κ) (value : Option α) :
    Refines (c.set key value) (.set key value :: history) where
  retains := by
    rw [set_keys r.retains.bounded key value]
    exact r.retains.use key
  values j w found := by
    have moved := set_get? c key j value w found
    rw [get?_moved] at moved
    simp only [lastSet]
    split
    · next same =>
      rw [if_pos same] at moved
      exact (Option.some.inj moved).symm
    · next other =>
      rw [if_neg other] at moved
      exact r.values j w moved

theorem step_capacity (c : LRUCache κ α) (request : CacheRequest κ α) : (c.step request).capacity = c.capacity := by
  cases request with
  | get key =>
    simp only [step,LRUCache.get]
    split <;> rfl
  | set key value => rfl
  | clear => rfl

theorem Refines.step (r : Refines c history) (request : CacheRequest κ α) :
    Refines (c.step request) (request :: history) := by
  cases request with
  | get key => exact r.get key
  | set key value => exact r.set key value
  | clear => exact { retains := retains_nil,values := fun key value found => by cases found }

theorem Refines.run (r : Refines c history) (requests : List (CacheRequest κ α)) :
    Refines (c.run requests) (requests.reverse ++ history) ∧ (c.run requests).capacity = c.capacity := by
  induction requests generalizing c history with
  | nil => exact ⟨r,rfl⟩
  | cons request rest ih =>
    obtain ⟨refines,capacity⟩ := ih (r.step request)
    rw [List.reverse_cons,List.append_assoc]
    exact ⟨refines,capacity.trans (step_capacity c request)⟩

end

/-- After any calls a get finds the value last set for its key while fewer than `capacity` other keys
were set or hit since that key was, nothing otherwise, and no more than `capacity` entries are kept. -/
theorem refines_recency (capacity : Int) (positive : 1 ≤ capacity) (requests : List (CacheRequest κ α)) :
    ∃ start : LRUCache κ α, init capacity = .ok start ∧
      (∀ key, ((start.run requests).get key).1 = answer capacity.toNat requests.reverse key) ∧
      ((start.run requests).store.keys.length : Int) ≤ capacity := by
  have accepted : ¬capacity ≤ 0 := by omega
  refine ⟨_,dif_neg accepted,?_⟩
  obtain ⟨refines,same⟩ := (fresh_refines (κ := κ) (α := α) (c := { capacity := capacity.toNat,positive := by omega })
    rfl).run requests
  rw [List.append_nil] at refines
  constructor
  · intro key
    rw [refines.get_answer key,same]
  · have bounded := refines.retains.bounded
    rw [same] at bounded
    dsimp only at bounded
    omega

end LRUCache

end

/-- A hit of `"a"` makes `"b"` the one to go. -/
theorem lru_recency_of_three : (1 : Int) ≤ 2 ∧ ∃ start : LRUCache String Nat, LRUCache.init 2 = .ok start ∧
    (∀ key, ((start.run [.set "a" (some 1),.set "b" (some 2),.get "a",.set "c" (some 3)]).get key).1 =
      CacheHistory.answer 2 [.set "c" (some 3),.get "a",.set "b" (some 2),.set "a" (some 1)] key) ∧
    ((start.run [.set "a" (some 1),.set "b" (some 2),.get "a",.set "c" (some 3)]).store.keys.length : Int) ≤ 2 :=
  ⟨by decide,LRUCache.refines_recency 2 (by decide) [.set "a" (some 1),.set "b" (some 2),.get "a",.set "c" (some 3)]⟩

end IceOS
