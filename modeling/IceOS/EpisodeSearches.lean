import IceOS.EpisodicMemory
import IceOS.JsonRoundTrip
import Mathlib.Data.List.Perm.Basic
import Mathlib.Data.List.Dedup
import Mathlib.Data.Finset.Dedup

/-! What the searches and listings of the two backends of the episodic memory have in common: the keys that they find, and
the entries that they make of them. -/
namespace IceOS.EpisodicMemory

open PythonDatetime PythonJson

variable {φ κ : Type}

/-- The limit keeps all of so many items or none. -/
def Fits (count : Nat) (limit : Int) : Prop := (count : Int) ≤ limit ∨ limit ≤ 0 ∧ (count : Int) ≤ -limit ∨ limit = 0

instance (count : Nat) (limit : Int) : Decidable (Fits count limit) := inferInstanceAs (Decidable (_ ∨ _))

theorem sliceTo_fits {α : Type} {items : List α} {limit : Int} (fits : Fits items.length limit) :
    sliceTo items limit = if (items.length : Int) ≤ limit then items else [] := by
  simp only [sliceTo]
  split
  · next positive =>
    split
    · next small =>
      refine List.take_of_length_le ?_
      omega
    · next large =>
      have zero : limit = 0 := by
        rcases fits with small | ⟨_,none⟩ | zero
        · exact absurd small large
        · omega
        · exact zero
      rw [zero]
      rfl
  · next negative =>
    have none : items.length - (-limit).toNat = 0 := by
      rcases fits with small | ⟨_,none⟩ | zero <;> omega
    rw [none,List.take_zero,if_neg]
    omega

theorem sliceTo_nil {α : Type} (limit : Int) : sliceTo ([] : List α) limit = [] := by
  simp only [sliceTo]
  split <;> simp

theorem collect_ok {test : String → Except Exn Bool} {passed : String → Bool} {keys : List String}
    (decides : ∀ key ∈ keys, test key = .ok (passed key)) : collect test keys = .ok (keys.filter passed).toFinset := by
  induction keys with
  | nil => rfl
  | cons key rest ih =>
    have later := ih fun other member => decides other (List.mem_cons_of_mem key member)
    simp only [collect,decides key List.mem_cons_self,later,bind,Except.bind,pure,Except.pure,List.filter_cons]
    cases passed key with
    | true => simp
    | false => simp

theorem retrieveAll_ok {retrieve : String → Except Exn (Option (MemoryEntry φ κ))}
    {entry : String → Option (MemoryEntry φ κ)} (known : ∀ key, retrieve key = .ok (entry key)) (keys : List String) :
    retrieveAll retrieve keys = .ok (keys.filterMap entry) := by
  induction keys with
  | nil => rfl
  | cons key rest ih =>
    simp only [retrieveAll,known,ih,bind,Except.bind,pure,Except.pure,List.filterMap_cons]
    cases entry key <;> rfl

theorem newestFirst_perm (entries : List (MemoryEntry φ κ)) : (newestFirst entries).Perm entries :=
  List.mergeSort_perm entries _

def NewestFirst (entries : List (MemoryEntry φ κ)) : Prop :=
  entries.Pairwise fun a b => b.timestamp.value ≤ a.timestamp.value

theorem newestFirst_sorted (entries : List (MemoryEntry φ κ)) : NewestFirst (newestFirst entries) := by
  have sorted : (newestFirst entries).Pairwise fun a b => decide (b.timestamp.value ≤ a.timestamp.value) = true := by
    apply List.pairwise_mergeSort
    · intro a b c ab bc
      simp only [decide_eq_true_eq] at ab bc ⊢
      omega
    · intro a b
      simp only [Bool.or_eq_true,decide_eq_true_eq]
      omega
  exact sorted.imp fun before => of_decide_eq_true before

theorem filterMap_length {α β : Type} {f : α → Option β} {items : List α} (all : ∀ a ∈ items, (f a).isSome = true) :
    (items.filterMap f).length = items.length := by
  induction items with
  | nil => rfl
  | cons a rest ih =>
    obtain ⟨b,found⟩ := Option.isSome_iff_exists.mp (all a List.mem_cons_self)
    rw [List.filterMap_cons_some found,List.length_cons,List.length_cons,ih fun c member => all c (List.mem_cons_of_mem a member)]

/-- The answer to a search that found keys of stored entries, so many that the limit keeps all of them or none. -/
theorem answer_ok {retrieve : String → Except Exn (Option (MemoryEntry φ κ))}
    {entry : String → Option (MemoryEntry φ κ)} (known : ∀ key, retrieve key = .ok (entry key)) {keys : List String}
    (stored : ∀ key ∈ keys, (entry key).isSome = true) {limit : Int} (fits : Fits keys.length limit) :
    answer retrieve keys limit =
      .ok (if (keys.length : Int) ≤ limit then newestFirst (keys.filterMap entry) else []) := by
  simp only [answer,sliceTo_fits fits,retrieveAll_ok known,bind,Except.bind,pure,Except.pure]
  split
  · next small =>
    have length : (newestFirst (keys.filterMap entry)).length = keys.length := by
      rw [newestFirst,List.length_mergeSort,filterMap_length stored]
    rw [sliceTo_fits (by rw [length]; exact fits),length,if_pos small]
  · rw [List.filterMap_nil]
    have nothing : newestFirst ([] : List (MemoryEntry φ κ)) = [] := List.mergeSort_nil
    rw [nothing,sliceTo_nil]

/-! ### Agreement -/

/-- Two searches that found the same stored keys have the same entries as one sees the other's, newest first. -/
theorem answers_agree {view : MemoryEntry φ κ → MemoryEntry φ κ} {entry : String → Option (MemoryEntry φ κ)}
    {left right : String → Except Exn (Option (MemoryEntry φ κ))}
    (known : ∀ key, left key = .ok ((entry key).map view)) (known' : ∀ key, right key = .ok (entry key))
    {found : Finset String} (stored : ∀ key ∈ found, (entry key).isSome = true) {limit : Int} (fits : Fits found.card limit)
    (o o' : SetOrder) : ∃ r e, answer left (o.list found) limit = .ok r ∧ answer right (o'.list found) limit = .ok e ∧
      r.Perm (e.map view) ∧ NewestFirst r ∧ NewestFirst e := by
  have length (o : SetOrder) : (o.list found).length = found.card := by
    have same : (o.list found).toFinset = found := Finset.ext fun key => by rw [List.mem_toFinset,o.mem]
    rw [← List.toFinset_card_of_nodup (o.nodup found),same]
  have same : (o.list found).Perm (o'.list found) :=
    (List.perm_ext_iff_of_nodup (o.nodup found) (o'.nodup found)).mpr fun key => by rw [o.mem,o'.mem]
  have ours : ∀ key ∈ o.list found, ((entry key).map view).isSome = true := by
    intro key member
    rw [Option.isSome_map]
    exact stored key ((o.mem found key).mp member)
  have theirs : ∀ key ∈ o'.list found, (entry key).isSome = true := fun key member =>
    stored key ((o'.mem found key).mp member)
  have answered := answer_ok known ours (by rw [length]; exact fits)
  have answered' := answer_ok known' theirs (by rw [length]; exact fits)
  refine ⟨_,_,answered,answered',?_⟩
  rw [length,length]
  split
  · refine ⟨?_,newestFirst_sorted _,newestFirst_sorted _⟩
    refine (newestFirst_perm _).trans ((same.filterMap _).trans ?_)
    rw [← List.map_filterMap]
    exact (newestFirst_perm _).symm.map _
  · exact ⟨List.Perm.refl _,List.Pairwise.nil,List.Pairwise.nil⟩

/-! ### The prefix of the keys -/

theorem strip_fullKey {key : String} (clear : PythonText.contains "episode:" key = false) : strip (fullKey key) = key := by
  have plain : ¬"episode:".toList <:+: key.toList := by
    intro inside
    rw [(PythonText.contains_iff _ _).mpr inside] at clear
    cases clear
  have pieces : PythonText.split "episode:" (fullKey key) = ["",key] := by
    simp only [PythonText.split,fullKey,String.toList_append]
    rw [PythonText.cut_found _ _ (by decide),PythonText.cut_clear plain]
    simp
  rw [strip,pieces]
  simp [String.join]

theorem fullKey_inj {key other : String} : fullKey key = fullKey other ↔ key = other := String.append_right_inj _

end IceOS.EpisodicMemory
