import Mathlib.Algebra.GroupWithZero.Nat
import Mathlib.Data.List.Nodup
import Mathlib.Logic.Function.Iterate

/-! Dictionaries that remember the order in which their keys were first set, as
association lists without a repeated key. Setting a present key keeps its place. -/

/-- A key occurs once; the field makes a dictionary with two values for one key unbuildable. -/
structure OrderedDict (κ α : Type) where
  items : List (κ × α)
  nodup : (items.map Prod.fst).Nodup

namespace OrderedDict

variable {κ α : Type} [DecidableEq κ]

def insert (k : κ) (v : α) : List (κ × α) → List (κ × α)
  | [] => [(k,v)]
  | (j,w) :: rest => if j = k then (k,v) :: rest else (j,w) :: insert k v rest

theorem insert_keys (k : κ) (v : α) (items : List (κ × α)) :
    (insert k v items).map Prod.fst =
      if k ∈ items.map Prod.fst then items.map Prod.fst else items.map Prod.fst ++ [k] := by
  induction items with
  | nil => rfl
  | cons head rest ih =>
    obtain ⟨j,w⟩ := head
    by_cases same : j = k
    · simp [insert,same]
    · simp only [insert,same,if_false,List.map_cons,ih,List.mem_cons,Ne.symm same,false_or]
      split <;> rfl

theorem insert_nodup (k : κ) (v : α) {items : List (κ × α)} (nodup : (items.map Prod.fst).Nodup) :
    ((insert k v items).map Prod.fst).Nodup := by
  rw [insert_keys]
  split
  · exact nodup
  · next fresh =>
    exact List.nodup_append.mpr ⟨nodup,List.nodup_singleton k,fun a inA b inB =>
      (List.mem_singleton.mp inB).symm ▸ fun same => fresh (same ▸ inA)⟩

theorem lookup_cons_other {j k : κ} (w : α) (rest : List (κ × α)) (other : k ≠ j) :
    ((j,w) :: rest).lookup k = rest.lookup k := by
  simp [List.lookup_cons,beq_false_of_ne other]

theorem lookup_insert (k j : κ) (v : α) (items : List (κ × α)) :
    (insert k v items).lookup j = if k = j then some v else items.lookup j := by
  induction items with
  | nil =>
    by_cases same : k = j
    · simp [insert,same]
    · simp [insert,same,lookup_cons_other v [] (Ne.symm same)]
  | cons head rest ih =>
    obtain ⟨i,w⟩ := head
    by_cases here : k = j
    · subst j
      by_cases same : i = k
      · simp [insert,same]
      · simp only [insert,same,if_false,lookup_cons_other w _ (Ne.symm same),ih]
    · by_cases same : i = k
      · subst i; simp [insert,here,lookup_cons_other _ rest (Ne.symm here)]
      · by_cases at_j : j = i
        · subst i; simp [insert,same,here]
        · simp only [insert,same,if_false,lookup_cons_other w _ at_j,ih]

def empty : OrderedDict κ α := ⟨[],List.nodup_nil⟩

def get? (d : OrderedDict κ α) (k : κ) : Option α := d.items.lookup k

def keys (d : OrderedDict κ α) : List κ := d.items.map Prod.fst

def set (d : OrderedDict κ α) (k : κ) (v : α) : OrderedDict κ α :=
  ⟨insert k v d.items,insert_nodup k v d.nodup⟩

def setDefault (d : OrderedDict κ α) (k : κ) (v : α) : OrderedDict κ α :=
  if (d.get? k).isSome then d else d.set k v

def erase (d : OrderedDict κ α) (k : κ) : OrderedDict κ α :=
  ⟨d.items.filter fun item => item.1 ≠ k,(List.filter_sublist.map Prod.fst).nodup d.nodup⟩

def restrict (d : OrderedDict κ α) (keep : κ → Prop) [DecidablePred keep] : OrderedDict κ α :=
  ⟨d.items.filter fun item => keep item.1,(List.filter_sublist.map Prod.fst).nodup d.nodup⟩

/-- `popitem(last=False)`, without the item. -/
def dropFirst (d : OrderedDict κ α) : OrderedDict κ α :=
  ⟨d.items.tail,((List.tail_sublist d.items).map Prod.fst).nodup d.nodup⟩

/-- Later entries win, as in a dictionary display. -/
def update (d : OrderedDict κ α) (entries : List (κ × α)) : OrderedDict κ α :=
  entries.foldl (fun d entry => d.set entry.1 entry.2) d

def ofList (entries : List (κ × α)) : OrderedDict κ α := empty.update entries

@[simp] theorem get?_empty (k : κ) : (empty : OrderedDict κ α).get? k = none := rfl
omit [DecidableEq κ] in
@[simp] theorem keys_empty : (empty : OrderedDict κ α).keys = [] := rfl

theorem get?_set (d : OrderedDict κ α) (k j : κ) (v : α) :
    (d.set k v).get? j = if k = j then some v else d.get? j := lookup_insert k j v d.items

@[simp] theorem get?_set_same (d : OrderedDict κ α) (k : κ) (v : α) : (d.set k v).get? k = some v := by
  simp [get?_set]

@[simp] theorem get?_set_other (d : OrderedDict κ α) {k j : κ} (v : α) (other : k ≠ j) :
    (d.set k v).get? j = d.get? j := by
  simp [get?_set,other]

theorem get?_set_eq_update (d : OrderedDict κ α) (k : κ) (v : α) :
    (d.set k v).get? = Function.update d.get? k (some v) := by
  funext j
  simp only [get?_set,Function.update_apply,eq_comm]

theorem keys_set (d : OrderedDict κ α) (k : κ) (v : α) :
    (d.set k v).keys = if k ∈ d.keys then d.keys else d.keys ++ [k] := insert_keys k v d.items

@[simp] theorem mem_keys_set (d : OrderedDict κ α) (k j : κ) (v : α) :
    j ∈ (d.set k v).keys ↔ j = k ∨ j ∈ d.keys := by
  rw [keys_set]
  split
  · next present => exact ⟨.inr,fun h => h.elim (fun same => same ▸ present) id⟩
  · simp [or_comm]

theorem mem_keys (d : OrderedDict κ α) (k : κ) : k ∈ d.keys ↔ (d.get? k).isSome = true := by
  simp [keys,get?,List.lookup_isSome_iff]

theorem get?_eq_none (d : OrderedDict κ α) (k : κ) : d.get? k = none ↔ k ∉ d.keys := by
  rw [mem_keys,Option.not_isSome_iff_eq_none]

omit [DecidableEq κ] in
theorem keys_nodup (d : OrderedDict κ α) : d.keys.Nodup := d.nodup

theorem get?_eq_some (d : OrderedDict κ α) (k : κ) (v : α) : d.get? k = some v ↔ (k,v) ∈ d.items := by
  obtain ⟨items,nodup⟩ := d
  simp only [get?]
  induction items with
  | nil => simp
  | cons head rest ih =>
    obtain ⟨j,w⟩ := head
    obtain ⟨fresh,nodup⟩ := List.nodup_cons.mp nodup
    by_cases same : k = j
    · subst k
      have absent : (j,v) ∉ rest := fun later => fresh (List.mem_map.mpr ⟨(j,v),later,rfl⟩)
      simp [absent,eq_comm]
    · rw [lookup_cons_other w rest same,ih nodup]
      simp [same]

theorem get?_erase_eq_update (d : OrderedDict κ α) (k : κ) :
    (d.erase k).get? = Function.update d.get? k none := by
  funext j
  apply Option.ext
  intro v
  rw [get?_eq_some,Function.update_apply]
  split
  · next same => simp [erase,same]
  · next other => simp [erase,other,get?_eq_some]

theorem get?_erase (d : OrderedDict κ α) (k j : κ) : (d.erase k).get? j = if k = j then none else d.get? j := by
  rw [get?_erase_eq_update,Function.update_apply]
  by_cases same : k = j
  · rw [if_pos same,if_pos same.symm]
  · rw [if_neg same,if_neg (Ne.symm same)]

theorem keys_erase (d : OrderedDict κ α) (k : κ) : (d.erase k).keys = d.keys.filter (· ≠ k) := by
  simp only [keys,erase,List.filter_map]
  rfl

/-- What holds of the new entry and of all others holds of all entries. -/
theorem forall_set {prop : κ → α → Prop} {d : OrderedDict κ α} {k : κ} {v : α} (own : prop k v)
    (all : ∀ j w, d.get? j = some w → prop j w) : ∀ j w, (d.set k v).get? j = some w → prop j w := by
  intro j w found
  rw [get?_set] at found
  split at found
  · next same =>
    cases found
    exact same ▸ own
  · exact all j w found

theorem forall_erase {prop : κ → α → Prop} {d : OrderedDict κ α} (all : ∀ j w, d.get? j = some w → prop j w) (k : κ) :
    ∀ j w, (d.erase k).get? j = some w → prop j w := by
  intro j w found
  rw [get?_erase] at found
  split at found
  · cases found
  · exact all j w found

omit [DecidableEq κ] in
theorem ext_items {d e : OrderedDict κ α} (items : d.items = e.items) : d = e := by
  cases d
  cases e
  cases items
  rfl

theorem erase_eq_self {d : OrderedDict κ α} {k : κ} (absent : k ∉ d.keys) : d.erase k = d := by
  refine ext_items (List.filter_eq_self.mpr fun item member => decide_eq_true fun same => absent ?_)
  exact List.mem_map.mpr ⟨item,member,same⟩

theorem get?_restrict (d : OrderedDict κ α) (keep : κ → Prop) [DecidablePred keep] (k : κ) :
    (d.restrict keep).get? k = if keep k then d.get? k else none := by
  apply Option.ext
  intro v
  rw [get?_eq_some]
  split
  · next kept => simp [restrict,kept,get?_eq_some]
  · next dropped => simp [restrict,dropped]

/-- What a key shows does not change when it is given a default. -/
theorem get?_setDefault (d : OrderedDict κ α) (k j : κ) (v : α) :
    (d.setDefault k v).get? j = (d.get? j).or (if k = j then some v else none) := by
  simp only [setDefault]
  cases present : d.get? k with
  | some w =>
    by_cases same : k = j
    · cases same
      simp [present]
    · simp [same]
  | none =>
    by_cases same : k = j
    · cases same
      simp [present]
    · simp [same]

theorem get?_setDefault_known {d : OrderedDict κ α} {j : κ} {w : α} (known : d.get? j = some w) (k : κ) (v : α) :
    (d.setDefault k v).get? j = some w := by
  rw [get?_setDefault,known]
  rfl

/-- Two dictionaries with the same keys in the same order and the same values are equal. -/
theorem ext_get? {d e : OrderedDict κ α} (keys : d.keys = e.keys) (values : d.get? = e.get?) : d = e := by
  have items : d.items = e.items := by
    refine List.ext_getElem (by simpa [OrderedDict.keys] using congrArg List.length keys) fun i left right => ?_
    have key : (d.items[i]).1 = (e.items[i]).1 := by
      have at_i := congrArg (·[i]?) keys
      simpa [OrderedDict.keys,left,right] using at_i
    have value : d.get? (d.items[i]).1 = some (d.items[i]).2 := (d.get?_eq_some _ _).mpr (List.getElem_mem left)
    have value' : e.get? (e.items[i]).1 = some (e.items[i]).2 := (e.get?_eq_some _ _).mpr (List.getElem_mem right)
    rw [key,values,value'] at value
    exact Prod.ext key (Option.some.inj value).symm
  exact ext_items items

/-- Setting a key to the value that it has changes nothing. -/
theorem set_eq_self {d : OrderedDict κ α} {k : κ} {v : α} (known : d.get? k = some v) : d.set k v = d := by
  apply ext_get?
  · rw [keys_set]
    refine if_pos ((mem_keys d k).mpr ?_)
    rw [known]
    rfl
  · funext j
    by_cases same : k = j
    · subst same
      rw [get?_set_same,known]
    · exact get?_set_other d v same

theorem mem_keys_update (d : OrderedDict κ α) (entries : List (κ × α)) (k : κ) :
    k ∈ (d.update entries).keys ↔ k ∈ d.keys ∨ k ∈ entries.map Prod.fst := by
  induction entries generalizing d with
  | nil => simp [update]
  | cons entry rest ih =>
    have later := ih (d.set entry.1 entry.2)
    simp only [update,List.foldl_cons] at later ⊢
    rw [later]
    simp only [mem_keys_set,List.map_cons,List.mem_cons]
    tauto

@[simp] theorem mem_keys_ofList (entries : List (κ × α)) (k : κ) :
    k ∈ (ofList entries).keys ↔ k ∈ entries.map Prod.fst := by
  simp [ofList,mem_keys_update]

/-- Every value of an updated dictionary was set or was there before. -/
theorem get?_update (d : OrderedDict κ α) (entries : List (κ × α)) {k : κ} {v : α}
    (found : (d.update entries).get? k = some v) : (k,v) ∈ entries ∨ d.get? k = some v := by
  induction entries generalizing d with
  | nil => exact .inr found
  | cons entry rest ih =>
    rcases ih (d.set entry.1 entry.2) found with later | here
    · exact .inl (List.mem_cons_of_mem entry later)
    · rw [get?_set] at here
      split at here
      · next same =>
        left
        obtain ⟨key,value⟩ := entry
        cases same
        cases here
        exact List.mem_cons_self
      · exact .inr here

theorem get?_ofList (entries : List (κ × α)) {k : κ} {v : α}
    (found : (ofList entries).get? k = some v) : (k,v) ∈ entries :=
  (get?_update empty entries found).resolve_right (by simp)

theorem insert_fresh (k : κ) (v : α) (items : List (κ × α)) (fresh : k ∉ items.map Prod.fst) :
    insert k v items = items ++ [(k,v)] := by
  induction items with
  | nil => rfl
  | cons head rest ih =>
    obtain ⟨ne,fresh⟩ := List.ne_and_not_mem_of_not_mem_cons fresh
    simp [insert,Ne.symm ne,ih fresh]

theorem set_erase_items (d : OrderedDict κ α) (k : κ) (v : α) :
    ((d.erase k).set k v).items = (d.erase k).items ++ [(k,v)] := by
  apply insert_fresh
  simp [erase]

theorem update_items (d : OrderedDict κ α) (entries : List (κ × α))
    (nodup : (d.keys ++ entries.map Prod.fst).Nodup) :
    (d.update entries).items = d.items ++ entries := by
  induction entries generalizing d with
  | nil => simp [update]
  | cons entry rest ih =>
    rw [List.map_cons,List.append_cons] at nodup
    have fresh : entry.1 ∉ d.keys := fun member =>
      (List.nodup_append.mp (List.nodup_append.mp nodup).1).2.2 entry.1 member entry.1 (by simp) rfl
    have items : (d.set entry.1 entry.2).items = d.items ++ [entry] := insert_fresh _ _ _ fresh
    have keys : (d.set entry.1 entry.2).keys = d.keys ++ [entry.1] := by simp [keys_set,fresh]
    calc ((d.set entry.1 entry.2).update rest).items
        = (d.set entry.1 entry.2).items ++ rest := ih _ (by rw [keys]; exact nodup)
      _ = d.items ++ entry :: rest := by simp [items]

/-- Without repeated keys a dictionary display keeps its entries as they stand. -/
theorem ofList_items (entries : List (κ × α)) (nodup : (entries.map Prod.fst).Nodup) :
    (ofList entries).items = entries :=
  update_items empty entries nodup

/-- What a dictionary of lists made from distinct keys holds under a key. -/
theorem mem_getD_ofList {β γ : Type} (key : β → κ) (values : β → List γ) {xs : List β} (distinct : (xs.map key).Nodup)
    (k : κ) (v : γ) :
    v ∈ ((ofList (xs.map fun x => (key x,values x))).get? k).getD [] ↔ ∃ x ∈ xs, key x = k ∧ v ∈ values x := by
  have keys : ((xs.map fun x => (key x,values x)).map Prod.fst).Nodup := by rwa [List.map_map]
  have known (vs : List γ) : (ofList (xs.map fun x => (key x,values x))).get? k = some vs ↔
      ∃ x ∈ xs, key x = k ∧ values x = vs := by
    rw [get?_eq_some,ofList_items _ keys]
    simp
  constructor
  · intro member
    cases found : (ofList (xs.map fun x => (key x,values x))).get? k with
    | none => simp [found] at member
    | some vs =>
      obtain ⟨x,inside,own,rfl⟩ := (known vs).mp found
      exact ⟨x,inside,own,by simpa [found] using member⟩
  · rintro ⟨x,inside,own,member⟩
    rw [(known (values x)).mpr ⟨x,inside,own,rfl⟩]
    exact member

theorem getD_ofList_absent {β γ : Type} (key : β → κ) (values : β → List γ) {xs : List β} {k : κ}
    (absent : k ∉ xs.map key) : ((ofList (xs.map fun x => (key x,values x))).get? k).getD [] = [] := by
  have fresh : k ∉ (ofList (xs.map fun x => (key x,values x))).keys := by simpa [mem_keys_ofList] using absent
  rw [(get?_eq_none _ _).mpr fresh]
  rfl

theorem get?_update_items (d e : OrderedDict κ α) (k : κ) :
    (d.update e.items).get? k = (e.get? k).or (d.get? k) := by
  obtain ⟨items,nodup⟩ := e
  simp only [get?]
  induction items generalizing d with
  | nil => rfl
  | cons head rest ih =>
    obtain ⟨j,v⟩ := head
    obtain ⟨fresh,nodup⟩ := List.nodup_cons.mp nodup
    have later : ((d.set j v).update rest).get? k = (rest.lookup k).or ((d.set j v).get? k) :=
      ih (d.set j v) nodup
    simp only [update,List.foldl_cons] at later ⊢
    refine later.trans ?_
    by_cases same : k = j
    · subst k
      have absent : rest.lookup j = none := by
        rw [List.lookup_eq_none_iff]
        intro p member
        exact bne_iff_ne.mpr fun eq => fresh (List.mem_map.mpr ⟨p,member,eq.symm⟩)
      simp [absent]
    · rw [lookup_cons_other v rest same,get?_set_other d v (Ne.symm same)]
      rfl

/-- The last entry for a key is the one that counts. -/
theorem get?_update_reverse (d : OrderedDict κ α) (entries : List (κ × α)) (k : κ) :
    (d.update entries).get? k = (entries.reverse.lookup k).or (d.get? k) := by
  induction entries generalizing d with
  | nil => rfl
  | cons entry rest ih =>
    have later := ih (d.set entry.1 entry.2)
    have first : [entry].lookup k = if entry.1 = k then some entry.2 else none := by
      obtain ⟨j,v⟩ := entry
      by_cases same : j = k
      · simp [same]
      · simp [same,lookup_cons_other v [] (Ne.symm same)]
    simp only [update,List.foldl_cons] at later ⊢
    rw [later,List.reverse_cons,List.lookup_append,first,get?_set]
    by_cases same : entry.1 = k <;> cases rest.reverse.lookup k <;> simp [same]

/-- An entry of a display is the last one for its key. -/
theorem get?_ofList_eq_some (entries : List (κ × α)) (k : κ) (v : α) : (ofList entries).get? k = some v ↔
    ∃ before after, entries = before ++ (k,v) :: after ∧ k ∉ after.map Prod.fst := by
  rw [ofList,get?_update_reverse,get?_empty,Option.or_none,List.lookup_eq_some_iff]
  constructor
  · rintro ⟨after,before,parts,later⟩
    refine ⟨before.reverse,after.reverse,by simpa using congrArg List.reverse parts,fun member => ?_⟩
    obtain ⟨entry,inside,same⟩ := List.mem_map.mp member
    exact bne_iff_ne.mp (later entry (List.mem_reverse.mp inside)) same.symm
  · rintro ⟨before,after,rfl,last⟩
    refine ⟨after.reverse,before.reverse,by simp,fun entry member => bne_iff_ne.mpr fun same => last ?_⟩
    exact List.mem_map.mpr ⟨entry,List.mem_reverse.mp member,same.symm⟩

theorem get?_update_ofList (d : OrderedDict κ α) (entries : List (κ × α)) (k : κ) :
    (d.update entries).get? k = ((ofList entries).get? k).or (d.get? k) := by
  rw [ofList,get?_update_reverse,get?_update_reverse,get?_empty,Option.or_none]

/-! ### Leaving out several keys -/

theorem get?_foldl_erase (d : OrderedDict κ α) (gone : List κ) (k : κ) :
    (gone.foldl erase d).get? k = if k ∈ gone then none else d.get? k := by
  induction gone generalizing d with
  | nil => simp
  | cons j gone ih =>
    rw [List.foldl_cons,ih,get?_erase_eq_update,Function.update_apply]
    by_cases same : k = j <;> simp [same]

theorem foldl_erase_sublist (d : OrderedDict κ α) (gone : List κ) : (gone.foldl erase d).items.Sublist d.items := by
  induction gone generalizing d with
  | nil => exact List.Sublist.refl d.items
  | cons j gone ih => exact (ih (d.erase j)).trans List.filter_sublist

omit [DecidableEq κ] in
theorem dropFirst_iterate_items (d : OrderedDict κ α) (n : Nat) : (dropFirst^[n] d).items = d.items.drop n := by
  induction n generalizing d with
  | zero => rfl
  | succ n ih => rw [Function.iterate_succ_apply,ih,dropFirst,List.drop_tail]

/-! ### Entries up to order -/

/-- Up to order, a key that is set is an entry taken out and put in front. -/
theorem set_items_perm (d : OrderedDict κ α) (k : κ) (v : α) :
    (d.set k v).items.Perm ((k,v) :: (d.erase k).items) := by
  obtain ⟨items,nodup⟩ := d
  simp only [set,erase]
  induction items with
  | nil => simp [insert]
  | cons head rest ih =>
    obtain ⟨j,w⟩ := head
    obtain ⟨fresh,nodup⟩ := List.nodup_cons.mp nodup
    by_cases same : j = k
    · subst j
      have others : (rest.filter fun item => item.1 ≠ k) = rest :=
        List.filter_eq_self.mpr fun item member =>
          decide_eq_true fun eq => fresh (List.mem_map.mpr ⟨item,member,eq⟩)
      simp only [insert,if_true,List.filter_cons,ne_eq,not_true_eq_false,decide_false,Bool.false_eq_true,if_false]
      exact (List.Perm.of_eq others.symm).cons _
    · simp only [insert,same,if_false,List.filter_cons,ne_eq,not_false_eq_true,decide_true,if_true]
      exact ((ih nodup).cons _).trans (.swap _ _ _)

/-- An entry under a key of its own stays beside whatever else is set. -/
theorem update_items_perm {d e : OrderedDict κ α} {k : κ} {v : α} (beside : e.items.Perm ((k,v) :: d.items))
    (entries : List (κ × α)) (fresh : k ∉ entries.map Prod.fst) :
    (e.update entries).items.Perm ((k,v) :: (d.update entries).items) := by
  induction entries generalizing d e with
  | nil => exact beside
  | cons entry rest ih =>
    obtain ⟨other,fresh⟩ := List.ne_and_not_mem_of_not_mem_cons fresh
    refine ih ?_ fresh
    calc (e.set entry.1 entry.2).items.Perm (entry :: (e.erase entry.1).items) := set_items_perm e entry.1 entry.2
      List.Perm _ (entry :: (k,v) :: (d.erase entry.1).items) := by
        refine .cons _ ((beside.filter _).trans (.of_eq ?_))
        simp [erase,other]
      List.Perm _ ((k,v) :: entry :: (d.erase entry.1).items) := .swap _ _ _
      List.Perm _ ((k,v) :: (d.set entry.1 entry.2).items) := (set_items_perm d entry.1 entry.2).symm.cons _

theorem ofList_middle_perm {k : κ} (v : α) {left right : List (κ × α)} (fresh : k ∉ (left ++ right).map Prod.fst) :
    (ofList (left ++ (k,v) :: right)).items.Perm ((k,v) :: (ofList (left ++ right)).items) := by
  rw [List.map_append,List.mem_append,not_or] at fresh
  have absent : k ∉ (ofList left).keys := by rw [mem_keys_ofList]; exact fresh.1
  have beside := set_items_perm (ofList left) k v
  rw [erase_eq_self absent] at beside
  simpa [ofList,update] using update_items_perm beside right fresh.2

/-! ### Mapping the values -/

def mapValues (f : α → β) (d : OrderedDict κ α) : OrderedDict κ β :=
  ⟨d.items.map fun item => (item.1,f item.2),by simpa [Function.comp_def] using d.nodup⟩

theorem get?_mapValues (f : α → β) (d : OrderedDict κ α) (k : κ) : (d.mapValues f).get? k = (d.get? k).map f := by
  obtain ⟨items,nodup⟩ := d
  simp only [get?,mapValues]
  clear nodup
  induction items with
  | nil => rfl
  | cons head rest ih =>
    obtain ⟨j,v⟩ := head
    by_cases same : k = j
    · simp [same]
    · rw [List.map_cons,lookup_cons_other (f v) _ same,lookup_cons_other v rest same,ih]

omit [DecidableEq κ] in
@[simp] theorem keys_mapValues (f : α → β) (d : OrderedDict κ α) : (d.mapValues f).keys = d.keys := by
  simp only [keys,mapValues,List.map_map]
  rfl

theorem insert_map (f : α → β) (k : κ) (v : α) (items : List (κ × α)) :
    (insert k v items).map (fun item => (item.1,f item.2)) =
      insert k (f v) (items.map fun item => (item.1,f item.2)) := by
  induction items with
  | nil => rfl
  | cons head rest ih =>
    obtain ⟨j,w⟩ := head
    by_cases same : j = k
    · simp [insert,same]
    · simp [insert,same,ih]

theorem mapValues_set (f : α → β) (d : OrderedDict κ α) (k : κ) (v : α) :
    (d.set k v).mapValues f = (d.mapValues f).set k (f v) := by
  simp only [set,mapValues,insert_map]

omit [DecidableEq κ] in
theorem mapValues_mapValues {γ : Type} (f : α → β) (g : β → γ) (d : OrderedDict κ α) :
    (d.mapValues f).mapValues g = d.mapValues fun v => g (f v) := by
  simp only [mapValues,List.map_map]
  rfl

theorem mapValues_eq_self {f : α → α} {d : OrderedDict κ α} (same : ∀ k v, d.get? k = some v → f v = v) :
    d.mapValues f = d := by
  have items : d.items.map (fun item => (item.1,f item.2)) = d.items := by
    rw [List.map_congr_left (g := id) fun item member => ?_,List.map_id]
    rw [same item.1 item.2 ((get?_eq_some d item.1 item.2).mpr member)]
    rfl
  simp only [mapValues,items]

/-- A display of mapped values is the mapped display. -/
theorem ofList_mapValues (f : α → β) (entries : List (κ × α)) :
    ofList (entries.map fun entry => (entry.1,f entry.2)) = (ofList entries).mapValues f := by
  have step (d : OrderedDict κ α) :
      (d.mapValues f).update (entries.map fun entry => (entry.1,f entry.2)) = (d.update entries).mapValues f := by
    induction entries generalizing d with
    | nil => rfl
    | cons entry rest ih =>
      have later := ih (d.set entry.1 entry.2)
      rw [mapValues_set] at later
      exact later
  exact step empty

end OrderedDict
