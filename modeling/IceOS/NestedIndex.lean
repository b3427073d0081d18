import IceOS.OrderedDict

/-! Indexes of two levels, from an outer and an inner key to a list, as nested default dictionaries. Lists and
inner dictionaries that become empty are removed. -/

abbrev NestedIndex (κ ι γ : Type) := OrderedDict κ (OrderedDict ι (List γ))

namespace NestedIndex

variable {κ ι γ : Type} [DecidableEq κ] [DecidableEq ι]

def list (idx : NestedIndex κ ι γ) (a : κ) (b : ι) : List γ := ((idx.get? a).bind fun inner => inner.get? b).getD []

/-- `idx[a][b].append(x)` -/
def append (idx : NestedIndex κ ι γ) (a : κ) (b : ι) (x : γ) : NestedIndex κ ι γ :=
  idx.set a (((idx.get? a).getD .empty).set b (idx.list a b ++ [x]))

/-- `del inner[b]` in the inner dictionary of `a`, which goes too if nothing is left. -/
def discard (idx : NestedIndex κ ι γ) (a : κ) (inner : OrderedDict ι (List γ)) (b : ι) : NestedIndex κ ι γ :=
  if (inner.erase b).items.isEmpty then idx.erase a else idx.set a (inner.erase b)

def drop (idx : NestedIndex κ ι γ) (a : κ) (b : ι) : NestedIndex κ ι γ :=
  match idx.get? a with
  | none => idx
  | some inner => if (inner.get? b).isSome then idx.discard a inner b else idx

/-- `idx[a][b].remove(x)` where there is a list, which goes if nothing is left; `none` is a `ValueError`. -/
def remove? [DecidableEq γ] (idx : NestedIndex κ ι γ) (a : κ) (b : ι) (x : γ) : Option (NestedIndex κ ι γ) :=
  match idx.get? a with
  | none => some idx
  | some inner =>
    match inner.get? b with
    | none => some idx
    | some items =>
      if x ∉ items then none
      else if (items.erase x).isEmpty then some (idx.discard a inner b)
      else some (idx.set a (inner.set b (items.erase x)))

/-- Nothing that is empty is kept. -/
def Compact (idx : NestedIndex κ ι γ) : Prop :=
  ∀ a inner, idx.get? a = some inner → inner.items ≠ [] ∧ ∀ b items, inner.get? b = some items → items ≠ []

theorem list_set (idx : NestedIndex κ ι γ) (a c : κ) (inner : OrderedDict ι (List γ)) (d : ι) :
    NestedIndex.list (OrderedDict.set idx a inner) c d = if a = c then (inner.get? d).getD [] else idx.list c d := by
  simp only [list,OrderedDict.get?_set]
  split
  · rfl
  · rfl

theorem list_discard {idx : NestedIndex κ ι γ} {a : κ} {inner : OrderedDict ι (List γ)} (found : idx.get? a = some inner)
    (b : ι) (c : κ) (d : ι) : (idx.discard a inner b).list c d = if a = c ∧ b = d then [] else idx.list c d := by
  have inside : ((inner.erase b).get? d).getD [] = if b = d then [] else idx.list a d := by
    rw [OrderedDict.get?_erase_eq_update,Function.update_apply]
    by_cases same : b = d
    · simp [same]
    · simp [same,Ne.symm same,list,found]
  unfold discard
  split
  · next empty =>
    have nothing : (inner.erase b).get? d = none := by
      rw [OrderedDict.get?,List.isEmpty_iff.mp empty]
      rfl
    rw [nothing] at inside
    by_cases same : a = c
    · subst same
      have gone : (idx.erase a).get? a = none := by
        rw [OrderedDict.get?_erase_eq_update,Function.update_self]
      rw [list,gone]
      by_cases at_d : b = d
      · simp [at_d]
      · rw [if_neg at_d] at inside
        simp [at_d,← inside]
    · simp only [list,OrderedDict.get?_erase_eq_update,Function.update_of_ne (Ne.symm same),same,false_and,if_false]
  · rw [list_set,inside]
    by_cases same : a = c
    · subst same
      simp
    · simp [same]

@[simp] theorem list_empty (a : κ) (b : ι) : NestedIndex.list (OrderedDict.empty : NestedIndex κ ι γ) a b = [] := rfl

theorem list_append (idx : NestedIndex κ ι γ) (a c : κ) (b d : ι) (x : γ) :
    (idx.append a b x).list c d = if a = c ∧ b = d then idx.list a b ++ [x] else idx.list c d := by
  rw [append,list_set]
  by_cases same : a = c
  · subst same
    rw [OrderedDict.get?_set]
    by_cases at_d : b = d
    · simp [at_d]
    · simp only [at_d,and_false,if_true,if_false,list]
      cases idx.get? a with
      | none => rfl
      | some inner => rfl
  · simp [same]

/-- An index with other keys and items shows the same after the same is appended to both. -/
theorem list_foldl_append_map {κ' ι' γ' τ : Type} [DecidableEq κ'] [DecidableEq ι'] {f : κ → κ'} {g : ι → ι'} {h : γ → γ'}
    (outer : f.Injective) (inner : g.Injective) (place : τ → κ × ι × γ) (items : List τ) {idx : NestedIndex κ ι γ}
    {idx' : NestedIndex κ' ι' γ'} (shows : ∀ a b, idx'.list (f a) (g b) = (idx.list a b).map h) (a : κ) (b : ι) :
    (items.foldl (fun idx' item => idx'.append (f (place item).1) (g (place item).2.1) (h (place item).2.2)) idx').list
        (f a) (g b) =
      ((items.foldl (fun idx item => idx.append (place item).1 (place item).2.1 (place item).2.2) idx).list a b).map h := by
  induction items generalizing idx idx' with
  | nil => exact shows a b
  | cons item rest ih =>
    rw [List.foldl_cons,List.foldl_cons]
    refine ih fun c d => ?_
    simp only [list_append,outer.eq_iff,inner.eq_iff]
    split
    · rw [shows,List.map_append]
      rfl
    · exact shows c d

theorem list_drop (idx : NestedIndex κ ι γ) (a c : κ) (b d : ι) :
    (idx.drop a b).list c d = if a = c ∧ b = d then [] else idx.list c d := by
  unfold drop
  cases found : idx.get? a with
  | none =>
    by_cases same : a = c ∧ b = d
    · obtain ⟨rfl,rfl⟩ := same
      simp [list,found]
    · rw [if_neg same]
  | some inner =>
    dsimp only
    split
    · exact list_discard found b c d
    · next absent =>
      by_cases same : a = c ∧ b = d
      · obtain ⟨rfl,rfl⟩ := same
        simp [list,found,Option.not_isSome_iff_eq_none.mp absent]
      · rw [if_neg same]

theorem list_mapValues_erase (idx : NestedIndex κ ι γ) (b : ι) (a : κ) (d : ι) :
    NestedIndex.list (OrderedDict.mapValues (fun inner => OrderedDict.erase inner b) idx) a d =
      if b = d then [] else idx.list a d := by
  simp only [list,OrderedDict.get?_mapValues]
  cases idx.get? a with
  | none => simp
  | some inner =>
    simp only [Option.map_some,Option.bind_some,OrderedDict.get?_erase_eq_update,Function.update_apply]
    by_cases same : b = d
    · simp [same]
    · simp [same,Ne.symm same]

section Removal

variable [DecidableEq γ]

theorem list_remove {idx t : NestedIndex κ ι γ} {a : κ} {b : ι} {x : γ} (removed : idx.remove? a b x = some t) (c : κ)
    (d : ι) : t.list c d = if a = c ∧ b = d then (idx.list c d).erase x else idx.list c d := by
  have idle (nothing : idx.list a b = []) : idx.list c d = if a = c ∧ b = d then (idx.list c d).erase x else idx.list c d := by
    split
    · next same =>
      obtain ⟨rfl,rfl⟩ := same
      rw [nothing]
      rfl
    · rfl
  unfold remove? at removed
  cases found : idx.get? a with
  | none =>
    rw [found] at removed
    cases removed
    exact idle (by simp [list,found])
  | some inner =>
    simp only [found] at removed
    cases held : inner.get? b with
    | none =>
      rw [held] at removed
      cases removed
      exact idle (by simp [list,found,held])
    | some items =>
      have here : idx.list a b = items := by simp [list,found,held]
      simp only [held] at removed
      split at removed
      · cases removed
      · split at removed
        · next empty =>
          cases removed
          rw [list_discard found]
          split
          · next same =>
            obtain ⟨rfl,rfl⟩ := same
            rw [here,List.isEmpty_iff.mp empty]
          · rfl
        · cases removed
          rw [list_set]
          by_cases same : a = c
          · subst same
            rw [OrderedDict.get?_set]
            by_cases at_d : b = d
            · subst at_d
              simp [here]
            · simp [at_d,list,found]
          · simp [same]

/-- An item that is listed can be removed. -/
theorem remove_isSome {idx : NestedIndex κ ι γ} {a : κ} {b : ι} {x : γ} (listed : x ∈ idx.list a b) :
    ∃ t, idx.remove? a b x = some t := by
  unfold remove?
  cases found : idx.get? a with
  | none => exact ⟨_,rfl⟩
  | some inner =>
    dsimp only
    cases held : inner.get? b with
    | none => exact ⟨_,rfl⟩
    | some items =>
      have here : idx.list a b = items := by simp [list,found,held]
      rw [here] at listed
      simp only [listed,not_true,if_false]
      split
      · exact ⟨_,rfl⟩
      · exact ⟨_,rfl⟩

/-- `idx[a][b].remove(x)`, if it is there at all. -/
def removeIfListed (idx : NestedIndex κ ι γ) (a : κ) (b : ι) (x : γ) : NestedIndex κ ι γ := (idx.remove? a b x).getD idx

theorem list_removeIfListed (idx : NestedIndex κ ι γ) (a c : κ) (b d : ι) (x : γ) :
    (idx.removeIfListed a b x).list c d = if a = c ∧ b = d then (idx.list c d).erase x else idx.list c d := by
  unfold removeIfListed
  cases removed : idx.remove? a b x with
  | some t => exact list_remove removed c d
  | none =>
    have absent : x ∉ idx.list a b := by
      intro listed
      obtain ⟨t,other⟩ := remove_isSome listed
      cases removed.symm.trans other
    split
    · next same =>
      obtain ⟨rfl,rfl⟩ := same
      exact (List.erase_of_not_mem absent).symm
    · rfl

/-! ### One item under several inner keys -/

theorem count_foldl_append (a : κ) (x : γ) (places : List ι) (idx : NestedIndex κ ι γ) (c : κ) (d : ι) (y : γ) :
    ((places.foldl (fun idx b => idx.append a b x) idx).list c d).count y =
      (idx.list c d).count y + if a = c ∧ x = y then places.count d else 0 := by
  induction places generalizing idx with
  | nil => simp
  | cons b rest ih =>
    rw [List.foldl_cons,ih,list_append]
    by_cases same : a = c ∧ b = d
    · obtain ⟨rfl,rfl⟩ := same
      by_cases item : x = y
      · subst item
        simp only [and_self,if_true,List.count_append,List.count_cons_self,List.count_nil]
        omega
      · simp [item]
    · rw [if_neg same]
      by_cases here : a = c ∧ x = y
      · have other : b ≠ d := fun eq => same ⟨here.1,eq⟩
        simp only [here,and_self,if_true,List.count_cons_of_ne other]
      · simp only [if_neg here]

theorem count_foldl_removeIfListed (a : κ) (x : γ) (places : List ι) (idx : NestedIndex κ ι γ) (c : κ) (d : ι) (y : γ) :
    ((places.foldl (fun idx b => idx.removeIfListed a b x) idx).list c d).count y =
      (idx.list c d).count y - if a = c ∧ x = y then places.count d else 0 := by
  induction places generalizing idx with
  | nil => simp
  | cons b rest ih =>
    rw [List.foldl_cons,ih,list_removeIfListed]
    by_cases same : a = c ∧ b = d
    · obtain ⟨rfl,rfl⟩ := same
      by_cases item : x = y
      · subst item
        simp only [and_self,if_true,List.count_erase_self,List.count_cons_self]
        omega
      · simp [item,List.count_erase_of_ne (Ne.symm item)]
    · rw [if_neg same]
      by_cases here : a = c ∧ x = y
      · have other : b ≠ d := fun eq => same ⟨here.1,eq⟩
        simp only [here,and_self,if_true,List.count_cons_of_ne other]
      · simp only [if_neg here]

theorem count_append (idx : NestedIndex κ ι γ) (a c : κ) (b d : ι) (x y : γ) :
    ((idx.append a b x).list c d).count y = (idx.list c d).count y + if x = y then if a = c ∧ b = d then 1 else 0 else 0 := by
  have one := count_foldl_append a x [b] idx c d y
  rw [List.foldl_cons,List.foldl_nil,List.count_singleton] at one
  rw [one]
  by_cases same : x = y <;> by_cases outer : a = c <;> simp [same,outer]

theorem count_removeIfListed (idx : NestedIndex κ ι γ) (a c : κ) (b d : ι) (x y : γ) :
    ((idx.removeIfListed a b x).list c d).count y =
      (idx.list c d).count y - if x = y then if a = c ∧ b = d then 1 else 0 else 0 := by
  have one := count_foldl_removeIfListed a x [b] idx c d y
  rw [List.foldl_cons,List.foldl_nil,List.count_singleton] at one
  rw [one]
  by_cases same : x = y <;> by_cases outer : a = c <;> simp [same,outer]

theorem count_eq_of_nodup {items : List γ} (nodup : items.Nodup) (x : γ) :
    items.count x = if items.contains x then 1 else 0 := by
  split
  · next member => exact List.count_eq_one_of_mem nodup (List.contains_iff_mem.mp member)
  · next absent => exact List.count_eq_zero.mpr fun member => absent (List.contains_iff_mem.mpr member)

end Removal

/-! ### Appending until an item is refused -/

/-- Every item goes to its place. One that is refused leaves the index as `touch` does. -/
@[grind =] def appendAll {τ : Type} (refused : τ → Bool) (touch : τ → NestedIndex κ ι γ → NestedIndex κ ι γ)
    (place : τ → κ × ι × γ) : List τ → NestedIndex κ ι γ → Except (NestedIndex κ ι γ) (NestedIndex κ ι γ)
  | [], idx => .ok idx
  | item :: rest, idx =>
    if refused item then .error (touch item idx)
    else appendAll refused touch place rest (idx.append (place item).1 (place item).2.1 (place item).2.2)

section Refusal

variable {τ : Type} {refused : τ → Bool} {touch : τ → NestedIndex κ ι γ → NestedIndex κ ι γ} {place : τ → κ × ι × γ}

theorem appendAll_accepted {items : List τ} (accepted : ∀ item ∈ items, refused item = false) (idx : NestedIndex κ ι γ) :
    appendAll refused touch place items idx =
      .ok (items.foldl (fun idx item => idx.append (place item).1 (place item).2.1 (place item).2.2) idx) := by
  induction items generalizing idx with
  | nil => rfl
  | cons item rest ih =>
    simp only [appendAll,accepted item List.mem_cons_self,Bool.false_eq_true,if_false,List.foldl_cons]
    exact ih (fun other member => accepted other (List.mem_cons_of_mem item member)) _

theorem appendAll_refused {items : List τ} {item : τ} (member : item ∈ items) (refuses : refused item = true)
    (idx : NestedIndex κ ι γ) : ∃ left, appendAll refused touch place items idx = .error left := by
  induction items generalizing idx with
  | nil => cases member
  | cons first rest ih =>
    simp only [appendAll]
    split
    · exact ⟨_,rfl⟩
    · next accepted =>
      rcases List.mem_cons.mp member with rfl | later
      · exact absurd refuses accepted
      · exact ih later _

theorem appendAll_isOk_iff (items : List τ) (idx : NestedIndex κ ι γ) :
    (∃ left, appendAll refused touch place items idx = .ok left) ↔ ∀ item ∈ items, refused item = false := by
  constructor
  · rintro ⟨left,ok⟩ item member
    rw [← Bool.not_eq_true]
    intro refuses
    obtain ⟨left,error⟩ := appendAll_refused member refuses idx
    cases ok.symm.trans error
  · intro accepted
    exact ⟨_,appendAll_accepted accepted idx⟩

/-- Nothing that is listed gets lost. -/
theorem appendAll_length (touches : ∀ item idx c d, (touch item idx).list c d = idx.list c d) (items : List τ)
    {idx left : NestedIndex κ ι γ}
    (ended : appendAll refused touch place items idx = .ok left ∨ appendAll refused touch place items idx = .error left)
    (c : κ) (d : ι) : (idx.list c d).length ≤ (left.list c d).length := by
  induction items generalizing idx with
  | nil =>
    rcases ended with ok | error
    · cases ok
      exact Nat.le_refl _
    · cases error
  | cons item rest ih =>
    simp only [appendAll] at ended
    split at ended
    · rcases ended with ok | error
      · cases ok
      · cases error
        exact Nat.le_of_eq (congrArg List.length (touches item idx c d).symm)
    · refine Nat.le_trans ?_ (ih ended)
      rw [list_append]
      split
      · next same =>
        obtain ⟨rfl,rfl⟩ := same
        rw [List.length_append]
        exact Nat.le_add_right _ _
      · exact Nat.le_refl _

theorem appendAll_changes (touches : ∀ item idx c d, (touch item idx).list c d = idx.list c d) {item : τ}
    (accepted : refused item = false) (rest : List τ) {idx left : NestedIndex κ ι γ}
    (ended : appendAll refused touch place (item :: rest) idx = .ok left ∨
      appendAll refused touch place (item :: rest) idx = .error left) : left ≠ idx := by
  rintro rfl
  simp only [appendAll,accepted,Bool.false_eq_true,if_false] at ended
  have longer := appendAll_length touches rest ended (place item).1 (place item).2.1
  rw [list_append,if_pos ⟨rfl,rfl⟩,List.length_append,List.length_singleton] at longer
  omega

theorem appendAll_error_self_iff (touches : ∀ item idx c d, (touch item idx).list c d = idx.list c d) (items : List τ)
    (idx : NestedIndex κ ι γ) : appendAll refused touch place items idx = .error idx ↔
      ∃ item rest, items = item :: rest ∧ refused item = true ∧ touch item idx = idx := by
  cases items with
  | nil => simp [appendAll]
  | cons item rest =>
    cases refuses : refused item with
    | true => simp [appendAll,refuses]
    | false =>
      constructor
      · intro error
        exact absurd rfl (appendAll_changes touches refuses rest (.inr error))
      · rintro ⟨other,_,same,refused,_⟩
        cases same
        cases refuses.symm.trans refused

end Refusal

/-! ### Compactness -/

theorem compact_empty : NestedIndex.Compact (OrderedDict.empty : NestedIndex κ ι γ) := by
  intro a inner found
  cases found

theorem compact_set {idx : NestedIndex κ ι γ} (compact : idx.Compact) {a : κ} {inner : OrderedDict ι (List γ)}
    (filled : inner.items ≠ []) (lists : ∀ b items, inner.get? b = some items → items ≠ []) :
    NestedIndex.Compact (OrderedDict.set idx a inner) :=
  OrderedDict.forall_set ⟨filled,lists⟩ compact

theorem compact_discard {idx : NestedIndex κ ι γ} (compact : idx.Compact) {a : κ} {inner : OrderedDict ι (List γ)}
    (found : idx.get? a = some inner) (b : ι) : (idx.discard a inner b).Compact := by
  unfold discard
  split
  · exact OrderedDict.forall_erase compact a
  · next left =>
    refine compact_set compact (fun empty => left (List.isEmpty_iff.mpr empty)) ?_
    exact OrderedDict.forall_erase (compact a inner found).2 b

theorem set_items_ne_nil (inner : OrderedDict ι (List γ)) (b : ι) (items : List γ) : (inner.set b items).items ≠ [] := by
  intro empty
  have member : (b,items) ∈ (inner.set b items).items := (OrderedDict.get?_eq_some _ _ _).mp (OrderedDict.get?_set_same _ _ _)
  rw [empty] at member
  cases member

theorem compact_append {idx : NestedIndex κ ι γ} (compact : idx.Compact) (a : κ) (b : ι) (x : γ) :
    (idx.append a b x).Compact := by
  refine compact_set compact (set_items_ne_nil _ _ _) fun d items held => ?_
  rw [OrderedDict.get?_set] at held
  split at held
  · cases held
    simp
  · cases found : idx.get? a with
    | none =>
      rw [found] at held
      cases held
    | some inner =>
      rw [found] at held
      exact (compact a inner found).2 d items held

theorem compact_drop {idx : NestedIndex κ ι γ} (compact : idx.Compact) (a : κ) (b : ι) : (idx.drop a b).Compact := by
  unfold drop
  cases found : idx.get? a with
  | none => exact compact
  | some inner =>
    dsimp only
    split
    · exact compact_discard compact found b
    · exact compact

theorem compact_remove [DecidableEq γ] {idx t : NestedIndex κ ι γ} (compact : idx.Compact) {a : κ} {b : ι} {x : γ}
    (removed : idx.remove? a b x = some t) : t.Compact := by
  unfold remove? at removed
  cases found : idx.get? a with
  | none =>
    rw [found] at removed
    cases removed
    exact compact
  | some inner =>
    simp only [found] at removed
    cases held : inner.get? b with
    | none =>
      rw [held] at removed
      cases removed
      exact compact
    | some items =>
      simp only [held] at removed
      split at removed
      · cases removed
      · split at removed
        · cases removed
          exact compact_discard compact found b
        · next left =>
          cases removed
          refine compact_set compact (set_items_ne_nil _ _ _) (OrderedDict.forall_set ?_ (compact a inner found).2)
          exact fun empty => left (List.isEmpty_iff.mpr empty)

/-- The inner keys are those with something in their lists. -/
theorem mem_inner_keys {idx : NestedIndex κ ι γ} (compact : idx.Compact) (a : κ) (b : ι) :
    b ∈ ((idx.get? a).elim [] OrderedDict.keys) ↔ idx.list a b ≠ [] := by
  cases found : idx.get? a with
  | none => simp [list,found]
  | some inner =>
    simp only [Option.elim_some,OrderedDict.mem_keys,list,found,Option.bind_some]
    cases held : inner.get? b with
    | none => simp
    | some items => simpa using (compact a inner found).2 b items held

end NestedIndex
