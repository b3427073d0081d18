import IceOS.ControlFlow

/-! How the outputs of the branches of a parallel node are merged. An output that is a list is an object, to which
merging may append; the object is also what the branch reports. -/
namespace IceOS.ParallelMerge

/-- An output: a list object, by its place among them, or anything else. -/
inductive Output (ν : Type) where
  | list (place : Nat)
  | other (v : ν)
  deriving DecidableEq, Repr

/-- What `gather` gives for a branch: the outputs of its nodes, or the text of its exception. -/
abbrev Branch (ν : Type) := Except String (OrderedDict String (Output ν))

structure Gathered (ν : Type) where
  lists : List (List (Output ν))
  branches : List (Branch ν)
  placed : ∀ results, .ok results ∈ branches → ∀ id place, (id,.list place) ∈ results.items → place < lists.length

structure Merging (ν : Type) where
  lists : List (List (Output ν))
  merged : OrderedDict String (Output ν) := .empty

variable {ν : Type}

/-- What is not a list is first put into a new one. -/
def mergeOutput (s : Merging ν) (entry : String × Output ν) : Merging ν :=
  match s.merged.get? entry.1 with
  | none => { s with merged := s.merged.set entry.1 entry.2 }
  | some (.list place) => { s with lists := s.lists.modify place (· ++ [entry.2]) }
  | some (.other v) =>
    { lists := s.lists ++ [[.other v,entry.2]],merged := s.merged.set entry.1 (.list s.lists.length) }

/-- An exception is reported as a dictionary with the key `branch_error`, by which it is told from outputs. -/
def mergeable : Branch ν → List (String × Output ν)
  | .error _ => []
  | .ok results => if "branch_error" ∈ results.keys then [] else results.items

def merge (g : Gathered ν) : Merging ν :=
  g.branches.foldl (fun s branch => (mergeable branch).foldl mergeOutput s) { lists := g.lists }

/-- The outputs under an id, in the order of the branches. -/
def outputs (g : Gathered ν) (id : String) : List (Output ν) :=
  g.branches.filterMap fun branch => branch.toOption.bind (·.get? id)

/-- The outputs are all there, and the objects that they are have not changed. -/
structure Preserved (g : Gathered ν) : Prop where
  single : ∀ id v, outputs g id = [v] → (merge g).merged.get? id = some v
  several : ∀ id, 2 ≤ (outputs g id).length →
    ∃ place, (merge g).merged.get? id = some (.list place) ∧ (merge g).lists[place]? = some (outputs g id)
  unmodified : ∀ place < g.lists.length, (merge g).lists[place]? = g.lists[place]?

/-! ### What merging collects -/

def under {α : Type} (id : String) (entries : List (String × α)) : List α :=
  (entries.filter (·.1 = id)).map Prod.snd

theorem under_append {α : Type} (id : String) (first second : List (String × α)) :
    under id (first ++ second) = under id first ++ under id second := by
  simp [under]

theorem under_single {α : Type} (id : String) (entry : String × α) :
    under id [entry] = if entry.1 = id then [entry.2] else [] := by
  by_cases same : entry.1 = id <;> simp [under,same]

theorem under_snoc {α : Type} (id : String) (done : List (String × α)) (entry : String × α) :
    under id (done ++ [entry]) = under id done ++ if entry.1 = id then [entry.2] else [] := by
  rw [under_append,under_single]

theorem under_items {α : Type} (d : OrderedDict String α) (id : String) : under id d.items = (d.get? id).toList := by
  obtain ⟨items,nodup⟩ := d
  induction items with
  | nil => rfl
  | cons entry rest ih =>
    obtain ⟨key,v⟩ := entry
    obtain ⟨fresh,nodup⟩ := List.nodup_cons.mp nodup
    have later : under id rest = (rest.lookup id).toList := ih nodup
    change under id ([(key,v)] ++ rest) = (List.lookup id ((key,v) :: rest)).toList
    rw [under_append,under_single]
    by_cases same : key = id
    · subst same
      have none : under key rest = [] := by
        rw [under,List.map_eq_nil_iff,List.filter_eq_nil_iff]
        intro other member
        have apart : other.1 ≠ key := fun same => fresh (List.mem_map.mpr ⟨other,member,same⟩)
        simpa using apart
      rw [List.lookup_cons_self,none,if_pos rfl]
      rfl
    · rw [OrderedDict.lookup_cons_other v rest (Ne.symm same),if_neg same,later]
      rfl

/-- What there is under an id. The first output stays there, in a new list if there are others and it is none. -/
def Stands (lists : List (List (Output ν))) (s : Merging ν) (id : String) : List (Output ν) → Prop
  | [] => s.merged.get? id = none
  | [v] => s.merged.get? id = some v
  | .list place :: _ :: _ => s.merged.get? id = some (.list place)
  | .other v :: w :: later => ∃ place, lists.length ≤ place ∧ s.merged.get? id = some (.list place) ∧
      s.lists[place]? = some (.other v :: w :: later)

/-- What there is after some entries. An old object has changed if it is the first of several outputs. -/
structure Merged (lists : List (List (Output ν))) (done : List (String × Output ν)) (s : Merging ν) : Prop where
  grown : lists.length ≤ s.lists.length
  stands : ∀ id, Stands lists s id (under id done)
  inside : ∀ id place, s.merged.get? id = some (.list place) → place < s.lists.length
  apart : ∀ id id' place, lists.length ≤ place → s.merged.get? id = some (.list place) →
    s.merged.get? id' = some (.list place) → id = id'
  kept : ∀ place (old : place < lists.length), ∃ more, s.lists[place]? = some (lists[place] ++ more) ∧
    (more = [] ↔ ∀ id later, under id done = .list place :: later → later = [])

section

variable (s : Merging ν) (entry : String × Output ν)

theorem mergeOutput_get?_other {id : String} (other : entry.1 ≠ id) :
    (mergeOutput s entry).merged.get? id = s.merged.get? id := by
  unfold mergeOutput
  split
  · exact OrderedDict.get?_set_other _ _ other
  · rfl
  · exact OrderedDict.get?_set_other _ _ other

theorem mergeOutput_lists_other {place : Nat} (inside : place < s.lists.length)
    (other : s.merged.get? entry.1 ≠ some (.list place)) :
    (mergeOutput s entry).lists[place]? = s.lists[place]? := by
  unfold mergeOutput
  split
  · rfl
  · next changed found =>
    exact List.getElem?_modify_ne _ _ fun same => other (found.trans (congrArg (some ∘ Output.list) same))
  · exact List.getElem?_append_left inside

/-- A list that is found was there before, or is the output itself, or is new. -/
theorem mergeOutput_found {id : String} {place : Nat}
    (found : (mergeOutput s entry).merged.get? id = some (.list place)) :
    s.merged.get? id = some (.list place) ∨ entry.2 = .list place ∨
      entry.1 = id ∧ place = s.lists.length ∧ (mergeOutput s entry).lists.length = s.lists.length + 1 := by
  by_cases own : entry.1 = id
  · subst own
    unfold mergeOutput at found ⊢
    split at found
    · right
      left
      simpa using found
    · next there =>
      left
      exact found
    · right
      right
      simp at found
      simp [found]
  · left
    rwa [mergeOutput_get?_other s entry own] at found

theorem mergeOutput_grows : s.lists.length ≤ (mergeOutput s entry).lists.length := by
  unfold mergeOutput
  split
  · exact le_rfl
  · rw [List.length_modify]
  · simp

end

variable {lists : List (List (Output ν))} {done : List (String × Output ν)} {s : Merging ν}

theorem Stands.list_iff {id : String} {vs : List (Output ν)} (stands : Stands lists s id vs) {place : Nat}
    (old : place < lists.length) : s.merged.get? id = some (.list place) ↔ ∃ later, vs = .list place :: later := by
  cases vs with
  | nil =>
    have none : s.merged.get? id = none := stands
    simp [none]
  | cons v later =>
    cases later with
    | nil =>
      have only : s.merged.get? id = some v := stands
      simp [only]
    | cons w later =>
      cases v with
      | list first =>
        have first : s.merged.get? id = some (.list first) := stands
        simp [first]
      | other v =>
        obtain ⟨new,fresh,found,_⟩ := stands
        have other : new ≠ place := by omega
        simp [found,other]

theorem Stands.frame {id : String} {vs : List (Output ν)} (stands : Stands lists s id vs)
    {entry : String × Output ν} (other : entry.1 ≠ id)
    (apart : ∀ id id' place, lists.length ≤ place → s.merged.get? id = some (.list place) →
      s.merged.get? id' = some (.list place) → id = id') : Stands lists (mergeOutput s entry) id vs := by
  have same := mergeOutput_get?_other s entry other
  cases vs with
  | nil => exact same.trans stands
  | cons v later =>
    cases later with
    | nil => exact same.trans stands
    | cons w later =>
      cases v with
      | list first => exact same.trans stands
      | other v =>
        obtain ⟨place,fresh,found,kept⟩ := stands
        refine ⟨place,fresh,same.trans found,?_⟩
        rw [mergeOutput_lists_other s entry (List.getElem?_eq_some_iff.mp kept).1,kept]
        exact fun own => other (apart _ _ place fresh own found)

/-- The entry itself joins what there is under its id. -/
theorem Merged.own (merged : Merged lists done s) (entry : String × Output ν) :
    Stands lists (mergeOutput s entry) entry.1 (under entry.1 done ++ [entry.2]) := by
  have stands := merged.stands entry.1
  have grown := merged.grown
  cases before : under entry.1 done with
  | nil =>
    rw [before] at stands
    have none : s.merged.get? entry.1 = none := stands
    simp [mergeOutput,none,Stands]
  | cons v later =>
    rw [before] at stands
    cases later with
    | nil =>
      have only : s.merged.get? entry.1 = some v := stands
      cases v with
      | list place => simp [mergeOutput,only,Stands]
      | other v =>
        refine ⟨s.lists.length,grown,?_,?_⟩
        · simp [mergeOutput,only]
        · simp [mergeOutput,only]
    | cons w later =>
      cases v with
      | list place =>
        have first : s.merged.get? entry.1 = some (.list place) := stands
        simp [mergeOutput,first,Stands]
      | other v =>
        obtain ⟨place,fresh,found,kept⟩ := stands
        refine ⟨place,fresh,?_,?_⟩
        · simp [mergeOutput,found]
        · simp [mergeOutput,found,kept]

/-- A new list is under one id only, after the entry as before. -/
theorem Merged.apart_step (merged : Merged lists done s) (entry : String × Output ν)
    (placed : ∀ place, entry.2 = .list place → place < lists.length) {id id' : String} {place : Nat}
    (fresh : lists.length ≤ place) (found : (mergeOutput s entry).merged.get? id = some (.list place))
    (found' : (mergeOutput s entry).merged.get? id' = some (.list place)) : id = id' := by
  rcases mergeOutput_found s entry found with before | output | ⟨own,new,_⟩
  · rcases mergeOutput_found s entry found' with before' | output | ⟨_,new,_⟩
    · exact merged.apart id id' place fresh before before'
    · exact absurd (placed place output) (Nat.not_lt.mpr fresh)
    · exact absurd (merged.inside id place before) (by omega)
  · exact absurd (placed place output) (Nat.not_lt.mpr fresh)
  · rcases mergeOutput_found s entry found' with before' | output | ⟨own',_,_⟩
    · exact absurd (merged.inside id' place before') (by omega)
    · exact absurd (placed place output) (Nat.not_lt.mpr fresh)
    · exact own.symm.trans own'

/-- Where the entry does not come to the object, nothing is added that makes it the first of several outputs. -/
theorem Merged.alone_iff (merged : Merged lists done s) (entry : String × Output ν) {place : Nat}
    (old : place < lists.length) (other : s.merged.get? entry.1 ≠ some (.list place)) :
    (∀ id later, under id (done ++ [entry]) = .list place :: later → later = []) ↔
      ∀ id later, under id done = .list place :: later → later = [] := by
  apply forall_congr'
  intro id
  rw [under_snoc]
  by_cases own : entry.1 = id
  · subst own
    rw [if_pos rfl]
    have first := (merged.stands entry.1).list_iff old
    cases before : under entry.1 done with
    | nil => simp
    | cons v later =>
      rw [before] at first
      constructor
      · rintro - later' same
        exact absurd (first.mpr ⟨later',same⟩) other
      · rintro - later' same
        obtain ⟨rfl,_⟩ := List.cons.inj same
        exact absurd (first.mpr ⟨later,rfl⟩) other
  · rw [if_neg own,List.append_nil]

theorem Merged.kept_step (merged : Merged lists done s) (entry : String × Output ν) (place : Nat)
    (old : place < lists.length) : ∃ more, (mergeOutput s entry).lists[place]? = some (lists[place] ++ more) ∧
      (more = [] ↔ ∀ id later, under id (done ++ [entry]) = .list place :: later → later = []) := by
  obtain ⟨more,now,unchanged⟩ := merged.kept place old
  by_cases held : s.merged.get? entry.1 = some (.list place)
  · obtain ⟨later,before⟩ := ((merged.stands entry.1).list_iff old).mp held
    refine ⟨more ++ [entry.2],?_,?_⟩
    · simp [mergeOutput,held,now]
    · refine iff_of_false (by simp) fun alone => ?_
      have none := alone entry.1 (later ++ [entry.2]) (by rw [under_snoc,if_pos rfl,before,List.cons_append])
      simp at none
  · refine ⟨more,?_,?_⟩
    · rw [mergeOutput_lists_other s entry (Nat.lt_of_lt_of_le old merged.grown) held,now]
    · rw [unchanged,merged.alone_iff entry old held]

theorem Merged.step (merged : Merged lists done s) (entry : String × Output ν)
    (placed : ∀ place, entry.2 = .list place → place < lists.length) :
    Merged lists (done ++ [entry]) (mergeOutput s entry) where
  grown := merged.grown.trans (mergeOutput_grows s entry)
  stands id := by
    rw [under_snoc]
    by_cases same : entry.1 = id
    · subst same
      rw [if_pos rfl]
      exact merged.own entry
    · rw [if_neg same,List.append_nil]
      exact (merged.stands id).frame same merged.apart
  inside id place found := by
    have grows := mergeOutput_grows s entry
    rcases mergeOutput_found s entry found with before | output | ⟨_,new,longer⟩
    · exact Nat.lt_of_lt_of_le (merged.inside id place before) grows
    · exact Nat.lt_of_lt_of_le (placed place output) (merged.grown.trans grows)
    · omega
  apart _ _ _ fresh found found' := merged.apart_step entry placed fresh found found'
  kept := merged.kept_step entry

theorem Merged.run (merged : Merged lists done s) (todo : List (String × Output ν))
    (placed : ∀ id place, (id,.list place) ∈ todo → place < lists.length) :
    Merged lists (done ++ todo) (todo.foldl mergeOutput s) := by
  induction todo generalizing done s with
  | nil => rwa [List.append_nil]
  | cons entry rest ih =>
    have first := merged.step entry fun place output => placed entry.1 place (by simp [← output])
    have all := ih first fun id place member => placed id place (List.mem_cons_of_mem entry member)
    rwa [List.append_assoc] at all

theorem merged_start (lists : List (List (Output ν))) : Merged lists [] { lists } where
  grown := le_rfl
  stands _ := OrderedDict.get?_empty _
  inside id place found := by simp at found
  apart id id' place _ found _ := by simp at found
  kept place old := ⟨[],by simp,by simp [under]⟩

/-! ### When it loses nothing -/

theorem merge_merged (g : Gathered ν) : Merged g.lists (g.branches.flatMap mergeable) (merge g) := by
  have all := (merged_start g.lists).run (g.branches.flatMap mergeable) fun id place member => by
    obtain ⟨branch,inside,listed⟩ := List.mem_flatMap.mp member
    cases branch with
    | error e => cases listed
    | ok results =>
      simp only [mergeable] at listed
      split at listed
      · cases listed
      · exact g.placed results inside id place listed
  rwa [List.nil_append,List.foldl_flatMap] at all

/-- No node of a branch that ran has the id by which failed branches are told. -/
def Told (g : Gathered ν) : Prop := ∀ results, .ok results ∈ g.branches → "branch_error" ∉ results.keys

theorem under_mergeable {g : Gathered ν} (told : Told g) (id : String) :
    under id (g.branches.flatMap mergeable) = outputs g id := by
  rw [outputs]
  have each (branches : List (Branch ν)) (inside : branches ⊆ g.branches) : under id (branches.flatMap mergeable) =
      branches.filterMap fun branch => branch.toOption.bind (·.get? id) := by
    induction branches with
    | nil => rfl
    | cons branch rest ih =>
      obtain ⟨here,later⟩ := List.cons_subset.mp inside
      rw [List.flatMap_cons,under_append,ih later]
      cases branch with
      | error e => rfl
      | ok results =>
        rw [mergeable,if_neg (told results here),under_items]
        cases found : results.get? id with
        | none => simp [Except.toOption,found]
        | some v => simp [Except.toOption,found]
  exact each g.branches (List.Subset.refl _)

/-- A node called `branch_error` is not merged at all. -/
theorem under_branch_error (g : Gathered ν) : under "branch_error" (g.branches.flatMap mergeable) = [] := by
  rw [under,List.map_eq_nil_iff,List.filter_eq_nil_iff]
  intro entry member
  obtain ⟨branch,_,listed⟩ := List.mem_flatMap.mp member
  cases branch with
  | error e => cases listed
  | ok results =>
    simp only [mergeable] at listed
    split at listed
    · cases listed
    · next unnamed =>
      simp only [decide_eq_true_eq]
      exact fun same => unnamed (same ▸ List.mem_map_of_mem listed)

theorem told_of_preserved {g : Gathered ν} (preserved : Preserved g) : Told g := by
  intro results ran named
  have none : (merge g).merged.get? "branch_error" = none := by
    have stands := (merge_merged g).stands "branch_error"
    rw [under_branch_error] at stands
    exact stands
  have some : ∃ v, results.get? "branch_error" = some v := Option.isSome_iff_exists.mp ((results.mem_keys _).mp named)
  obtain ⟨v,found⟩ := some
  have listed : v ∈ outputs g "branch_error" := List.mem_filterMap.mpr ⟨_,ran,found⟩
  cases all : outputs g "branch_error" with
  | nil => simp [all] at listed
  | cons w later =>
    cases later with
    | nil => simp [preserved.single _ w all] at none
    | cons =>
      obtain ⟨place,there,_⟩ := preserved.several "branch_error" (by simp [all])
      simp [there] at none

/-- A list that is the first of several outputs is changed. -/
theorem alone_of_preserved {g : Gathered ν} (preserved : Preserved g) {id : String} {place : Nat}
    {later : List (Output ν)} (first : outputs g id = .list place :: later) : later = [] := by
  have told := told_of_preserved preserved
  have old : place < g.lists.length := by
    have member : .list place ∈ outputs g id := by simp [first]
    obtain ⟨branch,ran,found⟩ := List.mem_filterMap.mp member
    cases branch with
    | error e => cases found
    | ok results => exact g.placed results ran id place ((results.get?_eq_some id _).mp found)
  obtain ⟨more,now,unchanged⟩ := (merge_merged g).kept place old
  rw [preserved.unmodified place old,List.getElem?_eq_getElem old,Option.some.injEq,List.self_eq_append_right] at now
  rw [← under_mergeable told] at first
  exact unchanged.mp now id later first

/-- Nothing is lost exactly if no node is called `branch_error` and no list is the first of several outputs under
one id. -/
theorem merge_preserved_iff (g : Gathered ν) :
    Preserved g ↔ Told g ∧ ∀ id place later, outputs g id = .list place :: later → later = [] := by
  constructor
  · intro preserved
    exact ⟨told_of_preserved preserved,fun _ _ _ first => alone_of_preserved preserved first⟩
  · rintro ⟨told,alone⟩
    have merged := merge_merged g
    refine ⟨fun id v only => ?_,fun id several => ?_,fun place old => ?_⟩
    · have stands := merged.stands id
      rw [under_mergeable told,only] at stands
      exact stands
    · have stands := merged.stands id
      rw [under_mergeable told] at stands
      cases all : outputs g id with
      | nil => simp [all] at several
      | cons v later =>
        cases later with
        | nil => simp [all] at several
        | cons w later =>
          cases v with
          | list place => exact absurd (alone id place _ all) (List.cons_ne_nil w later)
          | other v =>
            rw [all] at stands
            obtain ⟨place,_,there,shown⟩ := stands
            exact ⟨place,there,shown⟩
    · obtain ⟨more,now,unchanged⟩ := merged.kept place old
      rw [now,unchanged.mpr fun id later first => alone id place later (under_mergeable told id ▸ first)]
      simp [old]

/-! ### The values of the outputs -/

/-- What merging values puts under an id: more values go into a list that comes first. -/
def collected : List Value → Option Value
  | [] => none
  | [v] => some v
  | .list items :: w :: later => some (.list (items ++ w :: later))
  | v :: w :: later => some (.list (v :: w :: later))

theorem collected_snoc (vs : List Value) (v : Value) : collected (vs ++ [v]) =
    match collected vs with
    | none => some v
    | some (.list items) => some (.list (items ++ [v]))
    | some other => some (.list [other,v]) := by
  cases vs with
  | nil => rfl
  | cons first later =>
    cases later with
    | nil => cases first <;> rfl
    | cons w later => cases first <;> simp [collected]

theorem foldl_mergeOutput_get? (entries : List (String × Value)) (id : String) :
    (entries.foldl ExecutorRuntime.mergeOutput .empty).get? id = collected (under id entries) := by
  induction entries using List.reverseRecOn generalizing id with
  | nil => rfl
  | append_singleton done entry ih =>
    rw [List.foldl_append,under_append,under_single,List.foldl_cons,List.foldl_nil]
    have before := ih entry.1
    by_cases own : entry.1 = id
    · subst own
      rw [if_pos rfl,collected_snoc,ExecutorRuntime.mergeOutput,before]
      cases collected (under entry.1 done) with
      | none => simp
      | some other => cases other <;> simp
    · rw [if_neg own,List.append_nil,← ih id,ExecutorRuntime.mergeOutput]
      split <;> exact OrderedDict.get?_set_other _ _ own

/-- The branch results as values. -/
def reported (shows : Output ν → Value) : Nat → List (Branch ν) → List Context
  | _,[] => []
  | index,.error text :: rest =>
    .ofList [("branch_error",.str text),("branch_index",.int index)] :: reported shows (index + 1) rest
  | index,.ok results :: rest => results.mapValues shows :: reported shows (index + 1) rest

theorem reported_mergeable (shows : Output ν → Value) (index : Nat) (branches : List (Branch ν)) :
    ((reported shows index branches).filter fun results => "branch_error" ∉ results.keys).flatMap (·.items) =
      (branches.flatMap mergeable).map fun entry => (entry.1,shows entry.2) := by
  induction branches generalizing index with
  | nil => rfl
  | cons branch rest ih =>
    rw [List.flatMap_cons,List.map_append,← ih (index + 1)]
    cases branch with
    | error text =>
      have told : "branch_error" ∈ (OrderedDict.ofList [("branch_error",Value.str text),
        ("branch_index",.int index)]).keys := by simp
      simp [reported,mergeable,told]
    | ok results =>
      by_cases named : "branch_error" ∈ results.keys
      · simp [reported,mergeable,named]
      · have kept : "branch_error" ∉ (results.mapValues shows).keys := by rwa [OrderedDict.keys_mapValues]
        rw [reported,List.filter_cons_of_pos (by simpa using kept),List.flatMap_cons,mergeable,if_neg named]
        rfl

/-- What the outputs under an id are merged to. -/
def shown (shows : Output ν → Value) : List (Output ν) → Option Value
  | [] => none
  | [v] => some (shows v)
  | vs => some (.list (vs.map shows))

/-- Merging values gives what the merged objects show, where nothing is lost. -/
theorem mergeOutputs_shown {g : Gathered ν} (preserved : Preserved g) (shows : Output ν → Value)
    (plain : ∀ v items, shows (.other v) ≠ .list items) (id : String) :
    (ExecutorRuntime.mergeOutputs (reported shows 0 g.branches)).get? id = shown shows (outputs g id) := by
  have values : under id ((g.branches.flatMap mergeable).map fun entry => (entry.1,shows entry.2)) =
      (outputs g id).map shows := by
    rw [← under_mergeable (told_of_preserved preserved)]
    simp only [under,List.filter_map,List.map_map]
    rfl
  rw [ExecutorRuntime.mergeOutputs,← List.foldl_flatMap,reported_mergeable,foldl_mergeOutput_get?,values]
  cases all : outputs g id with
  | nil => rfl
  | cons v later =>
    cases later with
    | nil => rfl
    | cons w later =>
      cases v with
      | list place => cases alone_of_preserved preserved all
      | other v =>
        rw [List.map_cons,List.map_cons,collected]
        · rfl
        · exact plain v

/-- Two branches with a node `n`; the first has the list `[1]` for it. -/
def listFirst : Gathered Int where
  lists := [[.other 1]]
  branches := [.ok (.ofList [("n",.list 0)]),.ok (.ofList [("n",.other 2)])]
  placed := by
    intro results ran id place listed
    rcases List.mem_cons.mp ran with first | later
    · cases first
      obtain ⟨-,same⟩ := Prod.mk.inj (List.mem_singleton.mp listed)
      cases same
      decide
    · cases List.mem_singleton.mp later
      cases List.mem_singleton.mp listed

/-- Merged it is `[1, 2]` and not `[[1], 2]`, and that is also what the first branch then reports. -/
theorem listFirst_lost : ¬∀ g : Gathered Int, Preserved g := by
  intro preserved
  have unmodified := (preserved listFirst).unmodified 0 (by decide)
  revert unmodified
  decide +kernel

end IceOS.ParallelMerge
