import IceOS.ExceptRules
import IceOS.NodeModels
import Mathlib.Data.Finset.Lattice.Lemmas
import Mathlib.Logic.Relation

/-! The batches in which the workflows of a network manifest are run. -/
namespace IceOS

variable {ε : Type}

/-- Whatever else an entry says is kept with it. -/
structure WorkflowEntry (ε : Type) where
  ref : String
  id : Option String := none
  after : Option String := none
  extra : ε
  deriving DecidableEq

namespace WorkflowEntry

/-- An empty id counts as none, and so does an empty dependency. -/
def givenId (w : WorkflowEntry ε) : Option String := w.id.filter (· ≠ "")

def dependency (w : WorkflowEntry ε) : Option String := w.after.filter (· ≠ "")

def name (w : WorkflowEntry ε) : String := w.givenId.getD w.ref

end WorkflowEntry

namespace NetworkCoordinator

/-- Of entries with one id the last is meant. -/
def given (workflows : List (WorkflowEntry ε)) : OrderedDict String (WorkflowEntry ε) :=
  .ofList (workflows.zipIdx.map fun item => (item.1.givenId.getD ("idx_" ++ toString item.2),item.1))

def unknownDependency (dependency name : String) : Exn :=
  valueError ("Unknown dependency '" ++ dependency ++ "' in workflow '" ++ name ++ "'")

structure Visits (ε : Type) where
  ordered : List (WorkflowEntry ε) := []
  visited : Finset String := ∅

def Visits.place (s : Visits ε) (w : WorkflowEntry ε) : Visits ε := ⟨s.ordered ++ [w],insert w.name s.visited⟩

/-- Every call takes one of the frames that the interpreter has left. -/
def visit (given : OrderedDict String (WorkflowEntry ε)) : Nat → WorkflowEntry ε → Visits ε → Except Exn (Visits ε)
  | 0,_,_ => .error recursionError
  | frames + 1,w,s =>
    if w.name ∈ s.visited then .ok s
    else
      match w.dependency with
      | none => .ok (s.place w)
      | some dependency =>
        match given.get? dependency with
        | none => .error (unknownDependency dependency w.name)
        | some v => (visit given frames v s).map fun s => s.place w

/-- `_resolve_execution_order` -/
def resolveExecutionOrder (frames : Nat) (workflows : List (WorkflowEntry ε)) : Except Exn (List (WorkflowEntry ε)) :=
  (workflows.foldlM (fun s w => visit (given workflows) frames w s) {}).map (·.ordered)

section

variable [DecidableEq ε]

abbrev Counts (ε : Type) := OrderedDict (WorkflowEntry ε) Int

/-- The entries are the keys of the dictionary, if they have a hash. -/
def depCounts (hash : WorkflowEntry ε → Option Int) (order : List (WorkflowEntry ε)) : Except Exn (Counts ε) :=
  if order.all fun e => (hash e).isSome then
    .ok (order.foldl
      (fun counts e => if e.dependency.isSome then counts.set e ((counts.get? e).getD 0 + 1) else counts)
      (.ofList (order.map fun e => (e,0))))
  else .error (typeError "unhashable type: 'WorkflowEntry'")

/-- What comes after an entry waits for one less. -/
def release (order : List (WorkflowEntry ε)) (s : Counts ε × List (WorkflowEntry ε)) (e : WorkflowEntry ε) :
    Counts ε × List (WorkflowEntry ε) :=
  order.foldl
    (fun s other =>
      if other.after = some e.name then
        let count := (s.1.get? other).getD 0 - 1
        (s.1.set other count,if count = 0 then s.2 ++ [other] else s.2)
      else s)
    s

/-- After the first round every round has an entry whose count has become zero, so the rounds are no more than the
entries and one. -/
def batchesFrom (order : List (WorkflowEntry ε)) : Nat → List (WorkflowEntry ε) → Counts ε → List (List (WorkflowEntry ε))
  | 0,_,_ => []
  | rounds + 1,ready,counts =>
    if ready.isEmpty then []
    else
      let released := ready.foldl (release order) (counts,[])
      ready :: batchesFrom order rounds released.2 released.1

/-- `_resolve_execution_batches` -/
def resolveExecutionBatches (hash : WorkflowEntry ε → Option Int) (frames : Nat) (workflows : List (WorkflowEntry ε)) :
    Except Exn (List (List (WorkflowEntry ε))) :=
  (resolveExecutionOrder frames workflows).bind fun order =>
    (depCounts hash order).map fun counts =>
      batchesFrom order (order.length + 1) ((counts.items.filter (·.2 = 0)).map Prod.fst) counts

end

/-! ### What is asked of the batches -/

section

variable (workflows : List (WorkflowEntry ε))

def ComesAfter (w v : WorkflowEntry ε) : Prop :=
  ∃ dependency, w.dependency = some dependency ∧ (given workflows).get? dependency = some v

def Dangling (w : WorkflowEntry ε) (dependency : String) : Prop :=
  w.dependency = some dependency ∧ (given workflows).get? dependency = none

structure Sound : Prop where
  resolved : ∀ w ∈ workflows, ∀ dependency, ¬Dangling workflows w dependency
  acyclic : ∀ w ∈ workflows, ¬Relation.TransGen (ComesAfter workflows) w w

structure Batched (batches : List (List (WorkflowEntry ε))) : Prop where
  once : batches.flatten.Perm workflows
  later : ∀ earlier batch later, batches = earlier ++ batch :: later → ∀ w ∈ batch, ∀ v, ComesAfter workflows w v →
    v ∈ earlier.flatten

/-- The error is a `ValueError` that names a dependency of an entry for which it is dangling or cyclic. -/
def Descriptive (e : Exn) : Prop :=
  ∃ w ∈ workflows, ∃ dependency text, w.dependency = some dependency ∧
    (Dangling workflows w dependency ∨ Relation.TransGen (ComesAfter workflows) w w) ∧
    e = valueError text ∧ dependency.toList <:+: text.toList

def Scheduled [DecidableEq ε] (hash : WorkflowEntry ε → Option Int) (frames : Nat) : Prop :=
  (Sound workflows → ∃ batches, resolveExecutionBatches hash frames workflows = .ok batches ∧ Batched workflows batches) ∧
  (¬Sound workflows → ∃ e, resolveExecutionBatches hash frames workflows = .error e ∧ Descriptive workflows e)

/-! ### Walks along the dependencies -/

/-- A walk stops before a name that was passed on an earlier one. -/
inductive Leads (passed : Finset String) : WorkflowEntry ε → List (WorkflowEntry ε) → WorkflowEntry ε → Prop where
  | here (w : WorkflowEntry ε) : Leads passed w [] w
  | next {w v u : WorkflowEntry ε} {between : List (WorkflowEntry ε)} (new : w.name ∉ passed)
    (follows : ComesAfter workflows w v) (leads : Leads passed v between u) : Leads passed w (w :: between) u

/-- A walk of fewer than `frames` steps to a name that was passed or an entry without a dependency. -/
def Walk (frames : Nat) (passed : Finset String) (w : WorkflowEntry ε) (names : Finset String) : Prop :=
  ∃ between u, Leads workflows passed w between u ∧ between.length < frames ∧
    (u.name ∈ passed ∨ u.dependency = none) ∧ names = passed ∪ ((between ++ [u]).map WorkflowEntry.name).toFinset

/-- Walks from one entry after the other. -/
inductive Walks (frames : Nat) : Finset String → List (WorkflowEntry ε) → Finset String → Prop where
  | done (passed : Finset String) : Walks frames passed [] passed
  | next {passed names final : Finset String} {w : WorkflowEntry ε} {rest : List (WorkflowEntry ε)}
    (walk : Walk workflows frames passed w names) (walks : Walks frames names rest final) :
    Walks frames passed (w :: rest) final

/-- A walk of fewer than `frames` steps to a dangling dependency. -/
def Strays (frames : Nat) (passed : Finset String) (w : WorkflowEntry ε) (u : WorkflowEntry ε) (dependency : String) :
    Prop :=
  ∃ between, Leads workflows passed w between u ∧ between.length < frames ∧ u.name ∉ passed ∧
    Dangling workflows u dependency

/-- The first of the walks that does not end goes to a dangling dependency. -/
def MeetsDangling (frames : Nat) : Prop :=
  ∃ earlier w later passed u dependency, workflows = earlier ++ w :: later ∧ Walks workflows frames ∅ earlier passed ∧
    Strays workflows frames passed w u dependency

end

section

variable {workflows : List (WorkflowEntry ε)} {frames : Nat} {s : Visits ε}

/-! ### One visit -/

omit workflows frames s in
theorem recursion_not_value (text : String) : recursionError ≠ valueError text := by
  intro same
  have first := congrArg (fun e => e.shown.toList.head?) same
  simp [recursionError,valueError] at first

omit workflows frames s in
theorem type_not_value (reason text : String) : typeError reason ≠ valueError text := by
  intro same
  have first := congrArg (fun e => e.shown.toList.head?) same
  simp [typeError,valueError] at first

theorem visit_known {w : WorkflowEntry ε} (known : w.name ∈ s.visited) :
    visit (given workflows) (frames + 1) w s = .ok s := if_pos known

theorem visit_free {w : WorkflowEntry ε} (new : w.name ∉ s.visited) (free : w.dependency = none) :
    visit (given workflows) (frames + 1) w s = .ok (s.place w) := by
  simp only [visit,if_neg new,free]

theorem visit_dangling {w : WorkflowEntry ε} {dependency : String} (new : w.name ∉ s.visited)
    (dangling : Dangling workflows w dependency) :
    visit (given workflows) (frames + 1) w s = .error (unknownDependency dependency w.name) := by
  simp only [visit,if_neg new,dangling.1,dangling.2]

theorem visit_follows {w v : WorkflowEntry ε} (new : w.name ∉ s.visited) (follows : ComesAfter workflows w v) :
    visit (given workflows) (frames + 1) w s =
      (visit (given workflows) frames v s).map fun s => s.place w := by
  obtain ⟨dependency,names,there⟩ := follows
  simp only [visit,if_neg new,names,there]

/-- What a visit can come to. -/
theorem visit_cases (workflows : List (WorkflowEntry ε)) (w : WorkflowEntry ε) (s : Visits ε) :
    w.name ∈ s.visited ∨ w.name ∉ s.visited ∧
      (w.dependency = none ∨ (∃ dependency, Dangling workflows w dependency) ∨ ∃ v, ComesAfter workflows w v) := by
  by_cases known : w.name ∈ s.visited
  · exact .inl known
  · refine .inr ⟨known,?_⟩
    cases names : w.dependency with
    | none => exact .inl rfl
    | some dependency =>
      cases there : (given workflows).get? dependency with
      | none => exact .inr (.inl ⟨dependency,names,there⟩)
      | some v => exact .inr (.inr ⟨v,dependency,names,there⟩)

theorem Walk.step {passed names : Finset String} {w v : WorkflowEntry ε} (new : w.name ∉ passed)
    (follows : ComesAfter workflows w v) (walk : Walk workflows frames passed v names) :
    Walk workflows (frames + 1) passed w (insert w.name names) := by
  obtain ⟨between,u,leads,short,ends,rfl⟩ := walk
  refine ⟨w :: between,u,.next new follows leads,Nat.succ_lt_succ short,ends,?_⟩
  rw [List.cons_append,List.map_cons,List.toFinset_cons,Finset.union_insert]

theorem Strays.step {passed : Finset String} {w v u : WorkflowEntry ε} {dependency : String} (new : w.name ∉ passed)
    (follows : ComesAfter workflows w v) (strays : Strays workflows frames passed v u dependency) :
    Strays workflows (frames + 1) passed w u dependency := by
  obtain ⟨between,leads,short,fresh,dangling⟩ := strays
  exact ⟨w :: between,.next new follows leads,Nat.succ_lt_succ short,fresh,dangling⟩

theorem walk_of_visit {w : WorkflowEntry ε} {t : Visits ε} (visits : visit (given workflows) frames w s = .ok t) :
    Walk workflows frames s.visited w t.visited := by
  induction frames generalizing w t with
  | zero => cases visits
  | succ frames ih =>
    rcases visit_cases workflows w s with known | ⟨new,free | ⟨dependency,dangling⟩ | ⟨v,follows⟩⟩
    · cases (visit_known known).symm.trans visits
      exact ⟨[],w,.here w,Nat.succ_pos frames,.inl known,by simp [known]⟩
    · cases (visit_free new free).symm.trans visits
      exact ⟨[],w,.here w,Nat.succ_pos frames,.inr free,by simp [Visits.place]⟩
    · cases (visit_dangling new dangling).symm.trans visits
    · rw [visit_follows new follows] at visits
      obtain ⟨u,before,placed⟩ := ExceptRules.map_eq_ok.mp visits
      cases placed
      exact (ih before).step new follows

theorem visit_of_walk {w : WorkflowEntry ε} {names : Finset String} (walk : Walk workflows frames s.visited w names) :
    ∃ t, visit (given workflows) frames w s = .ok t ∧ t.visited = names := by
  obtain ⟨between,u,leads,short,ends,rfl⟩ := walk
  induction leads generalizing frames with
  | here w =>
    obtain ⟨frames,rfl⟩ := Nat.exists_eq_add_one_of_ne_zero (Nat.ne_of_gt short)
    by_cases known : w.name ∈ s.visited
    · exact ⟨s,visit_known known,by simp [known]⟩
    · exact ⟨s.place w,visit_free known (ends.resolve_left known),by simp [Visits.place]⟩
  | @next w v u between new follows leads ih =>
    obtain ⟨frames,rfl⟩ := Nat.exists_eq_add_one_of_ne_zero (Nat.ne_of_gt (Nat.zero_lt_of_lt short))
    obtain ⟨t,visits,names⟩ := ih (Nat.lt_of_succ_lt_succ short) ends
    refine ⟨t.place w,by rw [visit_follows new follows,visits]; rfl,?_⟩
    rw [Visits.place,names,List.cons_append,List.map_cons,List.toFinset_cons,Finset.union_insert]

theorem strays_of_visit {w : WorkflowEntry ε} {text : String}
    (raises : visit (given workflows) frames w s = .error (valueError text)) :
    ∃ u dependency, Strays workflows frames s.visited w u dependency ∧
      valueError text = unknownDependency dependency u.name := by
  induction frames generalizing w with
  | zero =>
    rw [visit,Except.error.injEq] at raises
    exact absurd raises (recursion_not_value text)
  | succ frames ih =>
    rcases visit_cases workflows w s with known | ⟨new,free | ⟨dependency,dangling⟩ | ⟨v,follows⟩⟩
    · cases (visit_known known).symm.trans raises
    · cases (visit_free new free).symm.trans raises
    · rw [visit_dangling new dangling,Except.error.injEq] at raises
      exact ⟨w,dependency,⟨[],.here w,Nat.succ_pos frames,new,dangling⟩,raises.symm⟩
    · rw [visit_follows new follows,ExceptRules.map_eq_error] at raises
      obtain ⟨u,dependency,strays,message⟩ := ih raises
      exact ⟨u,dependency,strays.step new follows,message⟩

theorem visit_of_strays {w u : WorkflowEntry ε} {dependency : String}
    (strays : Strays workflows frames s.visited w u dependency) :
    visit (given workflows) frames w s = .error (unknownDependency dependency u.name) := by
  obtain ⟨between,leads,short,fresh,dangling⟩ := strays
  induction leads generalizing frames with
  | here w =>
    obtain ⟨frames,rfl⟩ := Nat.exists_eq_add_one_of_ne_zero (Nat.ne_of_gt short)
    exact visit_dangling fresh dangling
  | @next w v u between new follows leads ih =>
    obtain ⟨frames,rfl⟩ := Nat.exists_eq_add_one_of_ne_zero (Nat.ne_of_gt (Nat.zero_lt_of_lt short))
    rw [visit_follows new follows,ih (Nat.lt_of_succ_lt_succ short) fresh dangling]
    rfl

/-! ### All visits -/

theorem walks_of_visits {entries : List (WorkflowEntry ε)} {t : Visits ε}
    (visits : entries.foldlM (fun s w => visit (given workflows) frames w s) s = .ok t) :
    Walks workflows frames s.visited entries t.visited := by
  induction entries generalizing s with
  | nil =>
    cases visits
    exact .done _
  | cons w rest ih =>
    rw [List.foldlM_cons,ExceptRules.bind_eq_ok] at visits
    obtain ⟨u,first,later⟩ := visits
    exact .next (walk_of_visit first) (ih later)

theorem visits_of_walks {entries : List (WorkflowEntry ε)} {names : Finset String}
    (walks : Walks workflows frames s.visited entries names) :
    ∃ t, entries.foldlM (fun s w => visit (given workflows) frames w s) s = .ok t ∧ t.visited = names := by
  induction entries generalizing s with
  | nil =>
    cases walks
    exact ⟨s,rfl,rfl⟩
  | cons w rest ih =>
    obtain ⟨⟩ | ⟨walk,walks⟩ := walks
    obtain ⟨u,first,reached⟩ := visit_of_walk walk
    subst reached
    obtain ⟨t,later,ends⟩ := ih walks
    exact ⟨t,by rw [List.foldlM_cons,first]; exact later,ends⟩

theorem strays_of_visits {entries : List (WorkflowEntry ε)} {text : String}
    (raises : entries.foldlM (fun s w => visit (given workflows) frames w s) s = .error (valueError text)) :
    ∃ earlier w later passed u dependency, entries = earlier ++ w :: later ∧
      Walks workflows frames s.visited earlier passed ∧ Strays workflows frames passed w u dependency := by
  induction entries generalizing s with
  | nil => cases raises
  | cons w rest ih =>
    rw [List.foldlM_cons] at raises
    cases first : visit (given workflows) frames w s with
    | error e =>
      rw [first] at raises
      cases raises
      obtain ⟨u,dependency,strays,_⟩ := strays_of_visit first
      exact ⟨[],w,rest,s.visited,u,dependency,rfl,.done _,strays⟩
    | ok t =>
      rw [first] at raises
      obtain ⟨earlier,w',later,passed,u,dependency,parts,walks,strays⟩ := ih raises
      exact ⟨w :: earlier,w',later,passed,u,dependency,by rw [parts,List.cons_append],
        .next (walk_of_visit first) walks,strays⟩

theorem visits_of_strays {earlier later : List (WorkflowEntry ε)} {w u : WorkflowEntry ε} {passed : Finset String}
    {dependency : String} (walks : Walks workflows frames s.visited earlier passed)
    (strays : Strays workflows frames passed w u dependency) :
    (earlier ++ w :: later).foldlM (fun s w => visit (given workflows) frames w s) s =
      .error (unknownDependency dependency u.name) := by
  obtain ⟨t,before,reached⟩ := visits_of_walks walks
  subst reached
  rw [List.foldlM_append,before]
  change (w :: later).foldlM (fun s w => visit (given workflows) frames w s) t = _
  rw [List.foldlM_cons,visit_of_strays strays]
  rfl

theorem mem_given {dependency : String} {v : WorkflowEntry ε} (there : (given workflows).get? dependency = some v) :
    v ∈ workflows := by
  rw [given,OrderedDict.ofList,OrderedDict.get?_update_reverse,OrderedDict.get?_empty,Option.or_none,
    List.lookup_eq_some_iff] at there
  obtain ⟨before,after,parts,_⟩ := there
  have member : (dependency,v) ∈ (workflows.zipIdx.map fun item =>
      (item.1.givenId.getD ("idx_" ++ toString item.2),item.1)) := by
    rw [← List.mem_reverse,parts]
    exact List.mem_append_right _ List.mem_cons_self
  obtain ⟨⟨w,i⟩,inside,same⟩ := List.mem_map.mp member
  cases same
  obtain ⟨_,_,at_i⟩ := List.mem_zipIdx inside
  rw [at_i]
  exact List.getElem_mem _

theorem leads_mem {passed : Finset String} {w u : WorkflowEntry ε} {between : List (WorkflowEntry ε)}
    (leads : Leads workflows passed w between u) (member : w ∈ workflows) : u ∈ workflows := by
  induction leads with
  | here w => exact member
  | next new follows leads ih =>
    obtain ⟨dependency,_,there⟩ := follows
    exact ih (mem_given there)

/-- Where the entries meet a dangling dependency, the order raises an error about it. -/
theorem order_of_meets (meets : MeetsDangling workflows frames) : ∃ u ∈ workflows, ∃ dependency,
    Dangling workflows u dependency ∧
    resolveExecutionOrder frames workflows = .error (unknownDependency dependency u.name) := by
  obtain ⟨earlier,w,later,passed,u,dependency,parts,walks,strays⟩ := meets
  have member : w ∈ workflows := by
    rw [parts]
    exact List.mem_append_right _ List.mem_cons_self
  have raises := @visits_of_strays _ _ _ {} _ later _ _ _ _ walks strays
  rw [← parts] at raises
  obtain ⟨between,leads,_,_,dangling⟩ := strays
  refine ⟨u,leads_mem leads member,dependency,dangling,?_⟩
  rw [resolveExecutionOrder,raises]
  rfl

theorem meets_of_order {text : String} (raises : resolveExecutionOrder frames workflows = .error (valueError text)) :
    MeetsDangling workflows frames :=
  strays_of_visits (ExceptRules.map_eq_error.mp raises)

theorem visit_places {w : WorkflowEntry ε} {t : Visits ε} (visits : visit (given workflows) frames w s = .ok t) :
    w.name ∈ s.visited ∧ t = s ∨ ∃ u : Visits ε, t = u.place w := by
  cases frames with
  | zero => cases visits
  | succ frames =>
    rcases visit_cases workflows w s with known | ⟨new,free | ⟨dependency,dangling⟩ | ⟨v,follows⟩⟩
    · cases (visit_known known).symm.trans visits
      exact .inl ⟨known,rfl⟩
    · cases (visit_free new free).symm.trans visits
      exact .inr ⟨s,rfl⟩
    · cases (visit_dangling new dangling).symm.trans visits
    · rw [visit_follows new follows] at visits
      obtain ⟨u,_,placed⟩ := ExceptRules.map_eq_ok.mp visits
      exact .inr ⟨u,placed.symm⟩

theorem place_ne_nil (s : Visits ε) (w : WorkflowEntry ε) : (s.place w).ordered ≠ [] :=
  List.append_ne_nil_of_right_ne_nil _ (List.cons_ne_nil w [])

theorem visits_ne_nil {entries : List (WorkflowEntry ε)} {t : Visits ε} (placed : s.ordered ≠ [])
    (visits : entries.foldlM (fun s w => visit (given workflows) frames w s) s = .ok t) : t.ordered ≠ [] := by
  induction entries generalizing s with
  | nil =>
    cases visits
    exact placed
  | cons w rest ih =>
    rw [List.foldlM_cons,ExceptRules.bind_eq_ok] at visits
    obtain ⟨u,first,later⟩ := visits
    refine ih ?_ later
    rcases visit_places first with ⟨_,rfl⟩ | ⟨before,rfl⟩
    · exact placed
    · exact place_ne_nil before w

/-- The first of the entries is placed. -/
theorem first_placed {entries : List (WorkflowEntry ε)} {t : Visits ε} (some : entries ≠ [])
    (visits : entries.foldlM (fun s w => visit (given workflows) frames w s) {} = .ok t) : t.ordered ≠ [] := by
  obtain ⟨w,rest,rfl⟩ := List.exists_cons_of_ne_nil some
  rw [List.foldlM_cons,ExceptRules.bind_eq_ok] at visits
  obtain ⟨u,first,later⟩ := visits
  refine visits_ne_nil ?_ later
  rcases visit_places first with ⟨known,_⟩ | ⟨before,rfl⟩
  · exact absurd known (Finset.notMem_empty _)
  · exact place_ne_nil before w

theorem order_ne_nil {order : List (WorkflowEntry ε)} (entries : workflows ≠ [])
    (ordered : resolveExecutionOrder frames workflows = .ok order) : order ≠ [] := by
  obtain ⟨t,visits,rfl⟩ := ExceptRules.map_eq_ok.mp ordered
  exact first_placed entries visits

theorem descriptive_unknown {u : WorkflowEntry ε} {dependency : String} (member : u ∈ workflows)
    (dangling : Dangling workflows u dependency) : Descriptive workflows (unknownDependency dependency u.name) := by
  refine ⟨u,member,dependency,_,dangling.1,.inl dangling,rfl,?_⟩
  exact ⟨"Unknown dependency '".toList,("' in workflow '" ++ u.name ++ "'").toList,by simp [String.toList_append]⟩

section

variable [DecidableEq ε] {hash : WorkflowEntry ε → Option Int}

theorem depCounts_unhashable (unhashable : ∀ e, hash e = none) {order : List (WorkflowEntry ε)} (entries : order ≠ []) :
    depCounts hash order = .error (typeError "unhashable type: 'WorkflowEntry'") := by
  obtain ⟨w,rest,rfl⟩ := List.exists_cons_of_ne_nil entries
  simp [depCounts,unhashable]

/-- With an entry there are no batches: the order raises, or the counting does. -/
theorem batches_raise (frames : Nat) (unhashable : ∀ e, hash e = none) (entries : workflows ≠ []) : ∃ e,
    resolveExecutionBatches hash frames workflows = .error e ∧
      ∀ text, e = valueError text → resolveExecutionOrder frames workflows = .error (valueError text) := by
  cases ordered : resolveExecutionOrder frames workflows with
  | error e => exact ⟨e,by rw [resolveExecutionBatches,ordered]; rfl,fun text same => by rw [same]⟩
  | ok order =>
    refine ⟨_,by rw [resolveExecutionBatches,ordered,Except.bind,depCounts_unhashable unhashable
      (order_ne_nil entries ordered)]; rfl,fun text same => absurd same (type_not_value _ text)⟩

/-- Entries have no hash, and so a manifest is scheduled as it should be only where it has none of them, or where the
entries meet a dangling dependency first. -/
theorem scheduled_iff (unhashable : ∀ e, hash e = none) (workflows : List (WorkflowEntry ε)) (frames : Nat) :
    Scheduled workflows hash frames ↔ workflows = [] ∨ MeetsDangling workflows frames := by
  constructor
  · rintro ⟨sound,faulty⟩
    by_cases entries : workflows = []
    · exact .inl entries
    · obtain ⟨e,raised,value⟩ := batches_raise frames unhashable entries
      by_cases fine : Sound workflows
      · obtain ⟨batches,given,_⟩ := sound fine
        cases raised.symm.trans given
      · obtain ⟨e',raised',_,_,_,text,_,_,same,_⟩ := faulty fine
        cases raised.symm.trans raised'
        exact .inr (meets_of_order (value text same))
  · rintro (rfl | meets)
    · have sound : Sound ([] : List (WorkflowEntry ε)) := ⟨by simp,by simp⟩
      refine ⟨fun _ => ⟨[],rfl,List.Perm.nil,?_⟩,fun faulty => absurd sound faulty⟩
      intro earlier batch later parts
      cases earlier <;> cases parts
    · obtain ⟨u,member,dependency,dangling,raises⟩ := order_of_meets meets
      refine ⟨fun fine => absurd dangling (fine.resolved u member dependency),fun _ => ?_⟩
      refine ⟨_,?_,descriptive_unknown member dangling⟩
      rw [resolveExecutionBatches,raises]
      rfl

def etl : WorkflowEntry Unit := { ref := "jobs:etl",id := some "etl_job",extra := () }

def training : WorkflowEntry Unit := { ref := "jobs:training",id := some "training_job",after := some "etl_job",extra := () }

theorem etl_first (v : WorkflowEntry Unit) : ¬ComesAfter [etl,training] etl v := by
  rintro ⟨dependency,names,_⟩
  cases names

theorem training_after {v : WorkflowEntry Unit} (later : Relation.TransGen (ComesAfter [etl,training]) training v) :
    v = etl := by
  induction later with
  | single follows =>
    obtain ⟨dependency,names,there⟩ := follows
    cases names
    cases there
    rfl
  | tail _ follows ih =>
    subst ih
    exact absurd follows (etl_first _)

theorem jobs_sound : Sound [etl,training] where
  resolved w member dependency dangling := by
    rcases List.mem_pair.mp member with rfl | rfl
    · cases dangling.1
    · obtain ⟨names,missing⟩ := dangling
      cases names
      cases missing
  acyclic w member cycle := by
    rcases List.mem_pair.mp member with rfl | rfl
    · obtain ⟨v,follows,_⟩ := Relation.TransGen.head'_iff.mp cycle
      exact etl_first v follows
    · exact absurd (congrArg WorkflowEntry.ref (training_after cycle)) (by decide)

/-- Two workflows, the second after the first: the dependencies are counted in a dictionary that cannot be built. -/
theorem sound_manifest_raises : ¬∀ workflows, Scheduled workflows (fun _ : WorkflowEntry Unit => none) 1000 := by
  intro always
  obtain ⟨batches,given,_⟩ := (always [etl,training]).1 jobs_sound
  obtain ⟨e,raised,_⟩ := batches_raise 1000 (fun _ => rfl) (List.cons_ne_nil etl [training])
  cases raised.symm.trans given

/-- A manifest whose only entry names an unknown workflow is told so. -/
theorem dangling_manifest_scheduled : Scheduled [training] (fun _ : WorkflowEntry Unit => none) 1000 :=
  (scheduled_iff (fun _ => rfl) [training] 1000).mpr
    (.inr ⟨[],training,[],∅,training,"etl_job",rfl,.done ∅,[],.here training,by decide,by decide,by decide,by decide⟩)

end

end

end NetworkCoordinator

end IceOS
