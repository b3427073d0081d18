import IceOS.ComponentStore

/-! The life of a stored component: whether the index lists it, a read returns what was last written, its creation time
stays, and its version grows. Registrations keep all of this; accepted updates and deletions do not. -/
namespace IceOS

open ActionRuns

variable {β : Type}

/-- The index lists the stored components, and a read returns the definition of the last accepted write. -/
structure ComponentStore.Exact (x : ComponentHashes β) (kind : RepositoryKind) (s : ComponentStore β) : Prop where
  listed : ∀ key, key ∈ (s.getIndex x kind).keys ↔
    ∃ componentType name, key = componentId componentType name ∧ (s.get x kind componentType name).isSome = true
  once : (s.getIndex x kind).keys.Nodup
  reads : ∀ componentType name, (s.get x kind componentType name).map (·.record.definition) =
    s.latest.get? (componentId componentType name)

/-- What a request has to do to the store. -/
structure ComponentStore.Faithful (x : ComponentHashes β) (kind : RepositoryKind) (s : ComponentStore β)
    (request : ComponentRequest β) (t : ComponentStore β) : Prop where
  exact : t.Exact x kind
  created : ∀ componentType name d e, s.get x kind componentType name = some d → t.get x kind componentType name = some e →
    e.record.createdAt = d.record.createdAt
  grows : ∀ componentType name d, s.changes x request = some (componentId componentType name) →
    s.get x kind componentType name = some d →
    ∃ e, t.get x kind componentType name = some e ∧ d.record.version < e.record.version

/-- A request that leaves the store in order: a registration whose record has not the hash of the one that it replaces, an
update that is refused, the deletion of what is not stored. -/
def ComponentStore.Careful (x : ComponentHashes β) (kind : RepositoryKind) (s : ComponentStore β) :
    ComponentRequest β → Prop
  | .register definition valid times => valid = true → ∀ d ∈ s.get x kind definition.type.text definition.name,
      d.lock ≠ "" → d.lock ≠ x.repository (nextRecord (some d) definition times)
  | .update componentType name definition versionLock _ =>
    definition.type.text = componentType → definition.name = name →
      ∀ d ∈ s.redis.get? (componentKey componentType name), d.lock ≠ "" → versionLock ≠ some d.lock
  | .delete componentType name => s.get x kind componentType name = none

theorem componentKey_eq (componentType name : String) :
    componentKey componentType name = "component:" ++ componentId componentType name := by
  simp only [componentKey,componentId,String.append_assoc]

theorem componentKey_inj (componentType name componentType' name' : String) :
    componentKey componentType name = componentKey componentType' name' ↔
      componentId componentType name = componentId componentType' name' := by
  rw [componentKey_eq,componentKey_eq,String.append_right_inj]

namespace ComponentStore

/-! ### The operations of a repository -/

/-- What `put` stores. -/
def written (x : ComponentHashes β) (kind : RepositoryKind) (s : ComponentStore β) (componentType name : String)
    (payload : ComponentRecord β) (lock now : String) : ComponentDocument β :=
  match kind with
  | .sql =>
    let row := writeRow (s.rows.get? (componentId componentType name)) payload now
    ⟨row,x.repository row⟩
  | _ => ⟨payload,lock⟩

theorem get_put (x : ComponentHashes β) (kind : RepositoryKind) (s : ComponentStore β) (componentType name : String)
    (payload : ComponentRecord β) (lock now componentType' name' : String) :
    (s.put kind componentType name payload lock now).get x kind componentType' name' =
      if componentId componentType name = componentId componentType' name' then
        some (s.written x kind componentType name payload lock now)
      else s.get x kind componentType' name' := by
  cases kind with
  | redis | inMemory => simp only [get,put,written,OrderedDict.get?_set,componentKey_inj]
  | sql =>
    simp only [get,put,written,OrderedDict.get?_set]
    split <;> rfl

theorem get_setIndex (x : ComponentHashes β) (kind : RepositoryKind) (s : ComponentStore β) (key lock : String) :
    (s.setIndex kind key lock).get x kind = s.get x kind := by
  cases kind <;> rfl

theorem mem_index_setIndex_put (x : ComponentHashes β) (kind : RepositoryKind) (s : ComponentStore β)
    (componentType name : String) (payload : ComponentRecord β) (lock now key : String) :
    key ∈ (((s.put kind componentType name payload lock now).setIndex kind (componentId componentType name) lock).getIndex
        x kind).keys ↔ key = componentId componentType name ∨ key ∈ (s.getIndex x kind).keys := by
  cases kind with
  | redis | inMemory => exact OrderedDict.mem_keys_set ..
  | sql =>
    simp only [getIndex,setIndex,put,OrderedDict.keys_mapValues]
    exact OrderedDict.mem_keys_set ..

theorem written_definition (x : ComponentHashes β) (kind : RepositoryKind) (s : ComponentStore β)
    (componentType name : String) (payload : ComponentRecord β) (lock now : String) :
    (s.written x kind componentType name payload lock now).record.definition = payload.definition := by
  cases kind with
  | redis | inMemory => rfl
  | sql =>
    simp only [written,writeRow]
    split <;> rfl

theorem written_version (x : ComponentHashes β) (kind : RepositoryKind) (s : ComponentStore β)
    (componentType name : String) (payload : ComponentRecord β) (lock now : String) :
    (s.written x kind componentType name payload lock now).record.version = payload.version := by
  cases kind with
  | redis | inMemory => rfl
  | sql =>
    simp only [written,writeRow]
    split <;> rfl

theorem written_createdAt {x : ComponentHashes β} {kind : RepositoryKind} {s : ComponentStore β}
    {componentType name : String} {payload : ComponentRecord β} {d : ComponentDocument β} (lock now : String)
    (stored : s.get x kind componentType name = some d) (same : payload.createdAt = d.record.createdAt) :
    (s.written x kind componentType name payload lock now).record.createdAt = d.record.createdAt := by
  cases kind with
  | redis | inMemory => exact same
  | sql =>
    obtain ⟨row,present,rfl⟩ := Option.map_eq_some_iff.mp stored
    simp only [written,writeRow,present]

/-! ### The invariant -/

structure Sound (x : ComponentHashes β) (kind : RepositoryKind) (s : ComponentStore β) : Prop extends s.Exact x kind where
  positive : ∀ componentType name d, s.get x kind componentType name = some d → 1 ≤ d.record.version
  unused : kind ≠ .redis → s.redis = .empty

theorem sound_empty (x : ComponentHashes β) (kind : RepositoryKind) : ({} : ComponentStore β).Sound x kind := by
  have empty (componentType name : String) : ({} : ComponentStore β).get x kind componentType name = none := by
    cases kind <;> rfl
  have keys : (({} : ComponentStore β).getIndex x kind).keys = [] := by cases kind <;> rfl
  constructor
  · constructor
    · intro key
      simp only [keys,empty,List.not_mem_nil,Option.isSome_none,Bool.false_eq_true,and_false,exists_false]
    · rw [keys]
      exact List.nodup_nil
    · intro componentType name
      rw [empty]
      rfl
  · intro componentType name d stored
    rw [empty] at stored
    cases stored
  · intro _
    rfl

/-- A step that does nothing. -/
theorem Sound.faithful {x : ComponentHashes β} {kind : RepositoryKind} {s : ComponentStore β} (sound : s.Sound x kind)
    {request : ComponentRequest β} (refused : s.changes x request = none) : s.Faithful x kind request s where
  exact := sound.toExact
  created componentType name d e before after := by
    cases before.symm.trans after
    rfl
  grows componentType name d changed := by
    rw [refused] at changed
    cases changed

theorem Sound.index_absent {x : ComponentHashes β} {kind : RepositoryKind} {s : ComponentStore β} (sound : s.Sound x kind)
    {componentType name : String} (absent : s.get x kind componentType name = none) :
    componentId componentType name ∉ s.latest.keys := by
  have reads := sound.reads componentType name
  rw [absent] at reads
  exact (OrderedDict.get?_eq_none _ _).mp reads.symm

theorem get_congr (x : ComponentHashes β) (kind : RepositoryKind) (s : ComponentStore β)
    {componentType name componentType' name' : String}
    (same : componentId componentType name = componentId componentType' name') :
    s.get x kind componentType name = s.get x kind componentType' name' := by
  cases kind with
  | redis | inMemory =>
    simp only [get]
    rw [(componentKey_inj _ _ _ _).mpr same]
  | sql =>
    simp only [get]
    rw [same]

/-! ### Registrations -/

/-- What a registration leads to, unless the lock of the stored record is that of the new one. -/
theorem register_put {x : ComponentHashes β} {kind : RepositoryKind} {s : ComponentStore β}
    {definition : ComponentDefinition β} {times : RequestTimes}
    (differs : ∀ d ∈ s.get x kind definition.type.text definition.name,
      d.lock ≠ "" → d.lock ≠ x.repository (nextRecord (some d) definition times)) :
    let existing := s.get x kind definition.type.text definition.name
    let record := nextRecord existing definition times
    s.register x kind definition times = (x.repository record,
      (s.put kind definition.type.text definition.name record (x.repository record) times.database).setIndex kind
        (componentId definition.type.text definition.name) (x.repository record)) := by
  simp only [register]
  refine if_neg fun unchanged => ?_
  cases stored : s.get x kind definition.type.text definition.name with
  | none =>
    rw [stored] at unchanged
    cases unchanged
  | some d =>
    simp only [stored,Option.any_some,Bool.and_eq_true,decide_eq_true_eq] at unchanged
    exact differs d stored unchanged.1 unchanged.2

/-- What a registration leads to if the lock of the stored record is that of the new one. -/
theorem register_skip {x : ComponentHashes β} {kind : RepositoryKind} {s : ComponentStore β}
    {definition : ComponentDefinition β} {times : RequestTimes} {d : ComponentDocument β}
    (stored : s.get x kind definition.type.text definition.name = some d) (locked : d.lock ≠ "")
    (same : d.lock = x.repository (nextRecord (some d) definition times)) :
    (s.register x kind definition times).2.get x kind definition.type.text definition.name = some d := by
  have unchanged : (some d).any (fun document => document.lock ≠ "" &&
      document.lock = x.repository (nextRecord (some d) definition times)) = true := by
    simpa only [Option.any_some,Bool.and_eq_true,decide_eq_true_eq] using ⟨locked,same⟩
  simp only [register,stored]
  rw [if_pos unchanged,get_setIndex,stored]

/-- What a registration does to the store. -/
structure Registered (x : ComponentHashes β) (kind : RepositoryKind) (s : ComponentStore β)
    (definition : ComponentDefinition β) (document : ComponentDocument β) (t : ComponentStore β) : Prop where
  stored : ∀ componentType name, t.get x kind componentType name =
    if componentId definition.type.text definition.name = componentId componentType name then some document
    else s.get x kind componentType name
  index : ∀ key, key ∈ (t.getIndex x kind).keys ↔
    key = componentId definition.type.text definition.name ∨ key ∈ (s.getIndex x kind).keys
  latest : t.latest = s.latest.set (componentId definition.type.text definition.name) definition
  redis : kind ≠ .redis → t.redis = s.redis

theorem step_register {x : ComponentHashes β} {kind : RepositoryKind} {s : ComponentStore β}
    {definition : ComponentDefinition β} {times : RequestTimes}
    (careful : s.Careful x kind (.register definition true times)) {t : ComponentStore β}
    (stepped : s.step x kind (.register definition true times) = some t) :
    let record := nextRecord (s.get x kind definition.type.text definition.name) definition times
    s.Registered x kind definition
      (s.written x kind definition.type.text definition.name record (x.repository record) times.database) t := by
  intro record
  let u := (s.put kind definition.type.text definition.name record (x.repository record) times.database).setIndex kind
    (componentId definition.type.text definition.name) (x.repository record)
  have registered : s.register x kind definition times = (x.repository record,u) := register_put (careful rfl)
  have reached : t = { u with latest := u.latest.set (componentId definition.type.text definition.name) definition } := by
    simpa only [step,registered,if_true,Option.some.injEq,eq_comm] using stepped
  subst reached
  constructor
  · intro componentType name
    have same : ({ u with latest := u.latest.set (componentId definition.type.text definition.name) definition } :
        ComponentStore β).get x kind = u.get x kind := by cases kind <;> rfl
    rw [same,get_setIndex,get_put]
  · intro key
    have same : ({ u with latest := u.latest.set (componentId definition.type.text definition.name) definition } :
        ComponentStore β).getIndex x kind = u.getIndex x kind := by cases kind <;> rfl
    rw [same,mem_index_setIndex_put]
  · cases kind <;> rfl
  · intro other
    cases kind with
    | redis => exact absurd rfl other
    | inMemory | sql => rfl

/-- A registration keeps the store in order. -/
theorem Sound.register {x : ComponentHashes β} {kind : RepositoryKind} {s : ComponentStore β} (sound : s.Sound x kind)
    {definition : ComponentDefinition β} {times : RequestTimes}
    (careful : s.Careful x kind (.register definition true times)) {t : ComponentStore β}
    (stepped : s.step x kind (.register definition true times) = some t) :
    t.Sound x kind ∧ s.Faithful x kind (.register definition true times) t := by
  let record := nextRecord (s.get x kind definition.type.text definition.name) definition times
  obtain ⟨stored,index,latest,redis⟩ := step_register careful stepped
  have exact : t.Exact x kind := by
    constructor
    · intro key
      rw [index key,sound.listed key]
      constructor
      · rintro (rfl | ⟨componentType,name,rfl,present⟩)
        · refine ⟨definition.type.text,definition.name,rfl,?_⟩
          rw [stored,if_pos rfl]
          rfl
        · refine ⟨componentType,name,rfl,?_⟩
          rw [stored]
          split
          · rfl
          · exact present
      · rintro ⟨componentType,name,rfl,present⟩
        by_cases same : componentId definition.type.text definition.name = componentId componentType name
        · exact .inl same.symm
        · rw [stored,if_neg same] at present
          exact .inr ⟨componentType,name,rfl,present⟩
    · exact OrderedDict.keys_nodup _
    · intro componentType name
      rw [stored,latest,OrderedDict.get?_set]
      split
      · simp only [Option.map_some,written_definition]
        rfl
      · exact sound.reads componentType name
  refine ⟨⟨exact,?_,fun other => (redis other).trans (sound.unused other)⟩,exact,?_,?_⟩
  · intro componentType name d present
    rw [stored] at present
    split at present
    · cases present
      rw [written_version]
      simp only [nextRecord]
      split
      · exact Nat.le_add_left 1 _
      · exact Nat.le_refl 1
    · exact sound.positive componentType name d present
  · intro componentType name d e before after
    rw [stored] at after
    split at after
    · next same =>
      cases after
      rw [← get_congr x kind s same] at before
      refine written_createdAt _ _ before ?_
      simp only [nextRecord,before]
    · cases before.symm.trans after
      rfl
  · intro componentType name d changed before
    simp only [changes,if_true,Option.some.injEq] at changed
    refine ⟨_,(stored componentType name).trans (if_pos changed),?_⟩
    rw [← get_congr x kind s changed] at before
    rw [written_version]
    simp only [nextRecord,before]
    exact Nat.lt_succ_self _

/-- A registration whose record has the hash of the one that it replaces does not change the version. -/
theorem register_careful {x : ComponentHashes β} {kind : RepositoryKind} {s t : ComponentStore β}
    {definition : ComponentDefinition β} {valid : Bool} {times : RequestTimes}
    (stepped : s.step x kind (.register definition valid times) = some t)
    (faithful : s.Faithful x kind (.register definition valid times) t) :
    s.Careful x kind (.register definition valid times) := by
  rintro rfl d stored locked same
  have kept := register_skip stored locked same
  have reached : t.get x kind = (s.register x kind definition times).2.get x kind := by
    simp only [step,if_true,Option.some.injEq] at stepped
    subst stepped
    cases kind <;> rfl
  obtain ⟨e,after,grown⟩ := faithful.grows definition.type.text definition.name d rfl stored
  rw [reached,kept] at after
  cases after
  exact Nat.lt_irrefl _ grown

/-! ### Updates -/

/-- An update is accepted exactly with the path of its definition and the lock of what is stored in Redis. -/
theorem updateComponent_ok {x : ComponentHashes β} {s : ComponentStore β} {componentType name : String}
    {definition : ComponentDefinition β} {versionLock : Option String} {times : RequestTimes}
    {result : String × ComponentStore β}
    (accepted : s.updateComponent x componentType name definition versionLock times = .ok result) :
    definition.type.text = componentType ∧ definition.name = name ∧
      ∃ d, s.redis.get? (componentKey componentType name) = some d ∧ d.lock ≠ "" ∧ versionLock = some d.lock := by
  simp only [updateComponent] at accepted
  split at accepted
  · cases accepted
  · next here =>
    rw [not_or,not_not,not_not] at here
    refine ⟨here.1,here.2,?_⟩
    split at accepted
    · cases accepted
    · next d stored =>
      refine ⟨d,stored,?_⟩
      split at accepted
      · cases accepted
      · next locked =>
        refine ⟨locked,?_⟩
        split at accepted
        · cases accepted
        · next clientLock =>
          split at accepted
          · cases accepted
          · next same =>
            rw [not_not] at same
            rw [same]

theorem updateComponent_accepts (x : ComponentHashes β) {s : ComponentStore β} {definition : ComponentDefinition β}
    (times : RequestTimes) {d : ComponentDocument β}
    (stored : s.redis.get? (componentKey definition.type.text definition.name) = some d) (locked : d.lock ≠ "") :
    let record : ComponentRecord β := { definition,createdAt := some times.created,updatedAt := some times.updated }
    s.updateComponent x definition.type.text definition.name definition (some d.lock) times = .ok (x.route record,
      { s with redis := s.redis.set (componentKey definition.type.text definition.name) ⟨record,x.route record⟩ }) := by
  simp only [updateComponent,stored,ne_eq,not_true_eq_false,or_self,if_false,locked]

/-- An update that is not accepted changes nothing. -/
theorem Sound.update {x : ComponentHashes β} {kind : RepositoryKind} {s : ComponentStore β} (sound : s.Sound x kind)
    {componentType name : String} {definition : ComponentDefinition β} {versionLock : Option String} {times : RequestTimes}
    (careful : s.Careful x kind (.update componentType name definition versionLock times)) {t : ComponentStore β}
    (stepped : s.step x kind (.update componentType name definition versionLock times) = some t) :
    t.Sound x kind ∧ s.Faithful x kind (.update componentType name definition versionLock times) t := by
  cases result : s.updateComponent x componentType name definition versionLock times with
  | ok answer =>
    obtain ⟨type,named,d,stored,locked,presented⟩ := updateComponent_ok result
    exact absurd presented (careful type named d stored locked)
  | error status =>
    simp only [step,result,Option.some.injEq] at stepped
    subst stepped
    refine ⟨sound,sound.faithful ?_⟩
    simp only [changes,result]

/-- An accepted update sets the version back. -/
theorem Sound.update_careful {x : ComponentHashes β} {kind : RepositoryKind} {s t : ComponentStore β}
    (sound : s.Sound x kind) {componentType name : String} {definition : ComponentDefinition β}
    {versionLock : Option String} {times : RequestTimes}
    (stepped : s.step x kind (.update componentType name definition versionLock times) = some t)
    (faithful : s.Faithful x kind (.update componentType name definition versionLock times) t) :
    s.Careful x kind (.update componentType name definition versionLock times) := by
  rintro rfl rfl d stored locked rfl
  have accepted := updateComponent_accepts x times stored locked
  have used : kind = .redis := by
    by_contra other
    rw [sound.unused other] at stored
    cases stored
  subst used
  simp only [step,accepted,Option.some.injEq] at stepped
  subst stepped
  obtain ⟨e,after,grown⟩ := faithful.grows definition.type.text definition.name d (by simp only [changes,accepted]) stored
  have written := (OrderedDict.get?_set_same s.redis _ _).symm.trans after
  cases written
  exact absurd (sound.positive _ _ d stored) (Nat.not_le_of_lt grown)

/-! ### Deletions -/

/-- The deletion of what is not stored changes nothing that a request looks at. -/
theorem Sound.delete {x : ComponentHashes β} {kind : RepositoryKind} {s : ComponentStore β} (sound : s.Sound x kind)
    {componentType name : String} (careful : s.Careful x kind (.delete componentType name)) {t : ComponentStore β}
    (stepped : s.step x kind (.delete componentType name) = some t) :
    t.Sound x kind ∧ s.Faithful x kind (.delete componentType name) t := by
  have redis : s.redis.erase (componentKey componentType name) = s.redis := by
    refine OrderedDict.erase_eq_self ((OrderedDict.get?_eq_none _ _).mp ?_)
    by_cases used : kind = .redis
    · subst used
      exact careful
    · rw [sound.unused used]
      rfl
  have latest := OrderedDict.erase_eq_self (sound.index_absent careful)
  have reached : t = { s with componentsIndex := s.componentsIndex.erase (componentId componentType name) } := by
    simp only [step,deleteComponent,redis,latest,Option.some.injEq] at stepped
    exact stepped.symm
  have stored : t.get x kind = s.get x kind := by
    subst reached
    cases kind <;> rfl
  have index : t.getIndex x kind = s.getIndex x kind := by
    subst reached
    cases kind <;> rfl
  have exact : t.Exact x kind := by
    constructor
    · rw [index,stored]
      exact sound.listed
    · rw [index]
      exact sound.once
    · rw [stored,reached]
      exact sound.reads
  refine ⟨⟨exact,?_,?_⟩,exact,?_,?_⟩
  · rw [stored]
    exact sound.positive
  · rw [reached]
    exact sound.unused
  · intro componentType name d e before after
    rw [stored] at after
    cases before.symm.trans after
    rfl
  · intro componentType name d changed
    cases changed

/-- The deletion of what is stored leaves it in the index or, outside of Redis, in the store. -/
theorem Sound.delete_careful {x : ComponentHashes β} {kind : RepositoryKind} {s t : ComponentStore β}
    (sound : s.Sound x kind) {componentType name : String} (stepped : s.step x kind (.delete componentType name) = some t)
    (faithful : s.Faithful x kind (.delete componentType name) t) : s.Careful x kind (.delete componentType name) := by
  simp only [step,Option.some.injEq] at stepped
  subst stepped
  by_contra present
  obtain ⟨d,stored⟩ := Option.ne_none_iff_exists'.mp present
  by_cases used : kind = .redis
  · subst used
    have listed := (sound.listed (componentId componentType name)).mpr ⟨componentType,name,rfl,by rw [stored]; rfl⟩
    obtain ⟨componentType',name',same,still⟩ := (faithful.exact.listed (componentId componentType name)).mp listed
    rw [← get_congr x .redis _ same] at still
    simp only [get,deleteComponent,OrderedDict.get?_erase_eq_update,Function.update_self,Option.isSome_none] at still
    cases still
  · have reads := faithful.exact.reads componentType name
    simp only [deleteComponent,OrderedDict.get?_erase_eq_update,Function.update_self] at reads
    cases kind with
    | redis => exact used rfl
    | inMemory | sql =>
      rw [Option.map_eq_none_iff] at reads
      exact present reads

/-! ### Runs -/

theorem Sound.step {x : ComponentHashes β} {kind : RepositoryKind} {s : ComponentStore β} (sound : s.Sound x kind)
    {request : ComponentRequest β} (careful : s.Careful x kind request) {t : ComponentStore β}
    (stepped : s.step x kind request = some t) : t.Sound x kind ∧ s.Faithful x kind request t := by
  cases request with
  | register definition valid times =>
    cases valid with
    | true => exact sound.register careful stepped
    | false =>
      cases stepped
      exact ⟨sound,sound.faithful rfl⟩
  | update componentType name definition versionLock times => exact sound.update careful stepped
  | delete componentType name => exact sound.delete careful stepped

theorem Sound.careful {x : ComponentHashes β} {kind : RepositoryKind} {s t : ComponentStore β} (sound : s.Sound x kind)
    {request : ComponentRequest β} (stepped : s.step x kind request = some t) (faithful : s.Faithful x kind request t) :
    s.Careful x kind request := by
  cases request with
  | register definition valid times => exact register_careful stepped faithful
  | update componentType name definition versionLock times => exact sound.update_careful stepped faithful
  | delete componentType name => exact sound.delete_careful stepped faithful

theorem step_enabled (x : ComponentHashes β) (kind : RepositoryKind) (s : ComponentStore β) (request : ComponentRequest β) :
    ∃ t, s.step x kind request = some t := by
  cases request with
  | register definition valid times => cases valid <;> exact ⟨_,rfl⟩
  | update componentType name definition versionLock times =>
    simp only [ComponentStore.step]
    split <;> exact ⟨_,rfl⟩
  | delete componentType name => exact ⟨_,rfl⟩

/-- From an empty store on, every request is served as it should be exactly if every request leaves the store in order. -/
theorem lifecycle_iff (x : ComponentHashes β) (kind : RepositoryKind) (requests : List (ComponentRequest β)) :
    (∀ earlier request later s t, requests = earlier ++ request :: later →
      run (step x kind) earlier {} = some s → s.step x kind request = some t → s.Faithful x kind request t) ↔
      Throughout (step x kind) (Careful x kind) requests {} := by
  obtain ⟨last,ran⟩ := run_total (step_enabled x kind) requests {}
  exact throughout_steps_iff (fun s request t sound stepped =>
      ⟨sound.careful stepped,fun careful => (sound.step careful stepped).2⟩)
    (fun s request t sound careful stepped => (sound.step careful stepped).1) ran (sound_empty x kind)

/-! ### Accepted updates and deletions -/

def versionHashes : ComponentHashes Unit where
  repository record := "repository " ++ record.version.repr
  route record := "route " ++ record.version.repr

def searchTool : ComponentDefinition Unit := ⟨.tool,"search",()⟩

def noon : RequestTimes := ⟨"12:00","12:01","12:02"⟩

def evening : RequestTimes := ⟨"18:00","18:01","18:02"⟩

/-- In every repository a component can be registered and then deleted, which leaves it listed or stored; in Redis it can be
registered twice and then updated, which sets its version from 2 to 1. -/
theorem deletion_and_update_break :
    (∀ kind, ∃ s t, run (step versionHashes kind) [.register searchTool true noon] {} = some s ∧
      s.step versionHashes kind (.delete "tool" "search") = some t ∧
      ¬ s.Faithful versionHashes kind (.delete "tool" "search") t) ∧
    ∃ s t, run (step versionHashes .redis) [.register searchTool true noon,.register searchTool true noon] {} = some s ∧
      s.step versionHashes .redis (.update "tool" "search" searchTool (some "repository 2") evening) = some t ∧
      ¬ s.Faithful versionHashes .redis (.update "tool" "search" searchTool (some "repository 2") evening) t := by
  constructor
  · intro kind
    refine ⟨_,_,rfl,rfl,fun faithful => ?_⟩
    cases kind with
    | redis =>
      obtain ⟨componentType,name,_,still⟩ := (faithful.exact.listed (componentId "tool" "search")).mp (by decide)
      cases still
    | inMemory | sql =>
      have reads := faithful.exact.reads "tool" "search"
      revert reads
      decide
  · refine ⟨_,_,rfl,rfl,fun faithful => ?_⟩
    obtain ⟨e,after,grown⟩ := faithful.grows "tool" "search" _ rfl rfl
    cases after
    revert grown
    decide

end ComponentStore

end IceOS
