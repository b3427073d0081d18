import IceOS.ComponentLifecycle

/-! The lock that a registration returns, against the lock that a read returns and the lock that an update has to
present. -/
namespace IceOS.ComponentStore

open ActionRuns

variable {β : Type}

/-- What the lock of a registration is good for: the next read shows it, and an update of the component is accepted
with it and with no other header. -/
structure LockHolds (x : ComponentHashes β) (kind : RepositoryKind) (definition : ComponentDefinition β)
    (answer : String × ComponentStore β) : Prop where
  read : (answer.2.get x kind definition.type.text definition.name).map (·.lock) = some answer.1
  update : ∀ (next : ComponentDefinition β) (header : Option String) (times : RequestTimes),
    next.type = definition.type → next.name = definition.name →
      ((answer.2.updateComponent x definition.type.text definition.name next header times).isOk = true ↔
        header = some answer.1)

/-! ### Redis -/

/-- With the Redis repository the lock that is returned is stored. -/
theorem register_redis (x : ComponentHashes β) (s : ComponentStore β) (definition : ComponentDefinition β)
    (times : RequestTimes) : ∃ d, (s.register x .redis definition times).2.redis.get?
      (componentKey definition.type.text definition.name) = some d ∧ d.lock = (s.register x .redis definition times).1 := by
  simp only [register]
  split
  · next unchanged =>
    cases stored : s.get x .redis definition.type.text definition.name with
    | none =>
      rw [stored] at unchanged
      cases unchanged
    | some d =>
      rw [stored,Option.any_some,Bool.and_eq_true] at unchanged
      exact ⟨d,stored,of_decide_eq_true unchanged.2⟩
  · exact ⟨_,OrderedDict.get?_set_same _ _ _,rfl⟩

theorem register_lock (x : ComponentHashes β) (kind : RepositoryKind) (s : ComponentStore β)
    (definition : ComponentDefinition β) (times : RequestTimes) :
    ∃ record, (s.register x kind definition times).1 = x.repository record := by
  simp only [register]
  split <;> exact ⟨_,rfl⟩

theorem updateComponent_isOk (x : ComponentHashes β) {s : ComponentStore β} {definition : ComponentDefinition β}
    (times : RequestTimes) {d : ComponentDocument β}
    (stored : s.redis.get? (componentKey definition.type.text definition.name) = some d) (locked : d.lock ≠ "")
    (header : Option String) :
    (s.updateComponent x definition.type.text definition.name definition header times).isOk = true ↔
      header = some d.lock := by
  constructor
  · intro accepted
    cases result : s.updateComponent x definition.type.text definition.name definition header times with
    | error status =>
      rw [result] at accepted
      cases accepted
    | ok answer =>
      obtain ⟨-,-,e,same,-,presented⟩ := updateComponent_ok result
      rw [stored] at same
      cases same
      exact presented
  · rintro rfl
    rw [updateComponent_accepts x times stored locked]
    rfl

/-! ### The other repositories -/

theorem register_redis_unused (x : ComponentHashes β) {kind : RepositoryKind} (other : kind ≠ .redis) (s : ComponentStore β)
    (definition : ComponentDefinition β) (times : RequestTimes) : (s.register x kind definition times).2.redis = s.redis := by
  simp only [register]
  split <;> cases kind <;> first | exact absurd rfl other | rfl

/-- Without the Redis repository no request ever puts a component into Redis, where the updates look. -/
theorem step_redis_unused {x : ComponentHashes β} {kind : RepositoryKind} (other : kind ≠ .redis) {s t : ComponentStore β}
    {request : ComponentRequest β} (empty : s.redis = .empty) (stepped : s.step x kind request = some t) :
    t.redis = .empty := by
  cases request with
  | register definition valid times =>
    cases valid with
    | true =>
      simp only [step,if_true,Option.some.injEq] at stepped
      rw [← stepped]
      exact (register_redis_unused x other s definition times).trans empty
    | false =>
      cases stepped
      exact empty
  | update componentType name definition header times =>
    simp only [step] at stepped
    split at stepped
    · cases stepped
      exact empty
    · next answer accepted =>
      obtain ⟨-,-,d,stored,-⟩ := updateComponent_ok accepted
      rw [empty] at stored
      cases stored
  | delete componentType name =>
    simp only [step,deleteComponent,empty,Option.some.injEq] at stepped
    rw [← stepped]
    rfl

/-- An update that finds nothing in Redis is refused, whatever lock it presents. -/
theorem updateComponent_unused (x : ComponentHashes β) {s : ComponentStore β} (empty : s.redis = .empty)
    (componentType name : String) (definition : ComponentDefinition β) (header : Option String) (times : RequestTimes) :
    (s.updateComponent x componentType name definition header times).isOk = false := by
  cases result : s.updateComponent x componentType name definition header times with
  | error status => rfl
  | ok answer =>
    obtain ⟨-,-,d,stored,-⟩ := updateComponent_ok result
    rw [empty] at stored
    cases stored

theorem register_unused {x : ComponentHashes β} {kind : RepositoryKind} {s : ComponentStore β}
    (unused : kind ≠ .redis → s.redis = .empty) (definition : ComponentDefinition β) (times : RequestTimes)
    (holds : LockHolds x kind definition (s.register x kind definition times)) : kind = .redis := by
  by_contra other
  have empty := (register_redis_unused x other s definition times).trans (unused other)
  have accepted := (holds.update definition _ times rfl rfl).mpr rfl
  rw [updateComponent_unused x empty] at accepted
  cases accepted

/-- In every reachable store: the lock that a registration returns is the one that is read and that updates need exactly
if the repository is the one in Redis. -/
theorem returned_lock_iff (x : ComponentHashes β) (hashed : ∀ record, x.repository record ≠ "") (kind : RepositoryKind)
    (requests : List (ComponentRequest β)) (s : ComponentStore β) (reached : run (step x kind) requests {} = some s)
    (definition : ComponentDefinition β) (times : RequestTimes) :
    LockHolds x kind definition (s.register x kind definition times) ↔ kind = .redis := by
  refine ⟨register_unused (fun other => ?_) definition times,?_⟩
  · exact run_always (fun u request t empty stepped => step_redis_unused other empty stepped) reached rfl
  · rintro rfl
    obtain ⟨d,stored,lock⟩ := register_redis x s definition times
    obtain ⟨record,hash⟩ := register_lock x .redis s definition times
    constructor
    · change ((s.register x .redis definition times).2.redis.get? _).map _ = _
      rw [stored,Option.map_some,lock]
    · intro next header times' type name
      rw [← type,← name] at stored ⊢
      rw [← lock]
      refine updateComponent_isOk x times' stored ?_ header
      rw [lock,hash]
      exact hashed record

theorem versionHashes_hashed (record : ComponentRecord Unit) : versionHashes.repository record ≠ "" := by
  intro none
  have texts := congrArg String.toList none
  simp [versionHashes] at texts

theorem returned_lock_second : (∀ record, versionHashes.repository record ≠ "") ∧
    ∃ s, run (step versionHashes .redis) [.register searchTool true noon] {} = some s ∧
      (LockHolds versionHashes .redis searchTool (s.register versionHashes .redis searchTool evening) ↔
        RepositoryKind.redis = .redis) :=
  ⟨versionHashes_hashed,_,rfl,returned_lock_iff versionHashes versionHashes_hashed .redis
    [.register searchTool true noon] _ rfl searchTool evening⟩

def creationHashes : ComponentHashes Unit where
  repository record := "created " ++ record.createdAt.getD ""
  route record := "created " ++ record.createdAt.getD ""

/-- The database: the lock that is returned is not the one that is read, and an update with either finds no component. -/
theorem database_lock_useless :
    (¬∀ kind, LockHolds creationHashes kind searchTool (register creationHashes kind {} searchTool noon)) ∧
      ((register creationHashes .sql {} searchTool noon).2.get creationHashes .sql "tool" "search").map (·.lock) ≠
        some (register creationHashes .sql {} searchTool noon).1 := by
  constructor
  · intro holds
    cases register_unused (fun _ => rfl) searchTool noon (holds .sql)
  · decide +kernel

end IceOS.ComponentStore
