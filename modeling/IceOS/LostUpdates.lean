import IceOS.BlueprintApi

/-! Whether changes to a blueprint get lost. The lock is compared with what was loaded, some
awaits before the commit, and the commit compares nothing. -/
namespace IceOS

open ActionRuns

/-- Every success was applied to the version whose lock it presented, no lock was good for two, and
each had seen all before it: none was overwritten unseen, and no deletion undone from before it. -/
structure NoLostUpdates (x : BlueprintChecks) (log : List Success) : Prop where
  applied : ∀ c ∈ log, ∃ bp, c.before = some bp ∧ c.request.versionLock = some (x.calculateVersionLock bp) ∧
    x.prepare c.request bp = .ok c.after
  once : (log.map (·.request.versionLock)).Nodup
  informed : ∀ earlier c later, log = earlier ++ c :: later → c.loadedAt = earlier.length

/-- A step that does not lose an update. A request that passes its checks on a cached blueprint
finds the row's own content there. One that commits has had no other success since it
loaded, and the lock it presented is of no content that was replaced before. -/
def Careful {ι : Type} (x : BlueprintChecks) (requests : ι → Request) (s : Store ι) : StoreAction ι → Prop
  | .loadCache i _ =>
    match s.progress i,s.cache with
    | .missed,some bp => (x.prepare (requests i) bp).toOption.isSome = true → s.row.map (·.body) = some bp
    | _,_ => True
  | .commit i _ =>
    match s.progress i with
    | .fetched plan record => (plan.flush record s.row).isSome = true → plan.loadedAt = s.log.length ∧
        ∀ c ∈ s.log, c.before.map x.calculateVersionLock ≠ some (x.calculateVersionLock plan.seen)
    | _ => True
  | _ => True

instance {ι : Type} (x : BlueprintChecks) (requests : ι → Request) (s : Store ι) :
    ∀ a, Decidable (Careful x requests s a)
  | .loadCache i _ => by
    simp only [Careful]
    split <;> infer_instance
  | .commit i _ => by
    simp only [Careful]
    split <;> infer_instance
  | .load .. | .fetch .. | .refresh .. => isTrue trivial

/-- What is known of a plan as long as no other request has succeeded since it was made. -/
def Sound {ι : Type} (x : BlueprintChecks) (s : Store ι) (r : Request) : Progress → Prop
  | .checked plan => plan.loadedAt ≤ s.log.length ∧ x.prepare r plan.seen = .ok plan.target ∧
    (plan.loadedAt = s.log.length → s.row.map (·.body) = some plan.seen)
  | .fetched plan record => plan.loadedAt ≤ s.log.length ∧ x.prepare r plan.seen = .ok plan.target ∧
    (plan.loadedAt = s.log.length → s.row.map (·.body) = some plan.seen ∧ record = s.row)
  | _ => True

structure Consistent {ι : Type} (x : BlueprintChecks) (requests : ι → Request) (s : Store ι) : Prop where
  sound : ∀ i, Sound x s (requests i) (s.progress i)
  kept : NoLostUpdates x s.log

theorem prepare_lock {x : BlueprintChecks} {r : Request} {bp : Blueprint} {target : Option Blueprint}
    (ready : x.prepare r bp = .ok target) : r.versionLock = some (x.calculateVersionLock bp) := by
  simp only [BlueprintChecks.prepare,BlueprintChecks.assertVersionLock] at ready
  cases given : r.versionLock with
  | none => simp [given,bind,Except.bind] at ready
  | some lock =>
    by_cases same : lock = x.calculateVersionLock bp
    · rw [same]
    · simp [given,same,bind,Except.bind] at ready

/-- Once a further request has succeeded, nothing is known of a plan but that it is old. -/
theorem Sound.outdated {ι : Type} {x : BlueprintChecks} {s t : Store ι} {r : Request} {p : Progress}
    (sound : Sound x s r p) (later : s.log.length < t.log.length) : Sound x t r p := by
  cases p with
  | checked plan =>
    obtain ⟨bound,ready,_⟩ := sound
    exact ⟨by omega,ready,fun now => by omega⟩
  | fetched plan record =>
    obtain ⟨bound,ready,_⟩ := sound
    exact ⟨by omega,ready,fun now => by omega⟩
  | arrived => trivial
  | missed => trivial
  | committed target => trivial
  | ended status => trivial

theorem Sound.congr {ι : Type} {x : BlueprintChecks} {s t : Store ι} {r : Request} {p : Progress}
    (sound : Sound x s r p) (row : t.row = s.row) (log : t.log = s.log) : Sound x t r p := by
  cases p with
  | checked plan => simpa only [Sound,row,log] using sound
  | fetched plan record => simpa only [Sound,row,log] using sound
  | arrived => trivial
  | missed => trivial
  | committed target => trivial
  | ended status => trivial

/-- From the row it fetched, a commit makes the row what the request asks for. -/
theorem flush_own (plan : Plan) (row : Row) :
    ∃ after, plan.flush (some row) (some row) = some after ∧ after.map (·.body) = plan.target := by
  simp only [Plan.flush]
  cases plan.target with
  | none => exact ⟨none,rfl,rfl⟩
  | some target =>
    refine ⟨_,rfl,?_⟩
    by_cases same : target = row.body
    · simp [same]
    · simp [same]

section

variable {ι : Type} [DecidableEq ι] {x : BlueprintChecks} {requests : ι → Request} {s t : Store ι}

theorem Consistent.moveTo (consistent : Consistent x requests s) {i : ι} {p : Progress}
    (sound : Sound x s (requests i) p) : Consistent x requests (s.moveTo i p) where
  sound j := by
    rw [Store.moveTo_progress]
    split
    · next same => exact same ▸ sound
    · exact consistent.sound j
  kept := consistent.kept

/-- Checking a request against the row's own content makes a sound plan. -/
theorem Consistent.check (consistent : Consistent x requests s) {i : ι} {bp : Blueprint}
    (own : ∀ target, x.prepare (requests i) bp = .ok target → s.row.map (·.body) = some bp) :
    Consistent x requests (s.check x (requests i) i bp) := by
  simp only [Store.check]
  cases ready : x.prepare (requests i) bp with
  | error status => exact consistent.moveTo trivial
  | ok target => exact consistent.moveTo ⟨Nat.le_refl _,ready,fun _ => own target ready⟩

/-- A careful commit adds one success to the log. -/
theorem Consistent.commit (consistent : Consistent x requests s) {i : ι} {plan : Plan} {record row : Option Row}
    (stands : s.progress i = .fetched plan record) (flushed : plan.flush record s.row = some row)
    (careful : plan.loadedAt = s.log.length ∧
      ∀ c ∈ s.log, c.before.map x.calculateVersionLock ≠ some (x.calculateVersionLock plan.seen)) :
    Consistent x requests { s.moveTo i (.committed plan.target) with
      row,log := s.log ++ [⟨requests i,plan.loadedAt,s.row.map (·.body),row.map (·.body)⟩] } := by
  have own := consistent.sound i
  rw [stands] at own
  obtain ⟨_,ready,current⟩ := own
  obtain ⟨seen,same⟩ := current careful.1
  obtain ⟨stored,present,content⟩ := Option.map_eq_some_iff.mp seen
  have after : row.map (·.body) = plan.target := by
    obtain ⟨after,done,body⟩ := flush_own plan stored
    rw [same,present,done] at flushed
    cases flushed
    exact body
  constructor
  · intro j
    simp only [Store.moveTo_progress]
    split
    · trivial
    · exact (consistent.sound j).outdated (by simp)
  · constructor
    · intro c member
      rcases List.mem_append.mp member with old | new
      · exact consistent.kept.applied c old
      · rw [List.mem_singleton.mp new]
        exact ⟨plan.seen,seen,prepare_lock ready,by rw [after]; exact ready⟩
    · rw [List.map_append,List.map_singleton]
      apply List.nodup_append.mpr
      refine ⟨consistent.kept.once,List.nodup_singleton _,?_⟩
      intro lock old lock' new same
      obtain ⟨c,member,presented⟩ := List.mem_map.mp old
      obtain ⟨bp,before,given,_⟩ := consistent.kept.applied c member
      rw [List.mem_singleton.mp new,prepare_lock ready] at same
      apply careful.2 c member
      rw [before,Option.map_some,← given,presented,same]
    · intro earlier c later parts
      rcases List.append_eq_append_iff.mp parts with ⟨more,front,back⟩ | ⟨more,front,back⟩
      · cases more with
        | nil =>
          simp only [List.append_nil] at front
          cases back
          rw [front]
          exact careful.1
        | cons other more => simp at back
      · cases more with
        | nil =>
          simp only [List.append_nil] at front
          cases back
          rw [← front]
          exact careful.1
        | cons other more =>
          obtain ⟨rfl,_⟩ := List.cons.inj back
          exact consistent.kept.informed earlier c more front

theorem step_consistent (consistent : Consistent x requests s) {a : StoreAction ι}
    (careful : Careful x requests s a) (stepped : s.step x requests a = some t) : Consistent x requests t := by
  cases a with
  | load i ok =>
    simp only [Store.step] at stepped
    split at stepped
    · split at stepped
      · next row present =>
        cases stepped
        exact consistent.check fun _ _ => by rw [present]; rfl
      · cases stepped
        exact consistent.moveTo trivial
    · contradiction
  | loadCache i ok =>
    simp only [Store.step] at stepped
    split at stepped
    · next missed =>
      split at stepped
      · next bp cached =>
        cases stepped
        simp only [Careful,missed,cached] at careful
        exact consistent.check fun target ready => careful (by simp [ready,Except.toOption])
      · cases stepped
        exact consistent.moveTo trivial
    · contradiction
  | fetch i ok =>
    simp only [Store.step] at stepped
    split at stepped
    · next plan stands =>
      have own := consistent.sound i
      rw [stands] at own
      split at stepped
      · cases stepped
        exact consistent.moveTo ⟨own.1,own.2.1,fun now => ⟨own.2.2 now,rfl⟩⟩
      · cases stepped
        exact consistent.moveTo trivial
    · contradiction
  | commit i ok =>
    simp only [Store.step] at stepped
    split at stepped
    · next plan record stands =>
      split at stepped
      · next row flushed =>
        cases stepped
        simp only [Careful,stands] at careful
        exact consistent.commit stands flushed (careful (by simp [flushed]))
      · cases stepped
        exact consistent.moveTo trivial
    · contradiction
  | refresh i ok =>
    simp only [Store.step] at stepped
    split at stepped
    · next target stands =>
      cases stepped
      split
      · have cached : Consistent x requests { s with cache := target } :=
          ⟨fun j => (consistent.sound j).congr rfl rfl,consistent.kept⟩
        exact cached.moveTo trivial
      · exact consistent.moveTo trivial
    · contradiction

/-- In every run of careful steps, for any requests, no update is lost. -/
theorem no_lost_updates (x : BlueprintChecks) (requests : ι → Request) (row : Option Row)
    (cache : Option Blueprint) (actions : List (StoreAction ι)) (s : Store ι)
    (ran : run (Store.step x requests) actions { row,cache } = some s)
    (careful : Throughout (Store.step x requests) (Careful x requests) actions { row,cache }) :
    NoLostUpdates x s.log := by
  have initial : Consistent x requests { row,cache } :=
    ⟨fun _ => trivial,by simp,by simp,fun earlier c later parts => by simp at parts⟩
  exact (run_invariant (fun _ _ _ consistent good stepped => step_consistent consistent good stepped)
    ran initial careful).kept

end

/-- A content hash that tells apart blueprints with different node ids. -/
def idChecks : BlueprintChecks where
  calculateVersionLock bp := " ".intercalate (bp.nodes.map (·.id))
  refuses _ := none

def draftBlueprint : Blueprint := { blueprintId := "bp_1",nodes := [{ id := "draft",type := "llm" }] }

/-- Two clients add a node each to the blueprint they both have read. -/
def addTwice : Bool → Request
  | false => { method := .patch (some [{ id := "audit",type := "tool" }]),versionLock := some "draft" }
  | true => { method := .patch (some [{ id := "mail",type := "tool" }]),versionLock := some "draft" }

def overlapping : List (StoreAction Bool) :=
  [.load false true,.load true true,.fetch false true,.commit false true,.fetch true true,.commit true true]

/-- Both succeed with the same lock, and the first node is gone. -/
theorem overlapping_loses_update :
    ¬∀ (x : BlueprintChecks) (requests : Bool → Request) (row : Option Row) (cache : Option Blueprint)
      (actions : List (StoreAction Bool)) (s : Store Bool),
      run (Store.step x requests) actions { row,cache } = some s → NoLostUpdates x s.log := by
  intro claim
  have locks : (run (Store.step idChecks addTwice) overlapping
      { row := some ⟨draftBlueprint,1⟩,cache := none }).map (fun s => s.log.map (·.request.versionLock)) =
        some [some "draft",some "draft"] := by decide +kernel
  obtain ⟨s,ran,presented⟩ := Option.map_eq_some_iff.mp locks
  have once := (claim idChecks addTwice _ _ overlapping s ran).once
  rw [presented] at once
  simp at once

/-- One client adds a node, then the other deletes the blueprint it has read since. -/
def inTurn : Bool → Request
  | false => { method := .patch (some [{ id := "audit",type := "tool" }]),versionLock := some "draft" }
  | true => { method := .delete,versionLock := some "draft audit" }

def sequential : List (StoreAction Bool) :=
  [.load false true,.fetch false true,.commit false true,.load true true,.refresh false true,
    .fetch true true,.commit true true,.refresh true true]

def afterwards : Store Bool :=
  (run (Store.step idChecks inTurn) sequential { row := some ⟨draftBlueprint,1⟩,cache := none }).getD
    { row := none,cache := none }

theorem inTurn_loses_nothing : NoLostUpdates idChecks afterwards.log :=
  no_lost_updates idChecks inTurn (some ⟨draftBlueprint,1⟩) none sequential afterwards
    (by
      have ends : (run (Store.step idChecks inTurn) sequential
          { row := some ⟨draftBlueprint,1⟩,cache := none }).isSome = true := by decide +kernel
      obtain ⟨s,ran⟩ := Option.isSome_iff_exists.mp ends
      rw [afterwards,ran]
      rfl)
    (by decide +kernel)

end IceOS
