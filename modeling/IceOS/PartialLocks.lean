import IceOS.PartialBlueprints

/-! The locks of partial blueprints: whether the stored lock is the hash of the stored document, whether updates get lost,
and whether a finalized partial blueprint stays closed. -/
namespace IceOS.Incremental

open ActionRuns

/-- The blueprint that an update or a committed suggestion has changed, with the lock that it presented. -/
def PartialEvent.presented : PartialEvent → Option (String × String)
  | .changed id lock _ _ => some (id,lock)
  | _ => none

/-- Whether a partial blueprint is finalized, after what has happened. -/
def isFinalized (id : String) (log : List PartialEvent) : Bool :=
  log.foldl (fun finalized event =>
    match event with
    | .created other => if other = id then false else finalized
    | .finalized other _ _ => if other = id then true else finalized
    | .changed .. => finalized) false

namespace PartialStore

variable {ι : Type} [DecidableEq ι]

/-- Coherent locks that lose no update. Every change was made to the document that it replaced and whose lock was
presented, no lock was good for two, finalizing dropped only what it had read, and what was finalized was not changed. -/
structure Locking (x : PartialRoutes) (requests : ι → PartialRequest) (s : PartialStore ι) : Prop where
  coherent : ∀ id p, s.documents.get? id = some p → s.locks.get? id = some (x.calculateLock p)
  updatable : ∀ i registry id p update target, s.documents.get? id = some p → s.progress i = .arrived →
    requests i = .update id update (some (x.calculateLock p)) → x.applyUpdate registry (x.reread p) update = some target →
    ∃ t, run (step x requests) [.readJson i,.readLock i registry,.write i] s = some t ∧ t.progress i = .ended 200
  applied : ∀ id lock seen stored, .changed id lock seen stored ∈ s.log → stored = some seen ∧ lock = x.calculateLock seen
  once : (s.log.filterMap PartialEvent.presented).Nodup
  spared : ∀ id seen stored, .finalized id seen stored ∈ s.log → ∀ p ∈ stored, p = seen
  closed : ∀ earlier id lock seen stored later, s.log = earlier ++ .changed id lock seen stored :: later →
    isFinalized id earlier = false

/-- A step after which the locks are still in order. A design session finds the lock of its document already there; a write
finds the document and the lock that its request has read, and no change was made with this lock before; a deletion finds
the document that its request has read, or none. -/
def Careful (x : PartialRoutes) (requests : ι → PartialRequest) (s : PartialStore ι) : PartialAction ι → Prop
  | .create i drawnId _ => s.progress i = .arrived → requests i = .designSession →
      s.locks.get? drawnId = some (x.calculateLock { blueprintId := drawnId })
  | .write i => ∀ seen lock target, s.progress i = .writing seen lock target →
      s.documents.get? target.blueprintId = some seen ∧ s.locks.get? target.blueprintId = some lock ∧
        some (target.blueprintId,lock) ∉ s.log.map PartialEvent.presented
  | .delete i => ∀ seen id, s.progress i = .deleting seen → (requests i).blueprintId? = some id →
      ∀ p ∈ s.documents.get? id, p = seen
  | _ => True

/-! ### Lists of events -/

theorem isFinalized_append (id : String) (log : List PartialEvent) (event : PartialEvent) :
    isFinalized id (log ++ [event]) =
      match event with
      | .created other => if other = id then false else isFinalized id log
      | .finalized other _ _ => if other = id then true else isFinalized id log
      | .changed .. => isFinalized id log := by
  rw [isFinalized,List.foldl_append]
  rfl

/-- An occurrence in a list that has grown by one element is the new element or was there before. -/
theorem snoc_parts {α : Type} {log earlier later : List α} {e c : α} (parts : log ++ [e] = earlier ++ c :: later) :
    (log = earlier ∧ e = c ∧ later = []) ∨ ∃ rest, log = earlier ++ c :: rest ∧ later = rest ++ [e] := by
  rcases List.eq_nil_or_concat later with rfl | ⟨rest,last,rfl⟩
  · obtain ⟨same,single⟩ := List.append_inj' parts rfl
    exact .inl ⟨same,(List.cons.inj single).1,rfl⟩
  · have regrouped : log ++ [e] = (earlier ++ c :: rest) ++ [last] := by
      simpa only [List.concat_eq_append,List.append_assoc,List.cons_append] using parts
    obtain ⟨same,single⟩ := List.append_inj' regrouped rfl
    cases single
    exact .inr ⟨rest,same,List.concat_eq_append⟩

/-! ### The next update -/

theorem step_write (x : PartialRoutes) (requests : ι → PartialRequest) {s : PartialStore ι} {i : ι}
    {seen target : PartialBlueprint} {lock : String} (standing : s.progress i = .writing seen lock target) :
    step x requests s (.write i) = some { s.moveTo i (.ended 200) with
      documents := s.documents.set target.blueprintId target
      locks := s.locks.set target.blueprintId (x.calculateLock target)
      log := s.log ++ [.changed target.blueprintId lock seen (s.documents.get? target.blueprintId)] } := by
  simp only [step,standing]

/-- An update that presents the lock of the document is made. -/
theorem run_update {x : PartialRoutes} {requests : ι → PartialRequest} {s : PartialStore ι} {i : ι}
    {registry : RegistryView} {id : String} {p target : PartialBlueprint} {update : PartialBlueprintUpdate}
    (stored : s.documents.get? id = some p) (locked : s.locks.get? id = some (x.calculateLock p))
    (waiting : s.progress i = .arrived) (asked : requests i = .update id update (some (x.calculateLock p)))
    (updated : x.applyUpdate registry (x.reread p) update = some target) :
    ∃ t, run (step x requests) [.readJson i,.readLock i registry,.write i] s = some t ∧
      t.documents = s.documents.set target.blueprintId target ∧
      t.locks = s.locks.set target.blueprintId (x.calculateLock target) ∧
      t.progress = Function.update s.progress i (.ended 200) := by
  have accepted : PartialRoutes.checkLock (s.locks.get? id) (some (x.calculateLock p)) = .ok (x.calculateLock p) := by
    rw [locked]
    simp only [PartialRoutes.checkLock,x.lock_nonempty p,ne_eq,not_true_eq_false,or_self,if_false]
  have json : step x requests s (.readJson i) = some (s.moveTo i (.read (some p))) := by
    simp only [step,waiting,asked,PartialRequest.blueprintId?,stored,afterJson]
  have lock : step x requests (s.moveTo i (.read (some p))) (.readLock i registry) =
      some ((s.moveTo i (.read (some p))).moveTo i (.writing p (x.calculateLock p) target)) := by
    simp only [step,moveTo,Function.update_self,asked,PartialRequest.blueprintId?,PartialRoutes.proceed,accepted,updated]
  let u := (s.moveTo i (.read (some p))).moveTo i (.writing p (x.calculateLock p) target)
  have standing : u.progress i = .writing p (x.calculateLock p) target := Function.update_self ..
  have written := step_write x requests standing
  have ran : run (step x requests) [.readJson i,.readLock i registry,.write i] s =
      (step x requests u (.write i)).bind some := by
    simp only [run,json,lock,Option.bind_some]
    rfl
  rw [written] at ran
  refine ⟨_,ran,rfl,rfl,?_⟩
  simp only [u,moveTo,Function.update_idem]

/-- With a coherent lock, the client that reads the document and its lock can make the next update. -/
theorem updatable_of_coherent {x : PartialRoutes} {requests : ι → PartialRequest} {s : PartialStore ι}
    (coherent : ∀ id p, s.documents.get? id = some p → s.locks.get? id = some (x.calculateLock p)) {i : ι}
    {registry : RegistryView} {id : String} {p : PartialBlueprint} {update : PartialBlueprintUpdate}
    {target : PartialBlueprint} (stored : s.documents.get? id = some p) (waiting : s.progress i = .arrived)
    (asked : requests i = .update id update (some (x.calculateLock p)))
    (updated : x.applyUpdate registry (x.reread p) update = some target) :
    ∃ t, run (step x requests) [.readJson i,.readLock i registry,.write i] s = some t ∧ t.progress i = .ended 200 := by
  obtain ⟨t,ran,_,_,progress⟩ := run_update stored (coherent id p stored) waiting asked updated
  exact ⟨t,ran,by rw [progress,Function.update_self]⟩

/-! ### Steps -/

/-- Finalizing removes the document; the lock that is left says nothing. -/
structure Sound (x : PartialRoutes) (requests : ι → PartialRequest) (s : PartialStore ι) : Prop
    extends s.Locking x requests where
  removed : ∀ id, isFinalized id s.log = true → s.documents.get? id = none

/-- What does not touch the documents, the locks and the log leaves them in order. -/
theorem Sound.frame {x : PartialRoutes} {requests : ι → PartialRequest} {s t : PartialStore ι}
    (sound : s.Sound x requests) (documents : t.documents = s.documents) (locks : t.locks = s.locks)
    (log : t.log = s.log) : t.Sound x requests := by
  have coherent (id : String) (p : PartialBlueprint) (stored : t.documents.get? id = some p) :
      t.locks.get? id = some (x.calculateLock p) := by
    rw [locks]
    rw [documents] at stored
    exact sound.coherent id p stored
  constructor
  · constructor
    · exact coherent
    · intro i registry id p update target
      exact updatable_of_coherent coherent
    · rw [log]
      exact sound.applied
    · rw [log]
      exact sound.once
    · rw [log]
      exact sound.spared
    · rw [log]
      exact sound.closed
  · rw [log,documents]
    exact sound.removed

/-- A document is written together with its lock. -/
theorem coherent_set {x : PartialRoutes} {documents : OrderedDict String PartialBlueprint}
    {locks : OrderedDict String String}
    (coherent : ∀ id p, documents.get? id = some p → locks.get? id = some (x.calculateLock p)) {written : String}
    {target : PartialBlueprint} {after : OrderedDict String String}
    (locked : after.get? written = some (x.calculateLock target))
    (others : ∀ id, written ≠ id → after.get? id = locks.get? id) (id : String) (p : PartialBlueprint)
    (stored : (documents.set written target).get? id = some p) : after.get? id = some (x.calculateLock p) := by
  by_cases same : written = id
  · subst same
    rw [OrderedDict.get?_set_same] at stored
    cases stored
    exact locked
  · rw [OrderedDict.get?_set_other _ _ same] at stored
    rw [others id same]
    exact coherent id p stored

/-- Creating a partial blueprint with its lock. -/
theorem Sound.create {x : PartialRoutes} {requests : ι → PartialRequest} {s t : PartialStore ι}
    (sound : s.Sound x requests) {id : String} {p : PartialBlueprint} (documents : t.documents = s.documents.set id p)
    (locked : t.locks.get? id = some (x.calculateLock p)) (others : ∀ j, id ≠ j → t.locks.get? j = s.locks.get? j)
    (log : t.log = s.log ++ [.created id]) : t.Sound x requests := by
  have coherent (j : String) (q : PartialBlueprint) (stored : t.documents.get? j = some q) :
      t.locks.get? j = some (x.calculateLock q) := by
    rw [documents] at stored
    exact coherent_set sound.coherent locked others j q stored
  constructor
  · constructor
    · exact coherent
    · intro i registry id p update target
      exact updatable_of_coherent coherent
    · intro j lock seen stored member
      rw [log] at member
      exact sound.applied j lock seen stored (by simpa using member)
    · rw [log,List.filterMap_append]
      simpa only [List.filterMap_cons,PartialEvent.presented,List.filterMap_nil,List.append_nil] using sound.once
    · intro j seen stored member
      rw [log] at member
      exact sound.spared j seen stored (by simpa using member)
    · intro earlier j lock seen stored later parts
      rw [log] at parts
      rcases snoc_parts parts with ⟨_,impossible,_⟩ | ⟨rest,before,_⟩
      · cases impossible
      · exact sound.closed earlier j lock seen stored rest before
  · intro j finalized
    rw [log,isFinalized_append] at finalized
    rw [documents]
    by_cases same : id = j
    · simp only [same,if_true,Bool.false_eq_true] at finalized
    · rw [OrderedDict.get?_set_other _ _ same]
      simp only [same,if_false] at finalized
      exact sound.removed j finalized

/-- A change that was made to the stored document with its own lock, which was not presented before. -/
theorem Sound.change {x : PartialRoutes} {requests : ι → PartialRequest} {s t : PartialStore ι}
    (sound : s.Sound x requests) {lock : String} {seen target : PartialBlueprint}
    (stored : s.documents.get? target.blueprintId = some seen) (locked : s.locks.get? target.blueprintId = some lock)
    (fresh : some (target.blueprintId,lock) ∉ s.log.map PartialEvent.presented)
    (documents : t.documents = s.documents.set target.blueprintId target)
    (locks : t.locks = s.locks.set target.blueprintId (x.calculateLock target))
    (log : t.log = s.log ++ [.changed target.blueprintId lock seen (s.documents.get? target.blueprintId)]) :
    t.Sound x requests := by
  have own : lock = x.calculateLock seen := Option.some.inj (locked.symm.trans (sound.coherent _ _ stored))
  have here : isFinalized target.blueprintId s.log = false := by
    by_contra finalized
    rw [sound.removed _ (Bool.of_not_eq_false finalized)] at stored
    cases stored
  have coherent (j : String) (q : PartialBlueprint) (found : t.documents.get? j = some q) :
      t.locks.get? j = some (x.calculateLock q) := by
    rw [documents] at found
    refine coherent_set sound.coherent ?_ (fun id other => ?_) j q found
    · rw [locks,OrderedDict.get?_set_same]
    · rw [locks,OrderedDict.get?_set_other _ _ other]
  constructor
  · constructor
    · exact coherent
    · intro i registry id p update target
      exact updatable_of_coherent coherent
    · intro j lock' seen' stored' member
      rw [log] at member
      rcases List.mem_append.mp member with old | new
      · exact sound.applied j lock' seen' stored' old
      · cases List.mem_singleton.mp new
        exact ⟨stored,own⟩
    · rw [log,List.filterMap_append]
      refine List.nodup_append.mpr ⟨sound.once,List.nodup_singleton _,fun a old b new same => fresh ?_⟩
      cases List.mem_singleton.mp new
      subst same
      obtain ⟨event,member,presented⟩ := List.mem_filterMap.mp old
      exact List.mem_map.mpr ⟨event,member,presented⟩
    · intro j seen' stored' member
      rw [log] at member
      exact sound.spared j seen' stored' (by simpa using member)
    · intro earlier j lock' seen' stored' later parts
      rw [log] at parts
      rcases snoc_parts parts with ⟨rfl,new,_⟩ | ⟨rest,before,_⟩
      · cases new
        exact here
      · exact sound.closed earlier j lock' seen' stored' rest before
  · intro j finalized
    rw [log,isFinalized_append] at finalized
    have other : target.blueprintId ≠ j := by
      rintro rfl
      rw [here] at finalized
      cases finalized
    rw [documents,OrderedDict.get?_set_other _ _ other]
    exact sound.removed j finalized

/-- Finalizing what was read. -/
theorem Sound.finalize {x : PartialRoutes} {requests : ι → PartialRequest} {s t : PartialStore ι}
    (sound : s.Sound x requests) {id : String} {seen : PartialBlueprint} (own : ∀ p ∈ s.documents.get? id, p = seen)
    (documents : t.documents = s.documents.erase id) (locks : t.locks = s.locks)
    (log : t.log = s.log ++ [.finalized id seen (s.documents.get? id)]) : t.Sound x requests := by
  have kept (j : String) : t.documents.get? j = if j = id then none else s.documents.get? j := by
    rw [documents,OrderedDict.get?_erase_eq_update,Function.update_apply]
  have coherent (j : String) (q : PartialBlueprint) (found : t.documents.get? j = some q) :
      t.locks.get? j = some (x.calculateLock q) := by
    rw [locks]
    rw [kept] at found
    split at found
    · cases found
    · exact sound.coherent j q found
  constructor
  · constructor
    · exact coherent
    · intro i registry id p update target
      exact updatable_of_coherent coherent
    · intro j lock seen' stored member
      rw [log] at member
      exact sound.applied j lock seen' stored (by simpa using member)
    · rw [log,List.filterMap_append]
      simpa only [List.filterMap_cons,PartialEvent.presented,List.filterMap_nil,List.append_nil] using sound.once
    · intro j seen' stored member
      rw [log] at member
      rcases List.mem_append.mp member with old | new
      · exact sound.spared j seen' stored old
      · cases List.mem_singleton.mp new
        exact own
    · intro earlier j lock seen' stored later parts
      rw [log] at parts
      rcases snoc_parts parts with ⟨_,impossible,_⟩ | ⟨rest,before,_⟩
      · cases impossible
      · exact sound.closed earlier j lock seen' stored rest before
  · intro j finalized
    rw [kept]
    split
    · rfl
    · next other =>
      rw [log,isFinalized_append] at finalized
      simp only [Ne.symm other,if_false] at finalized
      exact sound.removed j finalized

theorem Sound.step {x : PartialRoutes} {requests : ι → PartialRequest} {s t : PartialStore ι}
    (sound : s.Sound x requests) {a : PartialAction ι} (careful : s.Careful x requests a)
    (stepped : s.step x requests a = some t) : t.Sound x requests := by
  cases a with
  | create i drawnId registry =>
    simp only [PartialStore.step] at stepped
    split at stepped
    · cases stepped
      exact sound.create rfl (OrderedDict.get?_set_same ..) (fun _ other => OrderedDict.get?_set_other _ _ other) rfl
    · next waiting asked =>
      cases stepped
      exact sound.create rfl (careful waiting asked) (fun _ _ => rfl) rfl
    · cases stepped
  | readJson i =>
    simp only [PartialStore.step] at stepped
    split at stepped
    · cases stepped
      exact sound.frame rfl rfl rfl
    · cases stepped
  | readLock i registry =>
    simp only [PartialStore.step] at stepped
    split at stepped
    · cases stepped
      exact sound.frame rfl rfl rfl
    · cases stepped
  | write i =>
    simp only [PartialStore.step] at stepped
    split at stepped
    · next seen lock target standing =>
      cases stepped
      obtain ⟨stored,locked,fresh⟩ := careful seen lock target standing
      exact sound.change stored locked fresh rfl rfl rfl
    · cases stepped
  | register i =>
    simp only [PartialStore.step] at stepped
    split at stepped
    · cases stepped
      exact sound.frame rfl rfl rfl
    · cases stepped
  | delete i =>
    simp only [PartialStore.step] at stepped
    split at stepped
    · next seen id standing asked =>
      cases stepped
      exact sound.finalize (careful seen id standing asked) rfl rfl rfl
    · cases stepped
  | fail i =>
    simp only [PartialStore.step] at stepped
    split at stepped
    · cases stepped
    · cases stepped
      exact sound.frame rfl rfl rfl

/-- A step after which the locks are in order was a careful one. -/
theorem Sound.careful {x : PartialRoutes} {requests : ι → PartialRequest} {s t : PartialStore ι}
    (sound : s.Sound x requests) {a : PartialAction ι} (stepped : s.step x requests a = some t)
    (locking : t.Locking x requests) : s.Careful x requests a := by
  cases a with
  | create i drawnId registry =>
    intro waiting asked
    simp only [PartialStore.step,waiting,asked,Option.some.injEq] at stepped
    subst stepped
    exact locking.coherent drawnId { blueprintId := drawnId } (OrderedDict.get?_set_same ..)
  | write i =>
    intro seen lock target standing
    rw [step_write x requests standing] at stepped
    cases stepped
    obtain ⟨stored,rfl⟩ := locking.applied _ lock seen _ (List.mem_append_right _ (List.mem_singleton_self _))
    refine ⟨stored,sound.coherent _ seen stored,fun member => ?_⟩
    obtain ⟨event,before,presented⟩ := List.mem_map.mp member
    have once := locking.once
    rw [List.filterMap_append] at once
    exact (List.nodup_append.mp once).2.2 _ (List.mem_filterMap.mpr ⟨event,before,presented⟩) _
      (List.mem_singleton_self _) rfl
  | delete i =>
    intro seen id standing asked
    simp only [PartialStore.step,standing,asked,Option.some.injEq] at stepped
    subst stepped
    exact locking.spared id seen _ (List.mem_append_right _ (List.mem_singleton_self _))
  | readJson | readLock | register | fail => trivial

theorem sound_empty (x : PartialRoutes) (requests : ι → PartialRequest) : ({} : PartialStore ι).Sound x requests := by
  have coherent (id : String) (p : PartialBlueprint) (stored : ({} : PartialStore ι).documents.get? id = some p) :
      ({} : PartialStore ι).locks.get? id = some (x.calculateLock p) := by cases stored
  constructor
  · constructor
    · exact coherent
    · intro i registry id p update target
      exact updatable_of_coherent coherent
    · intro id lock seen stored member
      cases member
    · exact List.nodup_nil
    · intro id seen stored member
      cases member
    · intro earlier id lock seen stored later parts
      cases earlier <;> cases parts
  · intro id _
    rfl

/-- For any requests in any interleaving, the locks are in order all along a run exactly if all its steps are careful. -/
theorem locking_iff (x : PartialRoutes) (requests : ι → PartialRequest) (actions : List (PartialAction ι))
    (t : PartialStore ι) (ran : run (PartialStore.step x requests) actions {} = some t) :
    (∀ earlier later s, actions = earlier ++ later → run (PartialStore.step x requests) earlier {} = some s →
      s.Locking x requests) ↔ Throughout (PartialStore.step x requests) (Careful x requests) actions {} :=
  throughout_iff_of_strong
    (fun _ _ _ sound stepped => ⟨sound.careful stepped,fun careful => (sound.step careful stepped).toLocking⟩)
    (fun _ _ _ sound careful stepped => sound.step careful stepped) ran (sound_empty x requests)
    (sound_empty x requests).toLocking

/-! ### Runs -/

/-- A content hash that tells apart blueprints with different node ids. -/
def idRoutes : PartialRoutes where
  calculateLock p := "lock " ++ " ".intercalate (p.nodes.map (·.id))
  lock_nonempty p same := by simp at same
  readsPartial := (·.isPartial)
  replaceFields node _ := some node
  lower := id
  toolName _ := none
  package _ := none
  workflowRef _ := none
  contentId bp := bp.blueprintId
  overBudget _ := false

def anything : RegistryView := ⟨fun _ => true,fun _ => true,fun _ => true⟩

def toolNode (id : String) : PartialNodeSpec := { id,type := "tool" }

/-- A partial blueprint of one node, two updates that each add another, its finalization, and a design session. -/
def editing : Fin 5 → PartialRequest
  | 0 => .create (some (toolNode "draft"))
  | 1 => .update "partial_bp_1" { action := .addNode,node := some (toolNode "audit") } (some "lock draft")
  | 2 => .update "partial_bp_1" { action := .addNode,node := some (toolNode "mail") } (some "lock draft")
  | 3 => .finalize "partial_bp_1" (some "lock draft")
  | 4 => .designSession

def overlapping : List (PartialAction (Fin 5)) :=
  [.create 0 "partial_bp_1" anything,.readJson 1,.readLock 1 anything,.readJson 2,.readLock 2 anything,.write 1,.write 2]

def resurrecting : List (PartialAction (Fin 5)) :=
  [.create 0 "partial_bp_1" anything,.readJson 1,.readLock 1 anything,.readJson 3,.readLock 3 anything,.register 3,
    .delete 3,.write 1]

/-- A design session leaves a document without a lock; two updates succeed with one lock; an update brings back a partial
blueprint that has been finalized. -/
theorem locking_breaks :
    (∃ s, run (PartialStore.step idRoutes editing) [.create 4 "partial_bp_2" anything] {} = some s ∧
      ¬ s.Locking idRoutes editing) ∧
    (∃ s, run (PartialStore.step idRoutes editing) overlapping {} = some s ∧ ¬ s.Locking idRoutes editing) ∧
    ∃ s, run (PartialStore.step idRoutes editing) resurrecting {} = some s ∧ ¬ s.Locking idRoutes editing := by
  refine ⟨⟨_,rfl,fun locking => ?_⟩,?_,?_⟩
  · have locked := locking.coherent "partial_bp_2" { blueprintId := "partial_bp_2" } rfl
    cases locked
  · have presented : (run (PartialStore.step idRoutes editing) overlapping {}).map
        (fun s => s.log.filterMap PartialEvent.presented) =
          some [("partial_bp_1","lock draft"),("partial_bp_1","lock draft")] := by decide +kernel
    obtain ⟨s,ran,twice⟩ := Option.map_eq_some_iff.mp presented
    refine ⟨s,ran,fun locking => ?_⟩
    have once := locking.once
    rw [twice] at once
    revert once
    decide
  · have changed : (run (PartialStore.step idRoutes editing) resurrecting {}).map
        (fun s => (isFinalized "partial_bp_1" s.log.dropLast,s.log.getLast?.bind PartialEvent.presented)) =
          some (true,some ("partial_bp_1","lock draft")) := by decide +kernel
    obtain ⟨s,ran,last⟩ := Option.map_eq_some_iff.mp changed
    refine ⟨s,ran,fun locking => ?_⟩
    obtain ⟨finalized,presented⟩ := Prod.mk.inj last
    obtain ⟨event,newest,same⟩ := Option.bind_eq_some_iff.mp presented
    cases event with
    | changed id lock seen stored =>
      cases same
      have still := locking.closed s.log.dropLast _ _ seen stored [] (List.dropLast_append_getLast? _ newest).symm
      rw [finalized] at still
      cases still
    | created | finalized => cases same

def inTurn : List (PartialAction (Fin 5)) :=
  [.create 0 "partial_bp_1" anything,.readJson 1,.readLock 1 anything,.write 1,.readJson 2,.readLock 2 anything]

/-- One update after the other, of which the second is refused. -/
theorem inTurn_locking_iff :
    (∀ earlier later s, inTurn = earlier ++ later → run (PartialStore.step idRoutes editing) earlier {} = some s →
      s.Locking idRoutes editing) ↔
      Throughout (PartialStore.step idRoutes editing) (Careful idRoutes editing) inTurn {} :=
  locking_iff idRoutes editing inTurn ((run (PartialStore.step idRoutes editing) inTurn {}).getD {}) (by
    have ends : (run (PartialStore.step idRoutes editing) inTurn {}).isSome = true := by decide +kernel
    obtain ⟨s,ran⟩ := Option.isSome_iff_exists.mp ends
    rw [ran]
    rfl)

end PartialStore

end IceOS.Incremental
