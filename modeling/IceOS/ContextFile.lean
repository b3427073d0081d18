import IceOS.ContextAgreement
import Mathlib.Logic.Function.Basic

/-! Instances of the file store that work on one file. The locks cover what is copied into or out of a buffer: the file
is truncated before the lock is taken, and the buffer written after it was given back. -/
namespace IceOS

open ActionRuns PythonJson

variable {φ ι : Type}

inductive FileCall (φ : Type) where
  | set (nodeId : String) (context : Json φ) (schema : ContextSchema)
  | update (nodeId : String) (content : Json φ) (executionId : Option String) (schema : ContextSchema)

namespace FileCall

def nodeId : FileCall φ → String
  | .set nodeId _ _ | .update nodeId _ _ _ => nodeId

def entry : FileCall φ → ContextEntry φ
  | .set _ context _ => { data := context }
  | .update _ content executionId _ => { data := content,executionId := givenId executionId }

def isUpdate : FileCall φ → Bool
  | .set .. => false
  | .update .. => true

def valid : FileCall φ → Bool
  | .set _ content schema | .update _ content _ schema => validateSchema content schema

end FileCall

/-- A call has a copy of the other entries, which an update reads from the file and a set has in its cache. Then it
opens the file, and writes what it has with its own entry. -/
inductive FileProgress (φ : Type) where
  | idle
  | copied (nodeId : String) (entry : ContextEntry φ) (copy : ContextDocument φ)
  | opened (nodeId : String) (entry : ContextEntry φ) (copy : ContextDocument φ)

/-- The file has a length also where it does not parse. The latest entries are those of the calls that wrote last. -/
structure SharedFile (ι φ : Type) where
  file : Option (WrittenDocument φ)
  length : Nat
  caches : ι → ContextDocument φ
  progress : ι → FileProgress φ := fun _ => .idle
  latest : String → Option (ContextEntry φ)

inductive FileAction (ι φ : Type) where
  | call (i : ι) (c : FileCall φ)
  | go (i : ι)

namespace SharedFile

/-- The store as an instance sees it. -/
def view (s : SharedFile ι φ) (i : ι) : ContextStore φ := ⟨s.caches i,s.file⟩

def readFile (s : SharedFile ι φ) : ContextDocument φ := ContextStore.readFile { file := s.file }

section

variable [DecidableEq ι]

/-- `open(path,"w")` -/
def truncate (s : SharedFile ι φ) (i : ι) (nodeId : String) (entry : ContextEntry φ) (copy : ContextDocument φ) :
    SharedFile ι φ :=
  { s with file := none,length := 0,progress := Function.update s.progress i (.opened nodeId entry copy) }

variable (size : ContextDocument φ → Nat)

/-- A text that is written over a longer one leaves the end of that. -/
def write (s : SharedFile ι φ) (i : ι) (nodeId : String) (entry : ContextEntry φ) (copy : ContextDocument φ) :
    SharedFile ι φ :=
  let document := copy.set nodeId entry
  { s with
    file :=
      if written : writable document = true then
        if s.length ≤ size document then some ⟨document,written⟩ else none
      else none
    length := max s.length (size document)
    progress := Function.update s.progress i .idle
    latest := Function.update s.latest nodeId (some entry) }

/-- An instance begins a call, or goes on with it. While it is busy it is not called. -/
def step (s : SharedFile ι φ) : FileAction ι φ → Option (SharedFile ι φ)
  | .call i c =>
    match s.progress i with
    | .idle =>
      if !c.valid then some s
      else
        let t := { s with caches := Function.update s.caches i ((s.caches i).set c.nodeId c.entry) }
        match c with
        | .set .. => some (t.truncate i c.nodeId c.entry (s.caches i))
        | .update .. =>
          some { t with progress := Function.update s.progress i (.copied c.nodeId c.entry s.readFile) }
    | _ => some s
  | .go i =>
    match s.progress i with
    | .idle => some s
    | .copied nodeId entry copy => some (s.truncate i nodeId entry copy)
    | .opened nodeId entry copy => some (s.write size i nodeId entry copy)

end

def isOpen : FileProgress φ → Bool
  | .opened .. => true
  | _ => false

/-- The file has the entry that was written last for each node. -/
def HoldsLatest (s : SharedFile ι φ) : Prop := ∀ nodeId, s.readFile.get? nodeId = s.latest nodeId

/-- The instances have loaded the file. -/
def start (size : ContextDocument φ → Nat) (d : WrittenDocument φ) : SharedFile ι φ where
  file := some d
  length := size d.document
  caches _ := d.document
  latest := d.document.get?

/-- The latest entries are in the file whenever a call has written it, and whenever no call is under way. -/
structure Kept [DecidableEq ι] (size : ContextDocument φ → Nat) (d : WrittenDocument φ)
    (actions : List (FileAction ι φ)) : Prop where
  written : ∀ earlier i later s t, actions = earlier ++ .go i :: later →
    run (step size) earlier (start size d) = some s → isOpen (s.progress i) = true → step size s (.go i) = some t →
    t.HoldsLatest
  settled : ∀ earlier later s, actions = earlier ++ later → run (step size) earlier (start size d) = some s →
    (∀ i, s.progress i = .idle) → s.HoldsLatest

/-- A call writes while its copy has the latest entries of the other nodes. They can be written, and no longer text came
into the file since the call opened it. -/
def Careful (size : ContextDocument φ → Nat) (s : SharedFile ι φ) : FileAction ι φ → Prop
  | .go i =>
    match s.progress i with
    | .opened nodeId entry copy =>
      (∀ other, other ≠ nodeId → copy.get? other = s.latest other) ∧ writable (copy.set nodeId entry) = true ∧
        s.length ≤ size (copy.set nodeId entry)
    | _ => True
  | .call _ _ => True

/-- Where no call has the file open, it holds the latest entries. -/
def Sound (s : SharedFile ι φ) : Prop := (∀ i, isOpen (s.progress i) = false) → s.HoldsLatest

theorem start_sound (size : ContextDocument φ → Nat) (d : WrittenDocument φ) : (start size d : SharedFile ι φ).Sound :=
  fun _ _ => rfl

/-! ### One call of a store -/

/-- What a call does to the store of an instance. -/
def perform (s : ContextStore φ) : FileCall φ → ContextStore φ
  | .set nodeId context schema => (s.set nodeId context schema).2
  | .update nodeId content executionId schema => (s.update nodeId content executionId schema).2

theorem perform_invalid {c : FileCall φ} (invalid : c.valid = false) (s : ContextStore φ) : perform s c = s := by
  cases c with
  | set nodeId context schema =>
    have refused : validateSchema context schema = false := invalid
    simp only [perform,ContextStore.set,refused,Bool.not_false,if_true]
  | update nodeId content executionId schema =>
    have refused : validateSchema content schema = false := invalid
    simp only [perform,ContextStore.update,refused,Bool.not_false,if_true]

theorem writeFile_snd (s : ContextStore φ) (d : ContextDocument φ) :
    (s.writeFile d).2 = { s with file := if written : writable d = true then some ⟨d,written⟩ else none } := by
  rw [ContextStore.writeFile]
  split <;> rfl

theorem perform_set (s : ContextStore φ) {nodeId : String} {context : Json φ} {schema : ContextSchema}
    (valid : validateSchema context schema = true) :
    let entry : ContextEntry φ := { data := context }
    perform s (.set nodeId context schema) =
      ({ s with cache := s.cache.set nodeId entry }.writeFile (s.cache.set nodeId entry)).2 := by
  simp only [perform,ContextStore.set,valid,Bool.not_true,Bool.false_eq_true,if_false]
  split
  · next wrote => rw [wrote]
  · next wrote => rw [wrote]

theorem perform_update (s : ContextStore φ) {nodeId : String} {content : Json φ} {executionId : Option String}
    {schema : ContextSchema} (valid : validateSchema content schema = true) :
    let entry : ContextEntry φ := { data := content,executionId := givenId executionId }
    perform s (.update nodeId content executionId schema) =
      ({ s with cache := s.cache.set nodeId entry }.writeFile (s.readFile.set nodeId entry)).2 := by
  simp only [perform,ContextStore.update,valid,Bool.not_true,Bool.false_eq_true,if_false]
  rfl

/-! ### Steps -/

section

variable [DecidableEq ι] {size : ContextDocument φ → Nat} {s t : SharedFile ι φ} {i : ι}

theorem enabled (size : ContextDocument φ → Nat) (s : SharedFile ι φ) (a : FileAction ι φ) :
    ∃ t, step size s a = some t := by
  cases a with
  | call i c =>
    simp only [step]
    split
    · split
      · exact ⟨_,rfl⟩
      · split <;> exact ⟨_,rfl⟩
    · exact ⟨_,rfl⟩
  | go i =>
    simp only [step]
    split <;> exact ⟨_,rfl⟩

/-- A document that can be written and covers what was there is what the file is read as. -/
theorem write_readFile {nodeId : String} {entry : ContextEntry φ} {copy : ContextDocument φ}
    (written : writable (copy.set nodeId entry) = true) (covers : s.length ≤ size (copy.set nodeId entry)) :
    (s.write size i nodeId entry copy).readFile = copy.set nodeId entry := by
  simp only [write,readFile,dif_pos written,if_pos covers,ContextStore.readFile]

theorem write_broken {nodeId : String} {entry : ContextEntry φ} {copy : ContextDocument φ}
    (fails : ¬(writable (copy.set nodeId entry) = true ∧ s.length ≤ size (copy.set nodeId entry))) :
    (s.write size i nodeId entry copy).readFile = .empty := by
  by_cases written : writable (copy.set nodeId entry) = true
  · have short : ¬s.length ≤ size (copy.set nodeId entry) := fun covers => fails ⟨written,covers⟩
    simp only [write,readFile,dif_pos written,if_neg short,ContextStore.readFile]
  · simp only [write,readFile,dif_neg written,ContextStore.readFile]

/-- The file holds the latest entries after a call has written exactly if the call took care. -/
theorem write_holds (nodeId : String) (entry : ContextEntry φ) (copy : ContextDocument φ) :
    (s.write size i nodeId entry copy).HoldsLatest ↔
      (∀ other, other ≠ nodeId → copy.get? other = s.latest other) ∧ writable (copy.set nodeId entry) = true ∧
        s.length ≤ size (copy.set nodeId entry) := by
  have latest (other : String) : (s.write size i nodeId entry copy).latest other =
      if other = nodeId then some entry else s.latest other := Function.update_apply _ _ _ _
  constructor
  · intro holds
    have fine : writable (copy.set nodeId entry) = true ∧ s.length ≤ size (copy.set nodeId entry) := by
      by_contra fails
      have own := holds nodeId
      rw [write_broken fails,latest,if_pos rfl] at own
      cases own
    refine ⟨fun other differs => ?_,fine⟩
    have held := holds other
    rwa [write_readFile fine.1 fine.2,OrderedDict.get?_set_other _ _ differs.symm,latest,if_neg differs] at held
  · rintro ⟨others,written,covers⟩ other
    rw [write_readFile written covers,latest]
    split
    · next same => rw [same,OrderedDict.get?_set_same]
    · next differs => rw [OrderedDict.get?_set_other _ _ (Ne.symm differs),others other differs]

theorem written_iff (stepped : step size s (.go i) = some t) :
    (isOpen (s.progress i) = true → t.HoldsLatest) ↔ Careful size s (.go i) := by
  simp only [step] at stepped
  simp only [Careful]
  cases there : s.progress i with
  | idle => simp [isOpen]
  | copied nodeId entry copy => simp [isOpen]
  | opened nodeId entry copy =>
    simp only [there,Option.some.injEq] at stepped
    subst stepped
    simpa only [isOpen,forall_const] using write_holds nodeId entry copy

/-! ### Runs -/

/-- A call that is under way without the file open changes nothing of what the file holds. -/
theorem Sound.pass (sound : s.Sound) {t : SharedFile ι φ} {p : FileProgress φ} (file : t.file = s.file)
    (latest : t.latest = s.latest) (progress : t.progress = Function.update s.progress i p)
    (closed : isOpen (s.progress i) = false) : t.Sound := by
  intro shut other
  have before : ∀ j, isOpen (s.progress j) = false := by
    intro j
    by_cases same : j = i
    · exact same ▸ closed
    · have after := shut j
      rwa [progress,Function.update_of_ne same] at after
  have held := sound before other
  rw [readFile,file,latest]
  exact held

/-- Nothing is asked of the file while a call has it open. -/
theorem truncate_sound (nodeId : String) (entry : ContextEntry φ) (copy : ContextDocument φ) :
    (s.truncate i nodeId entry copy).Sound := by
  intro shut
  have own := shut i
  simp only [truncate,Function.update_self] at own
  cases own

theorem sound_step {a : FileAction ι φ} (sound : s.Sound) (careful : Careful size s a)
    (stepped : step size s a = some t) : t.Sound := by
  cases a with
  | call i c =>
    simp only [step] at stepped
    split at stepped
    · next there =>
      split at stepped
      · cases stepped
        exact sound
      · split at stepped
        · cases stepped
          exact truncate_sound _ _ _
        · cases stepped
          exact sound.pass rfl rfl rfl (by rw [there]; rfl)
    · cases stepped
      exact sound
  | go i =>
    have written := (written_iff stepped).mpr careful
    simp only [step] at stepped
    split at stepped
    · cases stepped
      exact sound
    · cases stepped
      exact truncate_sound _ _ _
    · next there =>
      cases stepped
      exact fun _ => written (by rw [there]; rfl)

theorem go_iff {a : FileAction ι φ} (stepped : step size s a = some t) :
    (∀ i, a = .go i → isOpen (s.progress i) = true → t.HoldsLatest) ↔ Careful size s a := by
  cases a with
  | call i c => exact iff_of_true (fun _ same => by cases same) trivial
  | go i =>
    rw [← written_iff stepped]
    constructor
    · exact fun always => always i rfl
    · intro holds j same
      cases same
      exact holds

/-- The writes of a run keep the latest entries exactly if every call takes care as it writes. -/
theorem throughout_go_iff (size : ContextDocument φ → Nat) (d : WrittenDocument φ) (actions : List (FileAction ι φ)) :
    (∀ earlier a later s t, actions = earlier ++ a :: later → run (step size) earlier (start size d) = some s →
      step size s a = some t → ∀ i, a = .go i → isOpen (s.progress i) = true → t.HoldsLatest) ↔
      Throughout (step size) (Careful size) actions (start size d) := by
  obtain ⟨t,ran⟩ := run_total (enabled size) actions (start size d)
  refine @throughout_steps_iff _ _ (step size) (Careful size) (fun _ => True)
    (fun s a t => ∀ i, a = .go i → isOpen (s.progress i) = true → t.HoldsLatest) ?_ ?_ actions _ t ran trivial
  · exact fun s a t _ stepped => go_iff stepped
  · exact fun _ _ _ _ _ _ => trivial

theorem kept_of_careful {d : WrittenDocument φ} {actions : List (FileAction ι φ)}
    (careful : Throughout (step size) (Careful size) actions (start size d)) : Kept size d actions where
  written earlier i later s t parts reached opened stepped :=
    (throughout_go_iff size d actions).mpr careful earlier (.go i) later s t parts reached stepped i rfl opened
  settled := by
    rintro earlier later s rfl reached idle
    have early := (throughout_append reached careful).1
    have sound := run_invariant (fun s a t => sound_step (s := s) (t := t) (a := a)) reached (start_sound size d) early
    exact sound fun i => by rw [idle i]; rfl

/-- A set has ended one turn before an update. -/
def alone (i : ι) (c : FileCall φ) : List (FileAction ι φ) := [.call i c,.go i,.go i]

/-- Between the opening of the file and the writing nothing happened. -/
theorem truncate_write (nodeId : String) (entry : ContextEntry φ) (copy : ContextDocument φ) :
    ((s.truncate i nodeId entry copy).write size i nodeId entry copy).view i =
      ((s.view i).writeFile (copy.set nodeId entry)).2 := by
  rw [writeFile_snd]
  simp only [view,write,truncate,Nat.zero_le,if_true]

theorem truncate_write_progress (nodeId : String) (entry : ContextEntry φ) (copy : ContextDocument φ) :
    ((s.truncate i nodeId entry copy).write size i nodeId entry copy).progress =
      Function.update s.progress i .idle := by
  simp only [write,truncate,Function.update_idem]

/-- The entry is in the cache of the instance before anything happens to the file. -/
def cached (s : SharedFile ι φ) (i : ι) (c : FileCall φ) : SharedFile ι φ :=
  { s with caches := Function.update s.caches i ((s.caches i).set c.nodeId c.entry) }

theorem cached_view (c : FileCall φ) :
    (s.cached i c).view i = { s.view i with cache := (s.caches i).set c.nodeId c.entry } := by
  simp only [view,cached,Function.update_self]

theorem alone_set {nodeId : String} {context : Json φ} {schema : ContextSchema} (idle : s.progress i = .idle)
    (valid : validateSchema context schema = true) :
    run (step size) (alone i (.set nodeId context schema)) s =
      some (((s.cached i (.set nodeId context schema)).truncate i nodeId { data := context } (s.caches i)).write size i
        nodeId { data := context } (s.caches i)) := by
  simp only [alone,run,step,idle,FileCall.valid,valid,Bool.not_true,Bool.false_eq_true,if_false,Option.bind_some,
    FileCall.nodeId,FileCall.entry,truncate,write,Function.update_self,cached]
  rfl

theorem alone_update {nodeId : String} {content : Json φ} {executionId : Option String} {schema : ContextSchema}
    (idle : s.progress i = .idle) (valid : validateSchema content schema = true) :
    let entry : ContextEntry φ := { data := content,executionId := givenId executionId }
    run (step size) (alone i (.update nodeId content executionId schema)) s =
      some (((s.cached i (.update nodeId content executionId schema)).truncate i nodeId entry s.readFile).write size i
        nodeId entry s.readFile) := by
  simp only [alone,run,step,idle,FileCall.valid,valid,Bool.not_true,Bool.false_eq_true,if_false,Option.bind_some,
    FileCall.nodeId,FileCall.entry,truncate,write,Function.update_self,cached,Function.update_idem]
  rfl

/-- A call that runs alone does to the store of its instance what the call of a store does. -/
theorem alone_view (c : FileCall φ) (idle : s.progress i = .idle) : ∃ t, run (step size) (alone i c) s = some t ∧
    t.view i = perform (s.view i) c ∧ t.progress = s.progress := by
  have quiet : Function.update s.progress i .idle = s.progress := by rw [← idle,Function.update_eq_self]
  cases fits : c.valid with
  | false =>
    refine ⟨s,?_,(perform_invalid fits _).symm,rfl⟩
    simp only [alone,run,step,idle,fits,Bool.not_false,if_true,Option.bind_some]
  | true =>
    cases c with
    | set nodeId context schema =>
      refine ⟨_,alone_set idle fits,?_,(truncate_write_progress _ _ _).trans quiet⟩
      rw [truncate_write,cached_view,perform_set _ fits]
      rfl
    | update nodeId content executionId schema =>
      refine ⟨_,alone_update idle fits,?_,(truncate_write_progress _ _ _).trans quiet⟩
      rw [truncate_write,cached_view,perform_update _ fits]
      rfl

/-- An update that runs alone reads the latest entries, and adds its own. -/
theorem alone_careful (size : ContextDocument φ → Nat) {c : FileCall φ} (isUpdate : c.isUpdate = true)
    (fits : representable c.entry.data = true)
    (idle : ∀ i, s.progress i = .idle) (holds : s.HoldsLatest) (i : ι) : ∃ t, run (step size) (alone i c) s = some t ∧
      Throughout (step size) (Careful size) (alone i c) s ∧ (∀ j, t.progress j = .idle) ∧ t.HoldsLatest := by
  cases c with
  | set nodeId context schema => cases isUpdate
  | update nodeId content executionId schema =>
    cases valid : validateSchema content schema with
    | false =>
      refine ⟨s,?_,?_,idle,holds⟩
      · simp only [alone,run,step,idle i,FileCall.valid,valid,Bool.not_false,if_true,Option.bind_some]
      · simp [alone,Throughout,step,idle i,FileCall.valid,valid,Careful]
    | true =>
      have written := ContextPair.writable_set (ContextPair.readFile_writable { file := s.file }) fits nodeId
      have careful : ∀ other, other ≠ nodeId → s.readFile.get? other = s.latest other := fun other _ => holds other
      refine ⟨_,alone_update (idle i) valid,?_,fun j => ?_,?_⟩
      · refine ⟨trivial,fun t stepped => ?_⟩
        simp only [step,idle i,FileCall.valid,valid,Bool.not_true,Bool.false_eq_true,if_false,Option.mem_def,
          Option.some.injEq] at stepped
        subst stepped
        refine ⟨by simp only [Careful,Function.update_self],fun u stepped => ?_⟩
        simp only [step,Function.update_self,Option.mem_def,Option.some.injEq] at stepped
        subst stepped
        refine ⟨?_,fun _ _ => trivial⟩
        simp only [Careful,truncate,Function.update_self]
        exact ⟨careful,written,Nat.zero_le _⟩
      · rw [truncate_write_progress,Function.update_apply]
        split
        · rfl
        · exact idle j
      · exact (write_holds _ _ _).mpr ⟨careful,written,Nat.zero_le _⟩

/-- Updates that follow one another are kept, whichever instances make them. -/
theorem updates_in_turn (size : ContextDocument φ → Nat) (d : WrittenDocument φ) (calls : List (ι × FileCall φ))
    (updates : ∀ p ∈ calls, p.2.isUpdate = true ∧ representable p.2.entry.data = true) :
    Kept size d (calls.flatMap fun p => alone p.1 p.2) := by
  apply kept_of_careful
  have holds : (start size d : SharedFile ι φ).HoldsLatest := fun _ => rfl
  have idle : ∀ i, (start size d : SharedFile ι φ).progress i = .idle := fun _ => rfl
  generalize (start size d : SharedFile ι φ) = s at holds idle
  induction calls generalizing s with
  | nil => trivial
  | cons p calls ih =>
    obtain ⟨isUpdate,fits⟩ := updates p List.mem_cons_self
    obtain ⟨t,ran,careful,idle,holds⟩ := alone_careful size isUpdate fits idle holds p.1
    rw [List.flatMap_cons]
    exact throughout_append_of ran careful (ih (fun q member => updates q (List.mem_cons_of_mem p member)) t holds idle)

end

end SharedFile

end IceOS
