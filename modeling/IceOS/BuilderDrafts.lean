import IceOS.ActionRuns
import IceOS.JsonRoundTrip
import Mathlib.Data.Fin.VecNotation
import Mathlib.Data.Fintype.Basic
import Mathlib.Logic.Function.Basic

/-! The drafts of the builder: a document and its version, which are separate fields of a hash, under requests whose
awaits interleave. -/
namespace IceOS

open ActionRuns PythonJson

variable {φ : Type}

/-- What came with the request was read from its text. -/
structure DraftPayload (φ : Type) where
  data : List (String × Json φ) := []
  version : Int := 0
  parsed : representable (.dict data) = true

/-- A version is stored as its decimal text. -/
structure DraftHash where
  data : Option String := none
  version : Option Int := none

/-- An `If-Match` header need not be a number. -/
inductive DraftRequest (φ : Type) where
  | put (ifMatch : Option (Option Int)) (payload : DraftPayload φ)
  | get
  | delete

inductive DraftAnswer (φ : Type) where
  | ack (version : Int)
  | payload (data : Json φ) (version : Int)
  | failed (status : Nat) (detail : String)

/-- Where a request waits: a PUT has compared the version, a GET has read the document, a DELETE has deleted it. -/
inductive DraftProgress (φ : Type) where
  | arrived
  | writing (current : Int)
  | read (data : Json φ)
  | forgetting
  | answered (answer : DraftAnswer φ)

namespace BuilderDrafts

def storedVersion (h : DraftHash) : Int := h.version.getD 0

/-- The version that a PUT read, or its refusal. -/
def currentVersion (ifMatch : Option (Option Int)) (h : DraftHash) : Except (DraftAnswer φ) Int :=
  match ifMatch with
  | none => .ok (storedVersion h)
  | some none => .error (.failed 400 "Invalid If-Match header")
  | some (some expected) =>
    if expected = storedVersion h then .ok (storedVersion h) else .error (.failed 409 "Draft version conflict")

def newVersion (current : Int) (payload : DraftPayload φ) : Int := max current payload.version + 1

/-- A document that does not parse counts as an empty one. -/
def readDocument (f : FloatTexts φ) (h : DraftHash) : Except (DraftAnswer φ) (Json φ) :=
  match h.data with
  | none => .error (.failed 404 "draft not found")
  | some text => .ok ((loads f text).getD (.dict []))

end BuilderDrafts

/-- One draft with the requests on it: the versions that were stored so far with their documents, latest first, and the
versions that were matched by a PUT that was done. -/
structure DraftRun (ι φ : Type) where
  hash : DraftHash := {}
  progress : ι → DraftProgress φ := fun _ => .arrived
  writes : List (Int × Json φ) := []
  matched : List Int := []

namespace DraftRun

open BuilderDrafts

section

variable {ι : Type} [DecidableEq ι] (f : FloatTexts φ) (requests : ι → DraftRequest φ)

def advance (s : DraftRun ι φ) (i : ι) (p : DraftProgress φ) : DraftRun ι φ :=
  { s with progress := Function.update s.progress i p }

/-- A request goes on to its next await. -/
def step (s : DraftRun ι φ) (i : ι) : Option (DraftRun ι φ) :=
  match requests i,s.progress i with
  | .put ifMatch _,.arrived =>
    match currentVersion ifMatch s.hash with
    | .error answer => some (s.advance i (.answered answer))
    | .ok current => some (s.advance i (.writing current))
  | .put ifMatch payload,.writing current =>
    some { s.advance i (.answered (.ack (newVersion current payload))) with
      hash := ⟨some (dumps f (.dict payload.data)),some (newVersion current payload)⟩
      writes := (newVersion current payload,.dict payload.data) :: s.writes
      matched := if ifMatch.isSome then current :: s.matched else s.matched }
  | .get,.arrived =>
    match readDocument f s.hash with
    | .error answer => some (s.advance i (.answered answer))
    | .ok data => some (s.advance i (.read data))
  | .get,.read data => some (s.advance i (.answered (.payload data (storedVersion s.hash))))
  | .delete,.arrived => some { s.advance i .forgetting with hash := { s.hash with data := none } }
  | .delete,.forgetting => some { s.advance i (.answered (.ack 0)) with hash := { s.hash with version := none } }
  | _,_ => none

end

variable {ι : Type}

/-- The versions increase, no version was matched twice, and a document was returned with the version that it was stored
under. -/
structure Kept (s : DraftRun ι φ) : Prop where
  increasing : (s.writes.map Prod.fst).Pairwise (· > ·)
  once : s.matched.Nodup
  paired : ∀ i data version, s.progress i = .answered (.payload data version) → (version,data) ∈ s.writes

def KeptThroughout [DecidableEq ι] (f : FloatTexts φ) (requests : ι → DraftRequest φ) (actions : List ι) : Prop :=
  ∀ earlier later s, actions = earlier ++ later → run (step f requests) earlier {} = some s → Kept s

/-- The version that was stored last, also if it was deleted since. -/
def lastVersion (s : DraftRun ι φ) : Int := (s.writes.head?.map Prod.fst).getD 0

def isReading : DraftProgress φ → Bool
  | .read _ => true
  | _ => false

def isForgetting : DraftProgress φ → Bool
  | .forgetting => true
  | _ => false

/-- A PUT writes while the version that it read is the last one that was stored, or unconditionally with a payload whose
version is not below, and while no GET and no DELETE is half done; a DELETE goes on while no GET is half done. -/
def Careful (requests : ι → DraftRequest φ) (s : DraftRun ι φ) (i : ι) : Prop :=
  match requests i,s.progress i with
  | .put ifMatch payload,.writing current =>
    (current = s.lastVersion ∨ ifMatch = none ∧ s.lastVersion ≤ payload.version) ∧
      ∀ j, isReading (s.progress j) = false ∧ isForgetting (s.progress j) = false
  | .delete,.forgetting => ∀ j, isReading (s.progress j) = false
  | _,_ => True

instance [Fintype ι] (requests : ι → DraftRequest φ) (s : DraftRun ι φ) (i : ι) : Decidable (Careful requests s i) := by
  unfold Careful
  split <;> infer_instance

/-- What careful requests leave behind. -/
structure Sound (f : FloatTexts φ) (s : DraftRun ι φ) : Prop where
  kept : Kept s
  below : ∀ version ∈ s.matched, version < s.lastVersion
  stored : ∀ text, s.hash.data = some text → ∃ data version, loads f text = some data ∧
    s.hash.version = some version ∧ (version,data) ∈ s.writes
  reading : ∀ i data, s.progress i = .read data → ∃ version, s.hash.version = some version ∧ (version,data) ∈ s.writes
  forgetting : ∀ i, s.progress i = .forgetting → s.hash.data = none

section

variable {f : FloatTexts φ} {s : DraftRun ι φ}

theorem sound_start (f : FloatTexts φ) : Sound f ({} : DraftRun ι φ) where
  kept := ⟨List.Pairwise.nil,List.nodup_nil,fun _ _ _ answered => by cases answered⟩
  below _ member := by cases member
  stored _ present := by cases present
  reading _ _ there := by cases there
  forgetting _ there := by cases there

theorem le_lastVersion (kept : Kept s) {version : Int} (member : version ∈ s.writes.map Prod.fst) :
    version ≤ s.lastVersion := by
  have increasing := kept.increasing
  rw [lastVersion]
  cases writes : s.writes with
  | nil => simp [writes] at member
  | cons first rest =>
    rw [writes,List.map_cons] at member increasing
    rcases List.mem_cons.mp member with rfl | later
    · exact Int.le_refl _
    · exact Int.le_of_lt ((List.pairwise_cons.mp increasing).1 version later)

theorem lastVersion_lt {ifMatch : Option (Option Int)} {payload : DraftPayload φ} {current : Int}
    (newest : current = s.lastVersion ∨ ifMatch = none ∧ s.lastVersion ≤ payload.version) :
    s.lastVersion < newVersion current payload := by
  rw [newVersion]
  rcases newest with same | ⟨_,below⟩ <;> omega

theorem currentVersion_not_payload (ifMatch : Option (Option Int)) (h : DraftHash) (data : Json φ) (version : Int) :
    currentVersion ifMatch h ≠ .error (.payload data version) := by
  rcases ifMatch with _ | _ | expected
  · simp [currentVersion]
  · simp [currentVersion]
  · simp only [currentVersion]
    split <;> simp

theorem readDocument_not_payload (h : DraftHash) (data : Json φ) (version : Int) :
    BuilderDrafts.readDocument f h ≠ .error (.payload data version) := by
  rw [BuilderDrafts.readDocument]
  split <;> simp

variable [DecidableEq ι]

theorem progress_advance {i j : ι} {p q : DraftProgress φ} (there : (s.advance i p).progress j = q) (other : p ≠ q) :
    s.progress j = q := by
  simp only [advance,Function.update_apply] at there
  split at there
  · exact absurd there other
  · exact there

/-- A request that has neither read nor deleted nor a document to return changes nothing of what is known. -/
theorem Sound.advance (sound : Sound f s) (i : ι) {p : DraftProgress φ}
    (quiet : ∀ data, p ≠ .read data) (kept : p ≠ .forgetting)
    (unpaired : ∀ data version, p = .answered (.payload data version) → (version,data) ∈ s.writes) :
    Sound f (s.advance i p) where
  kept := {
    increasing := sound.kept.increasing
    once := sound.kept.once
    paired := fun j data version answered => by
      by_cases new : p = .answered (.payload data version)
      · exact unpaired data version new
      · exact sound.kept.paired j data version (progress_advance answered new) }
  below := sound.below
  stored := sound.stored
  reading j data there := sound.reading j data (progress_advance there (quiet data))
  forgetting j there := sound.forgetting j (progress_advance there kept)

theorem Sound.write (sound : Sound f s) (i : ι) {ifMatch : Option (Option Int)} {payload : DraftPayload φ} {current : Int}
    (newest : current = s.lastVersion ∨ ifMatch = none ∧ s.lastVersion ≤ payload.version)
    (alone : ∀ j, isReading (s.progress j) = false ∧ isForgetting (s.progress j) = false) :
    Sound f { s.advance i (.answered (.ack (newVersion current payload))) with
      hash := ⟨some (dumps f (.dict payload.data)),some (newVersion current payload)⟩
      writes := (newVersion current payload,.dict payload.data) :: s.writes
      matched := if ifMatch.isSome then current :: s.matched else s.matched } where
  kept := {
    increasing := by
      refine List.pairwise_cons.mpr ⟨fun version member => ?_,sound.kept.increasing⟩
      exact Int.lt_of_le_of_lt (le_lastVersion sound.kept member) (lastVersion_lt newest)
    once := by
      split
      · next conditional =>
        refine List.nodup_cons.mpr ⟨fun member => ?_,sound.kept.once⟩
        have same : current = s.lastVersion := by
          rcases newest with same | ⟨none,_⟩
          · exact same
          · rw [none] at conditional
            cases conditional
        have below := sound.below current member
        omega
      · exact sound.kept.once
    paired := fun j data version answered =>
      List.mem_cons_of_mem _ (sound.kept.paired j data version (progress_advance answered (by simp))) }
  below version member := by
    have raised : s.lastVersion < newVersion current payload := lastVersion_lt newest
    split at member
    · rcases List.mem_cons.mp member with rfl | old
      · exact Int.lt_of_le_of_lt (Int.le_max_left _ _) (Int.lt_succ _)
      · exact Int.lt_trans (sound.below version old) raised
    · exact Int.lt_trans (sound.below version member) raised
  stored text present := by
    cases present
    exact ⟨.dict payload.data,_,loads_dumps f payload.parsed,rfl,List.mem_cons_self⟩
  reading j data there := by
    have reads := (alone j).1
    rw [progress_advance there (by simp)] at reads
    cases reads
  forgetting j there := by
    have forgets := (alone j).2
    rw [progress_advance there (by simp)] at forgets
    cases forgets

theorem Sound.readDocument (sound : Sound f s) (i : ι) {data : Json φ}
    (read : BuilderDrafts.readDocument f s.hash = .ok data) :
    Sound f (s.advance i (.read data)) where
  kept := {
    increasing := sound.kept.increasing
    once := sound.kept.once
    paired := fun j data version answered => sound.kept.paired j data version (progress_advance answered (by simp)) }
  below := sound.below
  stored := sound.stored
  reading j other there := by
    simp only [DraftRun.advance,Function.update_apply] at there
    split at there
    · cases there
      cases present : s.hash.data with
      | none => simp [BuilderDrafts.readDocument,present] at read
      | some text =>
        obtain ⟨stored,version,reads,held,member⟩ := sound.stored text present
        simp only [BuilderDrafts.readDocument,present,reads,Option.getD_some,Except.ok.injEq] at read
        exact ⟨version,held,read ▸ member⟩
    · exact sound.reading j other there
  forgetting j there := sound.forgetting j (progress_advance there (by simp))

theorem Sound.deleteData (sound : Sound f s) (i : ι) :
    Sound f { s.advance i .forgetting with hash := { s.hash with data := none } } where
  kept := {
    increasing := sound.kept.increasing
    once := sound.kept.once
    paired := fun j data version answered => sound.kept.paired j data version (progress_advance answered (by simp)) }
  below := sound.below
  stored _ present := by cases present
  reading j data there := sound.reading j data (progress_advance there (by simp))
  forgetting _ _ := rfl

theorem Sound.deleteVersion (sound : Sound f s) (i : ι) (forgetting : s.progress i = .forgetting)
    (alone : ∀ j, isReading (s.progress j) = false) :
    Sound f { s.advance i (.answered (.ack 0)) with hash := { s.hash with version := none } } where
  kept := {
    increasing := sound.kept.increasing
    once := sound.kept.once
    paired := fun j data version answered => sound.kept.paired j data version (progress_advance answered (by simp)) }
  below := sound.below
  stored text present := by cases (sound.forgetting i forgetting).symm.trans present
  reading j data there := by
    have reads := alone j
    rw [progress_advance there (by simp)] at reads
    cases reads
  forgetting j there := sound.forgetting j (progress_advance there (by simp))

theorem sound_step {requests : ι → DraftRequest φ} {i : ι} {t : DraftRun ι φ} (sound : Sound f s)
    (careful : Careful requests s i) (stepped : step f requests s i = some t) : Sound f t := by
  cases request : requests i with
  | put ifMatch payload =>
    cases there : s.progress i with
    | arrived =>
      simp only [step,request,there] at stepped
      split at stepped
      · next answer refused =>
        cases stepped
        refine sound.advance i (by simp) (by simp) fun data version same => ?_
        cases same
        exact absurd refused (currentVersion_not_payload _ _ _ _)
      · cases stepped
        exact sound.advance i (by simp) (by simp) (by simp)
    | writing current =>
      simp only [step,request,there,Option.some.injEq] at stepped
      simp only [Careful,request,there] at careful
      subst stepped
      exact sound.write i careful.1 careful.2
    | read _ | forgetting | answered _ => simp [step,request,there] at stepped
  | get =>
    cases there : s.progress i with
    | arrived =>
      simp only [step,request,there] at stepped
      split at stepped
      · next answer refused =>
        cases stepped
        refine sound.advance i (by simp) (by simp) fun data version same => ?_
        cases same
        exact absurd refused (readDocument_not_payload _ _ _)
      · next data read =>
        cases stepped
        exact sound.readDocument i read
    | read data =>
      simp only [step,request,there,Option.some.injEq] at stepped
      subst stepped
      refine sound.advance i (by simp) (by simp) fun other version same => ?_
      obtain ⟨stored,held,member⟩ := sound.reading i data there
      cases same
      rw [storedVersion,held]
      exact member
    | writing _ | forgetting | answered _ => simp [step,request,there] at stepped
  | delete =>
    cases there : s.progress i with
    | arrived =>
      simp only [step,request,there,Option.some.injEq] at stepped
      subst stepped
      exact sound.deleteData i
    | forgetting =>
      simp only [step,request,there,Option.some.injEq] at stepped
      simp only [Careful,request,there] at careful
      subst stepped
      exact sound.deleteVersion i there careful
    | writing _ | read _ | answered _ => simp [step,request,there] at stepped

end

/-- In a run of careful requests the versions increase, none is matched twice and documents come with their versions. -/
theorem drafts_kept [DecidableEq ι] (f : FloatTexts φ) (requests : ι → DraftRequest φ) (actions : List ι)
    (careful : Throughout (step f requests) (Careful requests) actions {}) : KeptThroughout f requests actions := by
  rintro earlier later s rfl ran
  have early := (throughout_append ran careful).1
  exact (run_invariant (fun s i t => sound_step (s := s) (i := i) (t := t)) ran (sound_start f) early).kept

def emptyPayload : DraftPayload Unit := { parsed := rfl }

/-- A draft that is stored, deleted and stored again. -/
def storedAgain : Fin 3 → DraftRequest Unit := ![.put none emptyPayload,.delete,.put none emptyPayload]

/-- The version starts anew after a deletion. -/
theorem version_stored_again : ¬∀ actions, KeptThroughout zeroTexts storedAgain actions := by
  intro always
  have kept := always [0,0,1,1,2,2] [0,0,1,1,2,2] [] _ rfl rfl
  have increasing : ([1,1] : List Int).Pairwise (· > ·) := kept.increasing
  exact absurd increasing (by decide)

/-- A draft that is stored, read, and stored again on the condition that it is unchanged. -/
def storedOn : Fin 3 → DraftRequest Unit := ![.put none emptyPayload,.get,.put (some (some 1)) emptyPayload]

theorem storedOn_careful : Throughout (step zeroTexts storedOn) (Careful storedOn) [0,0,1,1,2,2] {} := by
  decide +kernel

theorem storedOn_kept : KeptThroughout zeroTexts storedOn [0,0,1,1,2,2] :=
  drafts_kept zeroTexts storedOn [0,0,1,1,2,2] storedOn_careful

end DraftRun

end IceOS
