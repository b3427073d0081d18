import Mathlib.Algebra.GroupWithZero.Nat
import Mathlib.Data.List.Basic
import Mathlib.Data.List.Induction
import Mathlib.Data.List.Nodup
import Mathlib.Logic.Function.Basic

/-! The revisions of a workflow. Their ids are hashes of what they hold, and every process hashes in its own way; an index
lists the ids, and the blueprints are kept under them. Redis and the memory of a lone process keep the same. -/
namespace IceOS.Revisions

/-- What is hashed. -/
structure Basis where
  workflowId : String
  json : String
  note : String
  deriving DecidableEq

variable {π : Type}

/-- `blueprint` is the document that is loaded, if there is one, and `body` the note in the body, if there is a body. -/
structure CreateRequest (π : Type) where
  process : π
  workflowId : String
  blueprint : Option String
  body : Option (Option String)
  time : Nat

structure RevisionMeta where
  revisionId : String
  workflowId : String
  createdAt : Nat
  deriving DecidableEq

structure RevisionStore where
  blobs : String → Option String := fun _ => none
  index : String → List String := fun _ => []

def revIndexKey (workflowId : String) : String := "revindex:" ++ workflowId

def revBlobKey (workflowId revId : String) : String := "rev:" ++ workflowId ++ ":" ++ revId

/-- The hash of a process without its sign and cut to twelve digits. -/
def shortHash (hash : π → Basis → Int) (process : π) (basis : Basis) : Nat := (hash process basis).natAbs % 10 ^ 12

def revisionId (hash : π → Basis → Int) (process : π) (basis : Basis) : String :=
  "r" ++ toString (shortHash hash process basis)

/-- The newest revision comes first. -/
def RevisionStore.save (s : RevisionStore) (workflowId revId json : String) : RevisionStore where
  blobs := Function.update s.blobs (revBlobKey workflowId revId) (some json)
  index := Function.update s.index (revIndexKey workflowId) (revId :: s.index (revIndexKey workflowId))

def createRevision (hash : π → Basis → Int) (s : RevisionStore) (r : CreateRequest π) :
    Except (Nat × String) (RevisionMeta × RevisionStore) :=
  match r.blueprint,r.body with
  | none,_ => .error (404,"Blueprint not found")
  | some _,none => .error (500,"'NoneType' object has no attribute 'note'")
  | some json,some note =>
    let revId := revisionId hash r.process ⟨r.workflowId,json,note.getD ""⟩
    .ok (⟨revId,r.workflowId,r.time⟩,s.save r.workflowId revId json)

def listRevisions (s : RevisionStore) (workflowId : String) (now : Nat) : List RevisionMeta :=
  (s.index (revIndexKey workflowId)).map fun revId => ⟨revId,workflowId,now⟩

/-- A request that fails changes nothing. -/
def step (hash : π → Basis → Int) (s : RevisionStore) (r : CreateRequest π) : RevisionStore :=
  match createRevision hash s r with
  | .ok (_,t) => t
  | .error _ => s

def run (hash : π → Basis → Int) (history : List (CreateRequest π)) : RevisionStore := history.foldl (step hash) {}

/-! ### What the revisions should be -/

/-- What a request on the workflow makes a revision of. -/
def CreateRequest.basis? (workflowId : String) (r : CreateRequest π) : Option Basis :=
  if r.workflowId = workflowId then
    match r.blueprint,r.body with
    | some json,some note => some ⟨workflowId,json,note.getD ""⟩
    | _,_ => none
  else none

/-- A revision as it was made. -/
structure Revision where
  revisionId : String
  json : String
  createdAt : Nat
  deriving DecidableEq

def CreateRequest.made (hash : π → Basis → Int) (workflowId : String) (r : CreateRequest π) : Option Revision :=
  (r.basis? workflowId).map fun basis => ⟨revisionId hash r.process basis,basis.json,r.time⟩

/-- Each id with the first revision that has it. -/
def firsts : List Revision → List Revision
  | [] => []
  | r :: rest => r :: (firsts rest).filter (·.revisionId ≠ r.revisionId)

/-- What is listed at a time: ids with the documents that are kept under them, and times. -/
def shown (s : RevisionStore) (workflowId : String) (now : Nat) : List (String × Option String × Nat) :=
  (listRevisions s workflowId now).map fun m => (m.revisionId,s.blobs (revBlobKey workflowId m.revisionId),m.createdAt)

/-- Ids stand for contents, and the listing tells what was made and when. -/
structure Faithful (hash : π → Basis → Int) (history : List (CreateRequest π)) (workflowId : String) (now : Nat) :
    Prop where
  apart : ∀ r ∈ history, ∀ q ∈ history, ∀ b ∈ r.basis? workflowId, ∀ c ∈ q.basis? workflowId, b ≠ c →
    revisionId hash r.process b ≠ revisionId hash q.process c
  same : ∀ r ∈ history, ∀ q ∈ history, ∀ b ∈ r.basis? workflowId, ∀ c ∈ q.basis? workflowId, b = c →
    revisionId hash r.process b = revisionId hash q.process c
  listed : shown (run hash history) workflowId now =
    (firsts (history.filterMap (·.made hash workflowId))).map fun r => (r.revisionId,some r.json,r.createdAt)

/-! ### Ids and keys -/

theorem revisionId_eq_iff (hash : π → Basis → Int) (p q : π) (b c : Basis) :
    revisionId hash p b = revisionId hash q c ↔ shortHash hash p b = shortHash hash q c := by
  refine ⟨fun same => ?_,fun same => by rw [revisionId,same,revisionId]⟩
  have chars := congrArg String.toList same
  simp only [revisionId,String.toList_append] at chars
  have digits : Nat.toDigits 10 (shortHash hash p b) = Nat.toDigits 10 (shortHash hash q c) := by
    simpa [Nat.repr_eq_ofList_toDigits] using List.append_cancel_left chars
  rw [← Nat.ofDigitChars_toDigits (b := 10) (n := shortHash hash p b) (by decide) (by decide),digits,
    Nat.ofDigitChars_toDigits (by decide) (by decide)]

theorem revIndexKey_injective : Function.Injective revIndexKey := by
  intro v w same
  have chars := congrArg String.toList same
  simp only [revIndexKey,String.toList_append] at chars
  exact String.toList_injective (List.append_cancel_left chars)

theorem colon_not_mem (hash : π → Basis → Int) (p : π) (b : Basis) : ':' ∉ (revisionId hash p b).toList := by
  intro member
  simp only [revisionId,String.toList_append] at member
  rcases List.mem_append.mp member with head | digit
  · exact absurd head (by decide)
  · have digit : ':' ∈ Nat.toDigits 10 (shortHash hash p b) := by simpa [Nat.repr_eq_ofList_toDigits] using digit
    exact absurd (Nat.isDigit_of_mem_toDigits (by decide) (by decide) digit) (by decide)

/-- A text ends at the first separator. -/
theorem separated {α : Type} {c : α} {xs ys us vs : List α} (first : c ∉ xs) (second : c ∉ ys)
    (same : xs ++ c :: us = ys ++ c :: vs) : xs = ys ∧ us = vs := by
  induction xs generalizing ys with
  | nil =>
    cases ys with
    | nil => exact ⟨rfl,(List.cons.inj same).2⟩
    | cons y ys => exact absurd ((List.cons.inj same).1 ▸ List.mem_cons_self) second
  | cons x xs ih =>
    cases ys with
    | nil => exact absurd ((List.cons.inj same).1 ▸ List.mem_cons_self) first
    | cons y ys =>
      obtain ⟨rfl,rest⟩ := List.cons.inj same
      obtain ⟨rfl,tails⟩ := ih (List.not_mem_of_not_mem_cons first) (List.not_mem_of_not_mem_cons second) rest
      exact ⟨rfl,tails⟩

/-- The last colon of a key is the one before the id. -/
theorem revBlobKey_inj {v w x y : String} (first : ':' ∉ x.toList) (second : ':' ∉ y.toList)
    (same : revBlobKey v x = revBlobKey w y) : v = w ∧ x = y := by
  have chars := congrArg List.reverse (congrArg String.toList same)
  have colon : ":".toList = [':'] := rfl
  simp only [revBlobKey,String.toList_append,colon,List.append_assoc,List.reverse_append,List.singleton_append,
    List.reverse_cons] at chars
  obtain ⟨ids,keys⟩ := separated (by simpa using first) (by simpa using second) chars
  exact ⟨String.toList_injective (List.reverse_injective (List.append_cancel_right keys)),
    String.toList_injective (List.reverse_injective ids)⟩

/-! ### What is kept -/

theorem made_id {hash : π → Basis → Int} {workflowId : String} {r : CreateRequest π} {m : Revision}
    (made : r.made hash workflowId = some m) : ∃ p b, m.revisionId = revisionId hash p b := by
  obtain ⟨basis,_,rfl⟩ := Option.map_eq_some_iff.mp made
  exact ⟨r.process,basis,rfl⟩

/-- A request makes one revision, of its own workflow, or none. -/
theorem step_made (hash : π → Basis → Int) (s : RevisionStore) (r : CreateRequest π) :
    step hash s r = match r.made hash r.workflowId with
      | some m => s.save r.workflowId m.revisionId m.json
      | none => s := by
  obtain ⟨process,workflowId,blueprint,body,time⟩ := r
  cases blueprint <;> cases body <;> simp [step,createRevision,CreateRequest.made,CreateRequest.basis?]

theorem made_other (hash : π → Basis → Int) {workflowId : String} {r : CreateRequest π} (other : r.workflowId ≠ workflowId) :
    r.made hash workflowId = none := by
  rw [CreateRequest.made,CreateRequest.basis?,if_neg other]
  rfl

/-- The ids of all revisions, the newest first, and under each id what was last kept there. -/
structure Kept (hash : π → Basis → Int) (history : List (CreateRequest π)) (s : RevisionStore) : Prop where
  index : ∀ w, s.index (revIndexKey w) = ((history.filterMap (·.made hash w)).map (·.revisionId)).reverse
  blobs : ∀ w x, ':' ∉ x.toList → s.blobs (revBlobKey w x) =
    ((history.filterMap (·.made hash w)).reverse.find? (·.revisionId = x)).map (·.json)

theorem Kept.step {hash : π → Basis → Int} {history : List (CreateRequest π)} {s : RevisionStore}
    (kept : Kept hash history s) (r : CreateRequest π) : Kept hash (history ++ [r]) (step hash s r) := by
  rw [step_made]
  cases made : r.made hash r.workflowId with
  | none =>
    have nothing (w : String) : (history ++ [r]).filterMap (·.made hash w) = history.filterMap (·.made hash w) := by
      by_cases own : r.workflowId = w
      · simp [← own,made]
      · simp [made_other hash own]
    exact ⟨fun w => (by rw [nothing]; exact kept.index w),fun w x clear => (by rw [nothing]; exact kept.blobs w x clear)⟩
  | some m =>
    obtain ⟨p,b,idEq⟩ := made_id made
    have plain : ':' ∉ m.revisionId.toList := idEq ▸ colon_not_mem hash p b
    constructor
    · intro w
      simp only [RevisionStore.save]
      by_cases own : r.workflowId = w
      · subst own
        simp [kept.index,made]
      · rw [Function.update_of_ne fun same => own (revIndexKey_injective same).symm,kept.index]
        simp [made_other hash own]
    · intro w x clear
      simp only [RevisionStore.save]
      by_cases own : r.workflowId = w ∧ m.revisionId = x
      · obtain ⟨rfl,rfl⟩ := own
        simp [made]
      · rw [Function.update_of_ne fun same => own ((revBlobKey_inj plain clear same.symm)),kept.blobs w x clear]
        by_cases workflow : r.workflowId = w
        · subst workflow
          have id : m.revisionId ≠ x := fun same => own ⟨rfl,same⟩
          simp [made,id]
        · simp [made_other hash workflow]

theorem run_kept (hash : π → Basis → Int) (history : List (CreateRequest π)) : Kept hash history (run hash history) := by
  induction history using List.reverseRecOn with
  | nil => exact ⟨fun _ => rfl,fun _ _ _ => rfl⟩
  | append_singleton history r ih =>
    rw [run,List.foldl_append]
    exact ih.step r

/-! ### When the listing is right -/

theorem firsts_sublist (rs : List Revision) : (firsts rs).Sublist rs := by
  induction rs with
  | nil => exact .slnil
  | cons r rest ih => exact (List.filter_sublist.trans ih).cons_cons r

theorem firsts_nodup (rs : List Revision) : ((firsts rs).map (·.revisionId)).Nodup := by
  induction rs with
  | nil => exact List.nodup_nil
  | cons r rest ih =>
    refine List.nodup_cons.mpr ⟨?_,ih.sublist (List.filter_sublist.map _)⟩
    simp

theorem reverse_eq_self_nodup {α : Type} {xs : List α} (nodup : xs.Nodup) (same : xs.reverse = xs) : xs.length ≤ 1 := by
  cases xs with
  | nil => exact Nat.zero_le 1
  | cons x rest =>
    cases rest with
    | nil => exact Nat.le_refl 1
    | cons y rest =>
      have ends : (y :: rest).getLast? = some x := by
        have first := congrArg List.head? same
        rw [List.head?_reverse,List.getLast?_cons_cons] at first
        exact first
      exact absurd (List.mem_of_getLast? ends) (List.nodup_cons.mp nodup).1

theorem made_clear {hash : π → Basis → Int} {workflowId : String} {history : List (CreateRequest π)} {m : Revision}
    (member : m ∈ history.filterMap (·.made hash workflowId)) : ':' ∉ m.revisionId.toList := by
  obtain ⟨r,_,made⟩ := List.mem_filterMap.mp member
  obtain ⟨p,b,same⟩ := made_id made
  exact same ▸ colon_not_mem hash p b

theorem shown_eq (hash : π → Basis → Int) (history : List (CreateRequest π)) (workflowId : String) (now : Nat) :
    shown (run hash history) workflowId now = (history.filterMap (·.made hash workflowId)).reverse.map fun m =>
      (m.revisionId,((history.filterMap (·.made hash workflowId)).reverse.find? (·.revisionId = m.revisionId)).map (·.json),
        now) := by
  have kept := run_kept hash history
  rw [shown,listRevisions,kept.index,← List.map_reverse,List.map_map,List.map_map]
  refine List.map_congr_left fun m member => ?_
  exact Prod.ext rfl (Prod.ext (kept.blobs workflowId m.revisionId (made_clear (List.mem_reverse.mp member))) rfl)

/-- The revisions of a workflow, by what they are made of. -/
def bases (history : List (CreateRequest π)) (workflowId : String) : List Basis := history.filterMap (·.basis? workflowId)

/-- The hashes tell the contents apart, and all processes hash a content alike, but for the sign and all but twelve
digits. -/
def HashesAgree (hash : π → Basis → Int) (history : List (CreateRequest π)) (workflowId : String) : Prop :=
  ∀ r ∈ history, ∀ q ∈ history, ∀ b ∈ r.basis? workflowId, ∀ c ∈ q.basis? workflowId,
    shortHash hash r.process b = shortHash hash q.process c ↔ b = c

/-- The workflow has at most one revision, which is as old as the listing. -/
structure Lone (history : List (CreateRequest π)) (workflowId : String) (now : Nat) : Prop where
  one : (bases history workflowId).length ≤ 1
  current : ∀ r ∈ history, (r.basis? workflowId).isSome → r.time = now

theorem ids_iff (hash : π → Basis → Int) (history : List (CreateRequest π)) (workflowId : String) :
    ((∀ r ∈ history, ∀ q ∈ history, ∀ b ∈ r.basis? workflowId, ∀ c ∈ q.basis? workflowId, b ≠ c →
        revisionId hash r.process b ≠ revisionId hash q.process c) ∧
      ∀ r ∈ history, ∀ q ∈ history, ∀ b ∈ r.basis? workflowId, ∀ c ∈ q.basis? workflowId, b = c →
        revisionId hash r.process b = revisionId hash q.process c) ↔ HashesAgree hash history workflowId := by
  simp only [ne_eq,revisionId_eq_iff]
  constructor
  · rintro ⟨apart,same⟩ r inside q within b own c other
    exact ⟨fun equal => by_contra fun different => apart r inside q within b own c other different equal,
      same r inside q within b own c other⟩
  · intro agree
    exact ⟨fun r inside q within b own c other different equal =>
      different ((agree r inside q within b own c other).mp equal),
      fun r inside q within b own c other => (agree r inside q within b own c other).mpr⟩

theorem lone_iff (hash : π → Basis → Int) (history : List (CreateRequest π)) (workflowId : String) (now : Nat) :
    Lone history workflowId now ↔ (history.filterMap (·.made hash workflowId)).length ≤ 1 ∧
      ∀ m ∈ history.filterMap (·.made hash workflowId), m.createdAt = now := by
  have count : (history.filterMap (·.made hash workflowId)).length = (bases history workflowId).length := by
    rw [bases]
    induction history with
    | nil => rfl
    | cons r rest ih =>
      cases basis : r.basis? workflowId with
      | none => simpa [CreateRequest.made,basis] using ih
      | some b => simpa [CreateRequest.made,basis] using ih
  rw [count]
  constructor
  · rintro ⟨one,current⟩
    refine ⟨one,fun m member => ?_⟩
    obtain ⟨r,inside,made⟩ := List.mem_filterMap.mp member
    obtain ⟨b,basis,rfl⟩ := Option.map_eq_some_iff.mp made
    exact current r inside (basis ▸ rfl)
  · rintro ⟨one,current⟩
    refine ⟨one,fun r inside some => ?_⟩
    obtain ⟨b,basis⟩ := Option.isSome_iff_exists.mp some
    exact current ⟨revisionId hash r.process b,b.json,r.time⟩
      (List.mem_filterMap.mpr ⟨r,inside,Option.map_eq_some_iff.mpr ⟨b,basis,rfl⟩⟩)

theorem listed_iff (hash : π → Basis → Int) (history : List (CreateRequest π)) (workflowId : String) (now : Nat) :
    shown (run hash history) workflowId now =
        (firsts (history.filterMap (·.made hash workflowId))).map (fun r => (r.revisionId,some r.json,r.createdAt)) ↔
      Lone history workflowId now := by
  rw [lone_iff hash,shown_eq]
  generalize history.filterMap (·.made hash workflowId) = made
  constructor
  · intro listed
    have ids : (made.map (·.revisionId)).reverse = (firsts made).map (·.revisionId) := by
      have column := congrArg (List.map Prod.fst) listed
      simpa [Function.comp_def] using column
    have all : firsts made = made := (firsts_sublist made).eq_of_length (by simpa using (congrArg List.length ids).symm)
    rw [all] at ids listed
    have one : made.length ≤ 1 := by
      have nodup := firsts_nodup made
      rw [all] at nodup
      simpa using reverse_eq_self_nodup nodup ids
    refine ⟨one,fun m member => ?_⟩
    have column := congrArg (List.map fun entry => entry.2.2) listed
    have entry : m.createdAt ∈ made.map (·.createdAt) := List.mem_map_of_mem member
    have times : made.reverse.map (fun _ => now) = made.map (·.createdAt) := by simpa [Function.comp_def] using column
    rw [← times] at entry
    obtain ⟨_,_,same⟩ := List.mem_map.mp entry
    exact same.symm
  · rintro ⟨one,current⟩
    cases made with
    | nil => rfl
    | cons m rest =>
      obtain rfl : rest = [] := List.length_eq_zero_iff.mp (by simpa using one)
      simp [firsts,current m List.mem_cons_self]

theorem revisions_faithful_iff (hash : π → Basis → Int) (history : List (CreateRequest π)) (workflowId : String)
    (now : Nat) :
    Faithful hash history workflowId now ↔ HashesAgree hash history workflowId ∧ Lone history workflowId now := by
  rw [← ids_iff,← listed_iff hash]
  exact ⟨fun ⟨apart,same,listed⟩ => ⟨⟨apart,same⟩,listed⟩,fun ⟨⟨apart,same⟩,listed⟩ => ⟨apart,same,listed⟩⟩

/-- Two notes on one document, in one second and by one process. -/
def twoNotes : List (CreateRequest Unit) :=
  [⟨(),"wf","\x7b\x7d",some (some "first"),0⟩,⟨(),"wf","\x7b\x7d",some (some "second"),0⟩]

/-- However the process hashes. -/
theorem two_unfaithful : ¬∃ hash : Unit → Basis → Int, Faithful hash twoNotes "wf" 0 := by
  rintro ⟨hash,faithful⟩
  have lone := ((listed_iff hash twoNotes "wf" 0).mp faithful.listed).one
  exact absurd lone (by decide)

end IceOS.Revisions
