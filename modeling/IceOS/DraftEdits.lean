import IceOS.DraftPersistence
import IceOS.ReadModifyWrite

/-! Requests that edit one draft, with awaits between what they load and what they save. -/
namespace IceOS

open ActionRuns ReadModifyWrite

variable {φ κ ι : Type}

namespace DraftStore

variable (store : DraftStore κ φ)

/-- What a request keeps in place of what it loaded. -/
def update (e : DraftEdit) (kept : κ) : κ := (store.save (e.apply (store.load kept))).toOption.getD kept

variable [DecidableEq ι] (requests : ι → DraftEdit)

/-- A request on a draft that exists loads it and edits what it got, or it saves that and is answered. -/
def step (s : Cell κ ι) (i : ι) : Option (Cell κ ι) :=
  ReadModifyWrite.step store.shared (fun i => store.update (requests i)) s i

/-- A request that saves an edited copy saves what its edit makes of the draft as it is then. -/
def Informed (s : Cell κ ι) (i : ι) : Prop :=
  match s.progress i with
  | .copied copy => store.shared = true ∨ store.update (requests i) copy = store.update (requests i) s.value
  | _ => True

end DraftStore

/-! ### What the kept edits leave in a draft -/

section

variable (requests : ι → DraftEdit)

/-- Nothing that was loaded fails to be saved. -/
theorem load_update (e : DraftEdit) (kept : StoredDraft φ) :
    RedisDraftStore.load (redisDraftStore.update e kept) = (e.apply (RedisDraftStore.load kept)).settle := by
  obtain ⟨saved,ok,loaded⟩ := DraftState.save_load ((DraftState.load_reloadable kept).apply e)
  have updated : redisDraftStore.update e kept = saved := by
    simp only [DraftStore.update,redisDraftStore,ok]
    rfl
  rw [updated,loaded]

/-- The draft after the edits in a log. -/
def draftAfter (kept : StoredDraft φ) (log : List ι) : DraftState φ :=
  RedisDraftStore.load (replay (fun i => redisDraftStore.update (requests i)) kept log)

theorem draftAfter_cons (kept : StoredDraft φ) (i : ι) (log : List ι) :
    draftAfter requests kept (i :: log) = ((requests i).apply (draftAfter requests kept log)).settle :=
  load_update (requests i) _

theorem locked_after {kept : StoredDraft φ} {log : List ι} {i : ι} {nodeId : String} (took : i ∈ log)
    (lock : requests i = .lock nodeId) : nodeId ∈ (draftAfter requests kept log).lockedNodes := by
  induction log with
  | nil => cases took
  | cons j log ih =>
    rw [draftAfter_cons]
    rcases List.mem_cons.mp took with rfl | earlier
    · simp only [lock,DraftEdit.apply,DraftState.settle]
      split
      · assumption
      · exact List.mem_append_right _ (List.mem_singleton.mpr rfl)
    · have locked := ih earlier
      cases requests j with
      | lock other =>
        simp only [DraftEdit.apply,DraftState.settle]
        split
        · exact locked
        · exact List.mem_append_left _ locked
      | position other x y => exact locked
      | instantiate other => exact locked

def isInstantiate : DraftEdit → Bool
  | .instantiate _ => true
  | _ => false

/-- The schema revision counts the nodes that were instantiated. -/
theorem revision_after (kept : StoredDraft φ) (log : List ι) :
    (draftAfter requests kept log).draftMeta.schemaRev.getD 0 =
      kept.draftMeta.schemaRev.getD 0 + (log.filter fun i => isInstantiate (requests i)).length := by
  induction log with
  | nil => simp [draftAfter,replay,RedisDraftStore.load]
  | cons i log ih =>
    rw [draftAfter_cons,List.filter_cons]
    cases requests i with
    | lock nodeId => exact ih
    | position nodeId x y => exact ih
    | instantiate nodeId =>
      simp only [DraftEdit.apply,DraftState.settle,isInstantiate,if_true,Option.getD_some,ih,List.length_cons,
        Int.natCast_add]
      omega

/-- A node is where the last request put it. -/
theorem position_after {kept : StoredDraft φ} {earlier later : List ι} {i : ι} {nodeId : String} {x y : Int}
    (move : requests i = .position nodeId x y)
    (last : ∀ j ∈ later, ∀ x' y', requests j ≠ .position nodeId x' y') :
    (draftAfter requests kept (later ++ i :: earlier)).nodePositions.get? nodeId =
      some (.json (.list [.int x,.int y])) := by
  induction later with
  | nil =>
    rw [List.nil_append,draftAfter_cons,move]
    simp [DraftEdit.apply,DraftState.settle,OrderedDict.get?_mapValues,PositionValue.encode]
  | cons j later ih =>
    rw [List.cons_append,draftAfter_cons]
    have before := ih fun k member => last k (List.mem_cons_of_mem j member)
    have other := last j List.mem_cons_self
    cases there : requests j with
    | lock id =>
      simp only [DraftEdit.apply,DraftState.settle,OrderedDict.get?_mapValues,before]
      rfl
    | instantiate id =>
      simp only [DraftEdit.apply,DraftState.settle,OrderedDict.get?_mapValues,before]
      rfl
    | position id x' y' =>
      have differs : id ≠ nodeId := by
        rintro rfl
        exact other x' y' there
      simp only [DraftEdit.apply,DraftState.settle,OrderedDict.get?_mapValues,OrderedDict.get?_set_other _ _ differs,
        before]
      rfl

end

end IceOS
