import IceOS.DraftStates

/-! Whether a draft that was saved comes back, and whether a session on it goes on as if it had been kept in memory. -/
namespace IceOS

variable {φ : Type}

/-- What is saved is loaded as it was, and calls are answered as they are where the state itself is kept. -/
def Survives (s : DraftState φ) : Prop :=
  ∃ kept, redisDraftStore.save s = .ok kept ∧ redisDraftStore.load kept = s ∧
    ∀ calls, redisDraftStore.responses (some kept) calls = inMemoryDraftStore.responses (some s) calls

namespace DraftState

/-- No blueprint is an object, and the stage is no member of an enumeration. -/
structure Reloadable (s : DraftState φ) : Prop where
  lastBlueprint : ∀ b, s.lastBlueprint ≠ some (.model b)
  blueprint : ∀ b, s.blueprint ≠ some (.model b)
  stage : ∀ name, s.currentStage ≠ .member name

/-- Nothing but JSON: no position is a tuple either. -/
structure Plain (s : DraftState φ) : Prop extends Reloadable s where
  positions : ∀ nodeId x y, s.nodePositions.get? nodeId ≠ some (.tuple x y)

/-- The state with its positions as they are in a text. -/
def settle (s : DraftState φ) : DraftState φ :=
  { s with nodePositions := s.nodePositions.mapValues fun p => .json p.encode }

section

variable {s : DraftState φ} {kept : StoredDraft φ}

theorem load_reloadable (kept : StoredDraft φ) : (RedisDraftStore.load kept).Reloadable where
  lastBlueprint b there := by
    obtain ⟨entries,_,same⟩ := Option.map_eq_some_iff.mp there
    cases same
  blueprint b there := by
    obtain ⟨entries,_,same⟩ := Option.map_eq_some_iff.mp there
    cases same
  stage name there := by cases there

theorem load_positions (kept : StoredDraft φ) (nodeId : String) (x y : Int) :
    (RedisDraftStore.load kept).nodePositions.get? nodeId ≠ some (.tuple x y) := by
  intro there
  rw [RedisDraftStore.load,OrderedDict.get?_mapValues] at there
  obtain ⟨v,_,same⟩ := Option.map_eq_some_iff.mp there
  cases same

theorem dictionaries {b : Option (BlueprintValue φ)} (plain : ∀ model, b ≠ some (.model model)) :
    (b.map BlueprintValue.encode).map .dict = b := by
  rcases b with _ | model | entries
  · rfl
  · exact absurd rfl (plain model)
  · rfl

/-- A state that can be reloaded comes back with its positions as lists. -/
theorem save_load (reloadable : s.Reloadable) :
    ∃ kept, RedisDraftStore.save s = .ok kept ∧ RedisDraftStore.load kept = s.settle := by
  obtain ⟨v,stage⟩ : ∃ v, s.currentStage = .json v := by
    cases stage : s.currentStage with
    | member name => exact absurd stage (reloadable.stage name)
    | json v => exact ⟨v,rfl⟩
  refine ⟨_,by rw [RedisDraftStore.save,stage]; rfl,?_⟩
  simp only [RedisDraftStore.load,dictionaries reloadable.lastBlueprint,dictionaries reloadable.blueprint,settle,stage,
    OrderedDict.mapValues_mapValues]

theorem asJson_settle (s : DraftState φ) : asJson s.settle = asJson s := by
  simp only [asJson,settle,OrderedDict.mapValues_mapValues]
  rfl

/-- An edit of the state with its positions as lists differs from one of the state itself in the positions only. -/
theorem settle_apply (e : DraftEdit) (s : DraftState φ) : (e.apply s.settle).settle = (e.apply s).settle := by
  cases e with
  | lock nodeId =>
    simp only [DraftEdit.apply,settle,OrderedDict.mapValues_mapValues]
    rfl
  | position nodeId x y =>
    simp only [DraftEdit.apply,settle,OrderedDict.mapValues_set,OrderedDict.mapValues_mapValues]
    rfl
  | instantiate nodeId =>
    simp only [DraftEdit.apply,settle,OrderedDict.mapValues_mapValues]
    rfl

theorem asJson_apply (e : DraftEdit) (s : DraftState φ) : asJson (e.apply s.settle) = asJson (e.apply s) := by
  calc asJson (e.apply s.settle)
      = asJson (e.apply s.settle).settle := (asJson_settle _).symm
    _ = asJson (e.apply s).settle := by rw [settle_apply]
    _ = asJson (e.apply s) := asJson_settle _

theorem Reloadable.apply (reloadable : s.Reloadable) (e : DraftEdit) : (e.apply s).Reloadable := by
  cases e <;> exact ⟨reloadable.lastBlueprint,reloadable.blueprint,reloadable.stage⟩

/-- Any call is answered alike where the text gives the state with its positions as lists, and leaves such a text. -/
theorem handle_agrees (agrees : RedisDraftStore.load kept = s.settle) (c : DraftCall) : ∃ response kept' s',
    redisDraftStore.handle (some kept) c = (response,some kept') ∧
    inMemoryDraftStore.handle (some s) c = (response,some s') ∧ RedisDraftStore.load kept' = s'.settle := by
  have same : asJson (RedisDraftStore.load kept) = asJson s := by rw [agrees,asJson_settle]
  cases c with
  | createOrGet =>
    refine ⟨asJson s,kept,s,?_,by simp only [DraftStore.handle,inMemoryDraftStore,id],agrees⟩
    simp only [DraftStore.handle,redisDraftStore,same]
  | get =>
    refine ⟨asJson s,kept,s,?_,by simp only [DraftStore.handle,inMemoryDraftStore,id],agrees⟩
    simp only [DraftStore.handle,redisDraftStore,same]
  | edit e =>
    obtain ⟨kept',saved,reloaded⟩ := save_load ((load_reloadable kept).apply e)
    refine ⟨asJson (e.apply s),kept',e.apply s,?_,by simp only [DraftStore.handle,inMemoryDraftStore,id],?_⟩
    · have replied : asJson (e.apply (RedisDraftStore.load kept)) = asJson (e.apply s) := by
        rw [agrees,asJson_apply]
      simp only [DraftStore.handle,redisDraftStore,saved,replied]
    · rw [reloaded,agrees,settle_apply]

theorem responses_agree (agrees : RedisDraftStore.load kept = s.settle) (calls : List DraftCall) :
    redisDraftStore.responses (some kept) calls = inMemoryDraftStore.responses (some s) calls := by
  induction calls generalizing kept s with
  | nil => rfl
  | cons c calls ih =>
    obtain ⟨response,kept',s',redis,memory,later⟩ := handle_agrees agrees c
    rw [DraftStore.responses,DraftStore.responses,redis,memory,ih later]

theorem settle_plain (plain : s.Plain) : s.settle = s := by
  have positions : (s.nodePositions.mapValues fun p => PositionValue.json p.encode) = s.nodePositions := by
    refine OrderedDict.mapValues_eq_self fun nodeId p there => ?_
    cases p with
    | tuple x y => exact absurd there (plain.positions nodeId x y)
    | json v => rfl
  rw [settle,positions]

end

end DraftState

/-- A draft survives exactly if it is nothing but JSON. -/
theorem survives_iff (s : DraftState φ) : Survives s ↔ s.Plain := by
  constructor
  · rintro ⟨kept,_,same,_⟩
    subst same
    exact ⟨DraftState.load_reloadable kept,DraftState.load_positions kept⟩
  · intro plain
    obtain ⟨kept,saved,loaded⟩ := DraftState.save_load plain.toReloadable
    exact ⟨kept,saved,loaded.trans (DraftState.settle_plain plain),DraftState.responses_agree loaded⟩

/-- A node position is recorded as a tuple and comes back as a list. -/
theorem position_not_restored : ¬∀ s : DraftState Unit, Survives s := by
  intro always
  obtain ⟨kept,_,same,_⟩ := always { nodePositions := .ofList [("a",.tuple 1 2)] }
  have there := DraftState.load_positions kept "a" 1 2
  rw [show RedisDraftStore.load kept = _ from same] at there
  exact there rfl

end IceOS
