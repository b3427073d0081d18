import IceOS.BlueprintApi
import Mathlib.Data.List.Induction

/-! What `_merge_nodes` makes of a patch. The last mention of an id decides whether the node is there
and what it says; the nodes that no mention deletes keep their order. -/
namespace IceOS

/-- The last of the patch's nodes that has the id. -/
def lastMention (patchNodes : List NodeSpec) (nodeId : String) : Option NodeSpec :=
  patchNodes.reverse.find? (·.id = nodeId)

/-- A node of the blueprint that the patch nowhere deletes, not even to add it again. -/
def NeverDeleted (existing patchNodes : List NodeSpec) (nodeId : String) : Prop :=
  nodeId ∈ existing.map (·.id) ∧ ∀ p ∈ patchNodes, p.id = nodeId → p.type ≠ "__delete__"

instance (existing patchNodes : List NodeSpec) : DecidablePred (NeverDeleted existing patchNodes) :=
  fun nodeId => inferInstanceAs (Decidable (_ ∧ ∀ p ∈ patchNodes, p.id = nodeId → p.type ≠ "__delete__"))

/-- The mapping that a patch is merged into. -/
def nodeMapping (existing : List NodeSpec) : OrderedDict String NodeSpec :=
  .ofList (existing.map fun node => (node.id,node))

/-- Every node stands under its own id. -/
def Filed (mapping : OrderedDict String NodeSpec) : Prop :=
  ∀ nodeId node, mapping.get? nodeId = some node → nodeId = node.id

section mapping

variable {mapping : OrderedDict String NodeSpec}

theorem filed_set (filed : Filed mapping) (node : NodeSpec) : Filed (mapping.set node.id node) := by
  refine OrderedDict.forall_set ?_ filed
  rfl

theorem filed_mergeNode (filed : Filed mapping) (p : NodeSpec) : Filed (mergeNode mapping p) := by
  unfold mergeNode
  split
  · exact OrderedDict.forall_erase filed p.id
  · exact filed_set filed p

theorem filed_merge (filed : Filed mapping) (patchNodes : List NodeSpec) : Filed (patchNodes.foldl mergeNode mapping) := by
  induction patchNodes generalizing mapping with
  | nil => exact filed
  | cons p rest ih => exact ih (filed_mergeNode filed p)

theorem nodeMapping_filed (existing : List NodeSpec) : Filed (nodeMapping existing) := by
  intro nodeId node found
  obtain ⟨other,_,same⟩ := List.mem_map.mp (OrderedDict.get?_ofList _ found)
  cases same
  rfl

theorem mem_values_iff (filed : Filed mapping) (node : NodeSpec) :
    node ∈ mapping.items.map Prod.snd ↔ mapping.get? node.id = some node := by
  rw [List.mem_map,OrderedDict.get?_eq_some]
  constructor
  · rintro ⟨⟨nodeId,other⟩,member,rfl⟩
    have own := filed nodeId other ((OrderedDict.get?_eq_some _ _ _).mpr member)
    exact own ▸ member
  · exact fun member => ⟨_,member,rfl⟩

theorem values_ids (filed : Filed mapping) : (mapping.items.map Prod.snd).map (·.id) = mapping.keys := by
  rw [List.map_map]
  refine List.map_congr_left fun item member => ?_
  exact (filed item.1 item.2 ((OrderedDict.get?_eq_some _ _ _).mpr member)).symm

theorem get?_mergeNode (mapping : OrderedDict String NodeSpec) (p : NodeSpec) (nodeId : String) :
    (mergeNode mapping p).get? nodeId =
      if p.id = nodeId then (if p.type = "__delete__" then none else some p) else mapping.get? nodeId := by
  unfold mergeNode
  by_cases deleted : p.type = "__delete__"
  · simp [deleted,OrderedDict.get?_erase]
  · simp [deleted,OrderedDict.get?_set]

/-- The last mention of an id decides; an id without a mention keeps what it had. -/
theorem get?_merge (mapping : OrderedDict String NodeSpec) (patchNodes : List NodeSpec) (nodeId : String) :
    (patchNodes.foldl mergeNode mapping).get? nodeId =
      match lastMention patchNodes nodeId with
      | none => mapping.get? nodeId
      | some p => if p.type = "__delete__" then none else some p := by
  induction patchNodes using List.reverseRec with
  | nil => rfl
  | append_singleton earlier p ih =>
    rw [List.foldl_append,List.foldl_cons,List.foldl_nil,get?_mergeNode]
    by_cases own : p.id = nodeId
    · simp [lastMention,own]
    · simpa [lastMention,own] using ih

/-- Deleting changes nothing among other ids, and setting nothing among ids that are there. -/
theorem keys_mergeNode_filter {kept : String → Prop} [DecidablePred kept] {p : NodeSpec}
    (spared : kept p.id → p.type ≠ "__delete__" ∧ p.id ∈ mapping.keys) :
    (mergeNode mapping p).keys.filter kept = mapping.keys.filter kept := by
  unfold mergeNode
  split
  · next deleted =>
    rw [OrderedDict.keys_erase,List.filter_filter]
    refine List.filter_congr fun nodeId _ => ?_
    by_cases keep : kept nodeId
    · have other : nodeId ≠ p.id := fun same => (spared (same ▸ keep)).1 deleted
      simp [keep,other]
    · simp [keep]
  · rw [OrderedDict.keys_set]
    split
    · rfl
    · next fresh =>
      have new : ¬kept p.id := fun keep => fresh (spared keep).2
      simp [List.filter_append,new]

theorem keys_merge_filter {kept : String → Prop} [DecidablePred kept] {patchNodes : List NodeSpec}
    (present : ∀ nodeId, kept nodeId → nodeId ∈ mapping.keys)
    (spared : ∀ p ∈ patchNodes, kept p.id → p.type ≠ "__delete__") :
    (patchNodes.foldl mergeNode mapping).keys.filter kept = mapping.keys.filter kept := by
  induction patchNodes generalizing mapping with
  | nil => rfl
  | cons p rest ih =>
    have first := keys_mergeNode_filter fun keep => ⟨spared p List.mem_cons_self keep,present p.id keep⟩
    have still (nodeId : String) (keep : kept nodeId) : nodeId ∈ (mergeNode mapping p).keys := by
      have there : nodeId ∈ (mergeNode mapping p).keys.filter kept := by
        rw [first]
        exact List.mem_filter.mpr ⟨present nodeId keep,by simp [keep]⟩
      exact (List.mem_filter.mp there).1
    exact (ih still fun q member => spared q (List.mem_cons_of_mem p member)).trans first

end mapping

/-! ### The merge -/

theorem mem_mergeNodes_iff (existing patchNodes : List NodeSpec) (node : NodeSpec) :
    node ∈ mergeNodes existing patchNodes ↔
      (patchNodes.foldl mergeNode (nodeMapping existing)).get? node.id = some node :=
  mem_values_iff (filed_merge (nodeMapping_filed existing) patchNodes) node

theorem mergeNodes_ids (existing patchNodes : List NodeSpec) :
    (mergeNodes existing patchNodes).map (·.id) = (patchNodes.foldl mergeNode (nodeMapping existing)).keys :=
  values_ids (filed_merge (nodeMapping_filed existing) patchNodes)

/-- Merging files the nodes by id. -/
theorem mergeNodes_distinct (existing patchNodes : List NodeSpec) :
    ((mergeNodes existing patchNodes).map (·.id)).Nodup := by
  rw [mergeNodes_ids]
  exact OrderedDict.keys_nodup _

theorem nodeMapping_items {existing : List NodeSpec} (distinct : (existing.map (·.id)).Nodup) :
    (nodeMapping existing).items = existing.map fun node => (node.id,node) :=
  OrderedDict.ofList_items _ (by simpa [List.map_map,Function.comp_def] using distinct)

theorem nodeMapping_keys {existing : List NodeSpec} (distinct : (existing.map (·.id)).Nodup) :
    (nodeMapping existing).keys = existing.map (·.id) := by
  simp [OrderedDict.keys,nodeMapping_items distinct,Function.comp_def]

theorem nodeMapping_get?_iff {existing : List NodeSpec} (distinct : (existing.map (·.id)).Nodup) (node : NodeSpec) :
    (nodeMapping existing).get? node.id = some node ↔ node ∈ existing := by
  rw [← mem_values_iff (nodeMapping_filed existing),nodeMapping_items distinct]
  simp [List.map_map,Function.comp_def]

/-- The law of a keyed merge. -/
structure KeyedMerge (existing patchNodes merged : List NodeSpec) : Prop where
  distinct : (merged.map (·.id)).Nodup
  mentioned : ∀ nodeId p, lastMention patchNodes nodeId = some p →
    (nodeId ∈ merged.map (·.id) ↔ p.type ≠ "__delete__") ∧ ∀ node ∈ merged, node.id = nodeId → node = p
  unmentioned : ∀ node, (∀ p ∈ patchNodes, p.id ≠ node.id) → (node ∈ merged ↔ node ∈ existing)
  order : (merged.map (·.id)).filter (NeverDeleted existing patchNodes) =
    (existing.map (·.id)).filter (NeverDeleted existing patchNodes)

theorem mergeNodes_keyed (existing patchNodes : List NodeSpec) (distinct : (existing.map (·.id)).Nodup) :
    KeyedMerge existing patchNodes (mergeNodes existing patchNodes) where
  distinct := mergeNodes_distinct existing patchNodes
  mentioned := by
    intro nodeId p last
    have held := get?_merge (nodeMapping existing) patchNodes nodeId
    simp only [last] at held
    constructor
    · rw [mergeNodes_ids,OrderedDict.mem_keys,held]
      split <;> simp_all
    · intro node member own
      rw [mem_mergeNodes_iff,own,held] at member
      split at member
      · cases member
      · exact (Option.some.inj member).symm
  unmentioned := by
    intro node silent
    have none : lastMention patchNodes node.id = none := by simpa [lastMention] using silent
    rw [mem_mergeNodes_iff,get?_merge,none]
    exact nodeMapping_get?_iff distinct node
  order := by
    rw [mergeNodes_ids,← nodeMapping_keys distinct]
    refine keys_merge_filter ?_ fun p member keep => keep.2 p member rfl
    intro nodeId keep
    rw [nodeMapping_keys distinct]
    exact keep.1

/-- `a` is changed, `b` deleted and added again at the end, `c` left alone. -/
theorem mergeNodes_keyed_readded :
    KeyedMerge [⟨"a","llm",[],false,none,""⟩,⟨"b","tool",[],false,none,""⟩,⟨"c","tool",[],false,none,""⟩]
      [⟨"b","__delete__",[],false,none,""⟩,⟨"a","tool",[],false,none,""⟩,⟨"b","llm",[],false,none,""⟩]
      [⟨"a","tool",[],false,none,""⟩,⟨"c","tool",[],false,none,""⟩,⟨"b","llm",[],false,none,""⟩] :=
  mergeNodes_keyed [⟨"a","llm",[],false,none,""⟩,⟨"b","tool",[],false,none,""⟩,⟨"c","tool",[],false,none,""⟩]
    [⟨"b","__delete__",[],false,none,""⟩,⟨"a","tool",[],false,none,""⟩,⟨"b","llm",[],false,none,""⟩] (by decide)

end IceOS
