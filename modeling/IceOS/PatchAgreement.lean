import IceOS.PartialLocks
import Mathlib.Data.Option.Basic

/-! Lists of patches to a partial blueprint: `apply_patch` makes them at once in the object that it is given, the updates
of the stored document one by one, with a document written and read back between any two. -/
namespace IceOS.Incremental

open ActionRuns

/-- An empty id and an empty dictionary of updates count as `none`. -/
structure NodePatch where
  action : String
  node : Option PartialNodeSpec := none
  nodeId : Option String := none
  updates : Option String := none
  deriving DecidableEq, Repr

/-- What `apply_patch` raises: a patch is not valid, or the fields of an update make no node. -/
inductive PatchError where
  | invalidPatch (message : String)
  | invalidNode
  deriving DecidableEq, Repr

namespace NodePatch

def ensureValid (p : NodePatch) : Except String Unit :=
  if p.action ∉ ["add_node","remove_node","update_node"] then .error ("Unsupported node patch action: " ++ p.action)
  else if p.action = "add_node" ∧ p.node = none then .error "add_node requires 'node'"
  else if p.action ∈ ["remove_node","update_node"] ∧ p.nodeId = none then .error (p.action ++ " requires 'node_id'")
  else .ok ()

/-- The update with the fields of a valid patch. -/
def toUpdate (p : NodePatch) : PartialBlueprintUpdate where
  action :=
    match p.action with
    | "add_node" => .addNode
    | "remove_node" => .removeNode
    | _ => .updateNode
  node := p.node
  nodeId := p.nodeId
  updates := p.updates

end NodePatch

namespace PartialRoutes

/-- One round of `validate_and_apply`, if it does not raise. -/
def applyNodePatch (x : PartialRoutes) (registry : RegistryView) (blueprint : PartialBlueprint) (p : NodePatch) :
    Option PartialBlueprint :=
  match p.action,p.node,p.nodeId,p.updates with
  | "add_node",some node,_,_ => some (x.addNode registry blueprint node)
  | "remove_node",_,some nodeId,_ =>
    some (x.validateIncremental registry { blueprint with nodes := blueprint.nodes.filter (·.id ≠ nodeId) })
  | "update_node",_,some nodeId,some updates =>
    (x.updateNode nodeId updates blueprint.nodes).map fun nodes =>
      x.validateIncremental registry { blueprint with nodes }
  | _,_,_,_ => some blueprint

/-- The blueprint passed in, as the rounds leave it, and what they raise. -/
def validateAndApply (x : PartialRoutes) (registry : RegistryView) (blueprint : PartialBlueprint) :
    List NodePatch → PartialBlueprint × Option PatchError
  | [] => (blueprint,none)
  | p :: patches =>
    match p.ensureValid with
    | .error message => (blueprint,some (.invalidPatch message))
    | .ok () =>
      match x.applyNodePatch registry blueprint p with
      | none => (blueprint,some .invalidNode)
      | some next => x.validateAndApply registry next patches

/-- The service first looks at every patch. -/
def applyPatch (x : PartialRoutes) (registry : RegistryView) (blueprint : PartialBlueprint) (patches : List NodePatch) :
    PartialBlueprint × Option PatchError :=
  match patches.forM NodePatch.ensureValid with
  | .error message => (blueprint,some (.invalidPatch message))
  | .ok () => x.validateAndApply registry blueprint patches

/-- What an update route makes of the stored document. -/
def updateStored (x : PartialRoutes) (registry : RegistryView) (stored : PartialBlueprint)
    (update : PartialBlueprintUpdate) : Option PartialBlueprint :=
  x.applyUpdate registry (x.reread stored) update

end PartialRoutes

/-! ### Agreement -/

/-- The node as a `NodeSpec`, with the same fields. -/
def PartialNodeSpec.plain (node : PartialNodeSpec) : PartialNodeSpec := { node with isPartial := false }

/-- A node of the class `PartialNodeSpec` that has pending inputs. -/
def PartialNodeSpec.Waits (node : PartialNodeSpec) : Prop :=
  node.isPartial = true ∧ node.pendingInputs.getD [] ≠ []

/-- Two ways of editing end alike: both fail, or the nodes have the same fields and flag and errors are the same. -/
def SameEnd : Option PartialBlueprint → Option PartialBlueprint → Prop
  | some p,some q => p.nodes.map (·.plain) = q.nodes.map (·.plain) ∧ p.isComplete = q.isComplete ∧
      p.validationErrors = q.validationErrors
  | none,none => True
  | _,_ => False

def Valid (patches : List NodePatch) : Prop := ∀ p ∈ patches, p.ensureValid = .ok ()

/-- Valid patches have the same end at once and one by one; where `apply_patch` raises, it leaves the blueprint alone. -/
structure PatchesAgree (x : PartialRoutes) (registry : RegistryView) (blueprint : PartialBlueprint)
    (patches : List NodePatch) : Prop where
  alike : Valid patches →
    SameEnd
      (if (x.applyPatch registry blueprint patches).2 = none then some (x.applyPatch registry blueprint patches).1 else none)
      (run (x.updateStored registry) (patches.map (·.toUpdate)) blueprint)
  kept : (x.applyPatch registry blueprint patches).2 ≠ none → (x.applyPatch registry blueprint patches).1 = blueprint

/-- The class of a node is not in its JSON, from which a node is read back as the first member of the union. -/
structure ReadsFirst (x : PartialRoutes) : Prop where
  readsPartial : ∀ node, x.readsPartial node = false
  replaceFields : ∀ node updates, x.replaceFields node.plain updates = x.replaceFields node updates
  toolName : ∀ node, x.toolName node.plain = x.toolName node
  package : ∀ node, x.package node.plain = x.package node
  workflowRef : ∀ node, x.workflowRef node.plain = x.workflowRef node

namespace NodePatch

/-- An update without fields does nothing; every other valid patch validates the blueprint again. -/
def Revalidates (p : NodePatch) : Prop := ¬ (p.action = "update_node" ∧ p.updates = none)

instance (p : NodePatch) : Decidable p.Revalidates := inferInstanceAs (Decidable (¬ _))

/-- The nodes after a valid patch, if it makes valid nodes. -/
def editNodes (x : PartialRoutes) (nodes : List PartialNodeSpec) (p : NodePatch) : Option (List PartialNodeSpec) :=
  match p.action,p.node,p.nodeId,p.updates with
  | "add_node",some node,_,_ => some (nodes ++ [node])
  | "remove_node",_,some nodeId,_ => some (nodes.filter (·.id ≠ nodeId))
  | "update_node",_,some nodeId,some updates => x.updateNode nodeId updates nodes
  | _,_,_,_ => some nodes

/-- The nodes that a patch leaves in the list as they are. -/
def untouched (p : NodePatch) (nodes : List PartialNodeSpec) : List PartialNodeSpec :=
  match p.action,p.nodeId with
  | "remove_node",some nodeId => nodes.filter (·.id ≠ nodeId)
  | "update_node",some nodeId => nodes.eraseP (·.id = nodeId)
  | _,_ => nodes

end NodePatch

/-- What validating a blueprint with these nodes says. -/
def PartialRoutes.verdict (x : PartialRoutes) (registry : RegistryView) (nodes : List PartialNodeSpec) : PartialBlueprint :=
  x.validateIncremental registry { blueprintId := "",nodes }

/-- No validation after one of the patches has a suggestion to add. -/
def Quiet (x : PartialRoutes) (registry : RegistryView) : List PartialNodeSpec → List NodePatch → Prop
  | _,[] => True
  | nodes,p :: patches =>
    ∀ edited, p.editNodes x nodes = some edited →
      (p.Revalidates → (x.verdict registry edited).nextSuggestions = []) ∧ Quiet x registry edited patches

/-- The last patch that validates the blueprint leaves no node as it is that waits for inputs. Where a patch makes no valid
node, those before it do nothing, or they bring the nodes back without a suggestion to add, and the blueprint says of its
nodes what validating them says. -/
structure Undisturbed (x : PartialRoutes) (registry : RegistryView) (blueprint : PartialBlueprint)
    (patches : List NodePatch) : Prop where
  settled : Valid patches → run (NodePatch.editNodes x) patches blueprint.nodes ≠ none → ∀ before p after nodes,
    patches = before ++ p :: after → p.Revalidates → (∀ q ∈ after, ¬ q.Revalidates) →
      run (NodePatch.editNodes x) before blueprint.nodes = some nodes → ∀ node ∈ p.untouched nodes, ¬ node.Waits
  unchanged : Valid patches → ∀ before p after nodes, patches = before ++ p :: after →
    run (NodePatch.editNodes x) before blueprint.nodes = some nodes → p.editNodes x nodes = none →
      (∀ q ∈ before, ¬ q.Revalidates) ∨
      (nodes = blueprint.nodes ∧ Quiet x registry blueprint.nodes before ∧
        blueprint.validationErrors = (x.verdict registry nodes).validationErrors ∧
        blueprint.isComplete = (x.verdict registry nodes).isComplete)

/-! ### One patch -/

theorem NodePatch.valid_cases {p : NodePatch} (valid : p.ensureValid = .ok ()) :
    (∃ node, p.action = "add_node" ∧ p.node = some node) ∨
    (∃ nodeId, p.action = "remove_node" ∧ p.nodeId = some nodeId) ∨
    ∃ nodeId, p.action = "update_node" ∧ p.nodeId = some nodeId := by
  rcases p with ⟨action,node,nodeId,updates⟩
  unfold ensureValid at valid
  split at valid
  · cases valid
  · split at valid
    · cases valid
    · split at valid
      · cases valid
      · rename_i known noNode noId
        simp only [List.mem_cons,List.not_mem_nil,or_false,not_not] at known noNode noId
        rcases known with rfl | rfl | rfl
        · obtain ⟨node,rfl⟩ := Option.ne_none_iff_exists'.mp fun missing => noNode ⟨rfl,missing⟩
          exact .inl ⟨node,rfl,rfl⟩
        · obtain ⟨nodeId,rfl⟩ := Option.ne_none_iff_exists'.mp fun missing => noId ⟨.inl rfl,missing⟩
          exact .inr (.inl ⟨nodeId,rfl,rfl⟩)
        · obtain ⟨nodeId,rfl⟩ := Option.ne_none_iff_exists'.mp fun missing => noId ⟨.inr rfl,missing⟩
          exact .inr (.inr ⟨nodeId,rfl,rfl⟩)

section

variable {x : PartialRoutes} {registry : RegistryView}

theorem applyUpdate_toUpdate {p : NodePatch} (valid : p.ensureValid = .ok ()) (blueprint : PartialBlueprint) :
    x.applyUpdate registry blueprint p.toUpdate = x.applyNodePatch registry blueprint p := by
  have known := NodePatch.valid_cases valid
  rcases p with ⟨action,node,nodeId,updates⟩
  rcases known with ⟨_,rfl,rfl⟩ | ⟨_,rfl,rfl⟩ | ⟨_,rfl,rfl⟩
  · rfl
  · rfl
  · cases updates <;> rfl

/-- A valid patch edits the nodes and then has them validated, if it does anything. -/
theorem applyNodePatch_eq {p : NodePatch} (valid : p.ensureValid = .ok ()) (blueprint : PartialBlueprint) :
    x.applyNodePatch registry blueprint p = (p.editNodes x blueprint.nodes).map fun nodes =>
      if p.Revalidates then x.validateIncremental registry { blueprint with nodes } else blueprint := by
  have known := NodePatch.valid_cases valid
  rcases p with ⟨action,node,nodeId,updates⟩
  rcases known with ⟨_,rfl,rfl⟩ | ⟨_,rfl,rfl⟩ | ⟨_,rfl,rfl⟩
  · rfl
  · rfl
  · cases updates <;> rfl

theorem editNodes_idle {p : NodePatch} (idle : ¬ p.Revalidates) (nodes : List PartialNodeSpec) :
    p.editNodes x nodes = some nodes := by
  rcases p with ⟨action,node,nodeId,updates⟩
  obtain ⟨rfl,rfl⟩ := not_not.mp idle
  cases nodeId <;> rfl

theorem applyNodePatch_idle {p : NodePatch} (valid : p.ensureValid = .ok ()) (idle : ¬ p.Revalidates)
    (blueprint : PartialBlueprint) : x.applyNodePatch registry blueprint p = some blueprint := by
  rw [applyNodePatch_eq valid,editNodes_idle idle,Option.map_some,if_neg idle]

/-! ### What validating says -/

theorem validateIncremental_eq (p : PartialBlueprint) : x.validateIncremental registry p =
    { p with
      validationErrors := (x.verdict registry p.nodes).validationErrors
      isComplete := (x.verdict registry p.nodes).isComplete
      nextSuggestions := p.nextSuggestions ++ (x.verdict registry p.nodes).nextSuggestions } := by
  unfold PartialRoutes.verdict PartialRoutes.validateIncremental
  dsimp only
  split
  · simp only [List.append_nil]
  · split <;> simp only [List.append_assoc,List.nil_append]

theorem verdict_isComplete (nodes : List PartialNodeSpec) :
    (x.verdict registry nodes).isComplete = (x.verdict registry nodes).validationErrors.isEmpty := by
  unfold PartialRoutes.verdict PartialRoutes.validateIncremental
  dsimp only
  split
  · rfl
  · split
    · rfl
    · rename_i _ errors
      exact (Bool.eq_false_iff.mpr errors).symm

theorem verdict_errors {nodes : List PartialNodeSpec} (nonempty : nodes ≠ []) :
    (x.verdict registry nodes).validationErrors =
      PartialRoutes.missingDependencies nodes ++ PartialRoutes.unconnectedInputs nodes ++
        (nodes.filterMap (x.unresolved registry)).map Prod.fst := by
  unfold PartialRoutes.verdict PartialRoutes.validateIncremental
  dsimp only
  rw [if_neg (by simpa only [List.isEmpty_iff] using nonempty)]
  split
  · rename_i none
    exact (List.isEmpty_iff.mp none).symm
  · rfl

theorem unconnectedInputs_append (first second : List PartialNodeSpec) :
    PartialRoutes.unconnectedInputs (first ++ second) =
      PartialRoutes.unconnectedInputs first ++ PartialRoutes.unconnectedInputs second :=
  List.filterMap_append

theorem unconnectedInputs_eq_nil_iff (nodes : List PartialNodeSpec) :
    PartialRoutes.unconnectedInputs nodes = [] ↔ ∀ node ∈ nodes, ¬ node.Waits := by
  unfold PartialRoutes.unconnectedInputs
  rw [List.filterMap_eq_nil_iff]
  refine forall₂_congr fun node _ => ?_
  unfold PartialNodeSpec.Waits
  split
  · rename_i isPartial pending
    simp [isPartial,pending]
  · rename_i other
    refine iff_of_true rfl ?_
    rintro ⟨isPartial,pending⟩
    cases inputs : node.pendingInputs with
    | none => simp [inputs] at pending
    | some inputs' =>
      cases inputs' with
      | nil => simp [inputs] at pending
      | cons input rest => exact other input rest isPartial inputs

/-! ### The class of a node -/

@[simp] theorem PartialNodeSpec.plain_plain (node : PartialNodeSpec) : node.plain.plain = node.plain := rfl

theorem plain_map_plain (nodes : List PartialNodeSpec) : (nodes.map (·.plain)).map (·.plain) = nodes.map (·.plain) := by
  rw [List.map_map]
  rfl

theorem plain_ids (nodes : List PartialNodeSpec) : (nodes.map (·.plain)).map (·.id) = nodes.map (·.id) := by
  rw [List.map_map]
  rfl

theorem reread_nodes (reads : ReadsFirst x) (p : PartialBlueprint) : (x.reread p).nodes = p.nodes.map (·.plain) := by
  unfold PartialRoutes.reread
  exact List.map_congr_left fun node _ => by rw [reads.readsPartial]; rfl

theorem unconnectedInputs_plain (nodes : List PartialNodeSpec) :
    PartialRoutes.unconnectedInputs (nodes.map (·.plain)) = [] := by
  rw [unconnectedInputs_eq_nil_iff]
  rintro node member ⟨isPartial,_⟩
  obtain ⟨_,_,rfl⟩ := List.mem_map.mp member
  cases isPartial

theorem missingDependencies_plain (nodes : List PartialNodeSpec) :
    PartialRoutes.missingDependencies (nodes.map (·.plain)) = PartialRoutes.missingDependencies nodes := by
  unfold PartialRoutes.missingDependencies
  rw [plain_ids,List.flatMap_map]
  rfl

theorem unresolved_plain (reads : ReadsFirst x) (nodes : List PartialNodeSpec) :
    (nodes.map (·.plain)).filterMap (x.unresolved registry) = nodes.filterMap (x.unresolved registry) := by
  rw [List.filterMap_map]
  refine List.filterMap_congr fun node _ => ?_
  simp only [Function.comp,PartialRoutes.unresolved,reads.toolName,reads.package,reads.workflowRef]
  rfl

/-- Nodes with the same fields get the same errors exactly when their pending inputs are reported alike. -/
theorem verdict_errors_iff (registry : RegistryView) (reads : ReadsFirst x) {nodes others : List PartialNodeSpec}
    (same : nodes.map (·.plain) = others.map (·.plain)) :
    (x.verdict registry nodes).validationErrors = (x.verdict registry others).validationErrors ↔
      PartialRoutes.unconnectedInputs nodes = PartialRoutes.unconnectedInputs others := by
  by_cases nonempty : nodes = []
  · subst nonempty
    cases List.map_eq_nil_iff.mp same.symm
    exact iff_of_true rfl rfl
  · have others_nonempty : others ≠ [] := by
      rintro rfl
      exact nonempty (List.map_eq_nil_iff.mp same)
    rw [verdict_errors nonempty,verdict_errors others_nonempty,← missingDependencies_plain nodes,
      ← missingDependencies_plain others,← unresolved_plain reads nodes,← unresolved_plain reads others,same,
      List.append_left_inj,List.append_right_inj]

theorem updateNode_plain (reads : ReadsFirst x) (nodeId updates : String) (nodes : List PartialNodeSpec) :
    (x.updateNode nodeId updates (nodes.map (·.plain))).map (·.map (·.plain)) =
      (x.updateNode nodeId updates nodes).map (·.map (·.plain)) := by
  induction nodes with
  | nil => rfl
  | cons node rest ih =>
    by_cases named : node.id = nodeId
    · have named' : node.plain.id = nodeId := named
      simp only [List.map_cons,PartialRoutes.updateNode,if_pos named,if_pos named',reads.replaceFields]
      cases x.replaceFields node updates with
      | none => rfl
      | some replaced => simp only [Option.map_some,List.map_cons,plain_map_plain]
    · have named' : ¬ node.plain.id = nodeId := named
      simp only [List.map_cons,PartialRoutes.updateNode,if_neg named,if_neg named',Option.map_map,Function.comp_def]
      simpa only [Option.map_map,Function.comp_def,PartialNodeSpec.plain_plain] using
        congrArg (Option.map (node.plain :: ·)) ih

/-- A patch edits the fields of the nodes, whatever their classes. -/
theorem editNodes_plain (reads : ReadsFirst x) {p : NodePatch} (valid : p.ensureValid = .ok ())
    (nodes : List PartialNodeSpec) :
    (p.editNodes x (nodes.map (·.plain))).map (·.map (·.plain)) = (p.editNodes x nodes).map (·.map (·.plain)) := by
  have known := NodePatch.valid_cases valid
  rcases p with ⟨action,node,nodeId,updates⟩
  rcases known with ⟨_,rfl,rfl⟩ | ⟨_,rfl,rfl⟩ | ⟨_,rfl,rfl⟩
  · simp only [NodePatch.editNodes,Option.map_some,List.map_append,plain_map_plain]
  · simp only [NodePatch.editNodes,Option.map_some,List.filter_map,plain_map_plain]
    rfl
  · cases updates with
    | none => exact congrArg some (plain_map_plain nodes)
    | some updates => exact updateNode_plain reads ..

/-! ### Pending inputs after an edit -/

theorem unconnectedInputs_cons (node : PartialNodeSpec) (rest : List PartialNodeSpec) :
    PartialRoutes.unconnectedInputs (node :: rest) =
      PartialRoutes.unconnectedInputs [node] ++ PartialRoutes.unconnectedInputs rest :=
  unconnectedInputs_append [node] rest

/-- Replacing a node where the others have lost their class loses the errors of the others. -/
theorem updateNode_unconnected (reads : ReadsFirst x) {nodeId updates : String} {nodes : List PartialNodeSpec} :
    ∀ {edited others : List PartialNodeSpec}, x.updateNode nodeId updates nodes = some edited →
      x.updateNode nodeId updates (nodes.map (·.plain)) = some others →
      (PartialRoutes.unconnectedInputs edited).length = (PartialRoutes.unconnectedInputs others).length +
        (PartialRoutes.unconnectedInputs (nodes.eraseP (·.id = nodeId))).length ∧
      (PartialRoutes.unconnectedInputs (nodes.eraseP (·.id = nodeId)) = [] →
        PartialRoutes.unconnectedInputs edited = PartialRoutes.unconnectedInputs others) := by
  induction nodes with
  | nil =>
    intro edited others made kept
    cases made
    cases kept
    exact ⟨rfl,fun _ => rfl⟩
  | cons node rest ih =>
    intro edited others made kept
    by_cases named : node.id = nodeId
    · have named' : node.plain.id = nodeId := named
      simp only [List.map_cons,PartialRoutes.updateNode,if_pos named,if_pos named',reads.replaceFields] at made kept
      obtain ⟨replaced,replacement,rfl⟩ := Option.map_eq_some_iff.mp made
      rw [replacement] at kept
      cases kept
      rw [List.eraseP_cons_of_pos (by simpa using named),unconnectedInputs_cons replaced,
        unconnectedInputs_cons replaced (rest.map _),unconnectedInputs_plain,List.append_nil,List.length_append]
      refine ⟨rfl,fun none => ?_⟩
      rw [none,List.append_nil]
    · have named' : ¬ node.plain.id = nodeId := named
      simp only [List.map_cons,PartialRoutes.updateNode,if_neg named,if_neg named'] at made kept
      obtain ⟨later,madeLater,rfl⟩ := Option.map_eq_some_iff.mp made
      obtain ⟨laterOthers,keptLater,rfl⟩ := Option.map_eq_some_iff.mp kept
      obtain ⟨length,equal⟩ := ih madeLater keptLater
      have classless : PartialRoutes.unconnectedInputs [node.plain] = [] := unconnectedInputs_plain [node]
      rw [List.eraseP_cons_of_neg (by simpa using named),unconnectedInputs_cons node,unconnectedInputs_cons node.plain,
        unconnectedInputs_cons node (rest.eraseP _),classless,List.nil_append,List.length_append,List.length_append,length]
      refine ⟨by omega,fun none => ?_⟩
      obtain ⟨own,untouched⟩ := List.append_eq_nil_iff.mp none
      rw [own,List.nil_append,equal untouched]

/-- After a valid patch the two ways report the same pending inputs exactly when no node that it leaves as it is waits. -/
theorem editNodes_unconnected_iff (reads : ReadsFirst x) {p : NodePatch} (valid : p.ensureValid = .ok ())
    (revalidates : p.Revalidates) {nodes edited others : List PartialNodeSpec} (made : p.editNodes x nodes = some edited)
    (kept : p.editNodes x (nodes.map (·.plain)) = some others) :
    PartialRoutes.unconnectedInputs edited = PartialRoutes.unconnectedInputs others ↔
      ∀ node ∈ p.untouched nodes, ¬ node.Waits := by
  rw [← unconnectedInputs_eq_nil_iff]
  have known := NodePatch.valid_cases valid
  rcases p with ⟨action,node,nodeId,updates⟩
  rcases known with ⟨node,rfl,rfl⟩ | ⟨nodeId,rfl,rfl⟩ | ⟨nodeId,rfl,rfl⟩
  · cases made
    cases kept
    rw [unconnectedInputs_append,unconnectedInputs_append,unconnectedInputs_plain,List.append_left_inj]
    cases nodeId <;> rfl
  · cases made
    cases kept
    rw [List.filter_map,unconnectedInputs_plain]
    rfl
  · cases updates with
    | none => exact absurd ⟨rfl,rfl⟩ revalidates
    | some updates =>
      obtain ⟨length,equal⟩ := updateNode_unconnected reads made kept
      refine ⟨fun same => ?_,equal⟩
      rw [same] at length
      exact List.eq_nil_of_length_eq_zero (by simpa [NodePatch.untouched] using length)

/-! ### Runs of patches -/

theorem Valid.head {p : NodePatch} {patches : List NodePatch} (valid : Valid (p :: patches)) : p.ensureValid = .ok () :=
  valid p (List.mem_cons_self ..)

theorem Valid.tail {p : NodePatch} {patches : List NodePatch} (valid : Valid (p :: patches)) : Valid patches :=
  fun q member => valid q (List.mem_cons_of_mem _ member)

theorem Valid.split {first second : List NodePatch} (valid : Valid (first ++ second)) : Valid first ∧ Valid second :=
  ⟨fun p member => valid p (List.mem_append_left _ member),fun p member => valid p (List.mem_append_right _ member)⟩

theorem applyNodePatch_nodes (registry : RegistryView) {p : NodePatch} (valid : p.ensureValid = .ok ())
    (blueprint : PartialBlueprint) :
    (x.applyNodePatch registry blueprint p).map (·.nodes) = p.editNodes x blueprint.nodes := by
  rw [applyNodePatch_eq valid,Option.map_map]
  by_cases revalidates : p.Revalidates
  · simp only [if_pos revalidates,validateIncremental_eq,Function.comp_def,Option.map_id']
  · rw [editNodes_idle revalidates,Option.map_some,Function.comp,if_neg revalidates]

theorem run_nodes (x : PartialRoutes) (registry : RegistryView) {patches : List NodePatch} (valid : Valid patches)
    (blueprint : PartialBlueprint) : (run (x.applyNodePatch registry) patches blueprint).map (·.nodes) =
      run (NodePatch.editNodes x) patches blueprint.nodes :=
  run_map _ (fun p member blueprint => applyNodePatch_nodes registry (valid p member) blueprint) blueprint

theorem updateStored_toUpdate {p : NodePatch} (valid : p.ensureValid = .ok ()) (stored : PartialBlueprint) :
    x.updateStored registry stored p.toUpdate = x.applyNodePatch registry (x.reread stored) p :=
  applyUpdate_toUpdate valid _

/-- Patches lead to nodes with the same fields, and fail alike, whether the documents are read back or not. -/
theorem run_plain (registry : RegistryView) (reads : ReadsFirst x) {patches : List NodePatch} (valid : Valid patches)
    (blueprint : PartialBlueprint) :
    (run (x.updateStored registry) (patches.map (·.toUpdate)) blueprint).map (·.nodes.map (·.plain)) =
      (run (x.applyNodePatch registry) patches blueprint).map (·.nodes.map (·.plain)) := by
  let edit (nodes : List PartialNodeSpec) (p : NodePatch) := (p.editNodes x nodes).map (·.map (·.plain))
  have fields (p : NodePatch) (member : p ∈ patches) (q : PartialBlueprint) :
      (x.applyNodePatch registry q p).map (·.nodes.map (·.plain)) = edit (q.nodes.map (·.plain)) p :=
    calc (x.applyNodePatch registry q p).map (·.nodes.map (·.plain))
        = ((x.applyNodePatch registry q p).map (·.nodes)).map (·.map (·.plain)) := (Option.map_map ..).symm
      _ = (p.editNodes x q.nodes).map (·.map (·.plain)) := by rw [applyNodePatch_nodes registry (valid p member)]
      _ = edit (q.nodes.map (·.plain)) p := (editNodes_plain reads (valid p member) q.nodes).symm
  have storedFields (p : NodePatch) (member : p ∈ patches) (q : PartialBlueprint) :
      (x.updateStored registry q p.toUpdate).map (·.nodes.map (·.plain)) = edit (q.nodes.map (·.plain)) p := by
    rw [updateStored_toUpdate (valid p member),fields p member,reread_nodes reads,plain_map_plain]
  rw [run_map_actions]
  exact (run_map _ storedFields blueprint).trans (run_map _ fields blueprint).symm

/-! ### Applying at once -/

theorem forM_ensureValid_iff (patches : List NodePatch) :
    patches.forM NodePatch.ensureValid = .ok () ↔ Valid patches := by
  induction patches with
  | nil => exact iff_of_true rfl (by rintro _ ⟨⟩)
  | cons p rest ih =>
    change (p.ensureValid.bind fun _ => rest.forM NodePatch.ensureValid) = .ok () ↔ _
    constructor
    · intro checked
      cases own : p.ensureValid with
      | error message =>
        rw [own] at checked
        cases checked
      | ok =>
        rw [own] at checked
        exact List.forall_mem_cons.mpr ⟨own,ih.mp checked⟩
    · intro valid
      rw [valid.head]
      exact ih.mpr valid.tail

theorem applyPatch_of_valid {patches : List NodePatch} (valid : Valid patches) (blueprint : PartialBlueprint) :
    x.applyPatch registry blueprint patches = x.validateAndApply registry blueprint patches := by
  rw [PartialRoutes.applyPatch,(forM_ensureValid_iff patches).mpr valid]

theorem applyPatch_of_invalid {patches : List NodePatch} (invalid : ¬ Valid patches) (blueprint : PartialBlueprint) :
    (x.applyPatch registry blueprint patches).1 = blueprint := by
  rw [PartialRoutes.applyPatch]
  split
  · rfl
  · exact absurd ((forM_ensureValid_iff patches).mp ‹_›) invalid

theorem validateAndApply_done {patches : List NodePatch} {blueprint done : PartialBlueprint} (valid : Valid patches)
    (ran : run (x.applyNodePatch registry) patches blueprint = some done) :
    x.validateAndApply registry blueprint patches = (done,none) := by
  induction patches generalizing blueprint with
  | nil =>
    cases ran
    rfl
  | cons p rest ih =>
    obtain ⟨next,stepped,later⟩ := Option.bind_eq_some_iff.mp ran
    simp only [PartialRoutes.validateAndApply,valid.head,stepped,ih valid.tail later]

/-- Where the fields of an update make no node, the blueprint stays as the rounds before have left it. -/
theorem validateAndApply_stops {before after : List NodePatch} {p : NodePatch} {blueprint seen : PartialBlueprint}
    (valid : Valid (before ++ p :: after)) (ran : run (x.applyNodePatch registry) before blueprint = some seen)
    (stuck : x.applyNodePatch registry seen p = none) :
    x.validateAndApply registry blueprint (before ++ p :: after) = (seen,some .invalidNode) := by
  induction before generalizing blueprint with
  | nil =>
    cases ran
    simp only [List.nil_append,PartialRoutes.validateAndApply,valid.head,stuck]
  | cons q rest ih =>
    obtain ⟨next,stepped,later⟩ := Option.bind_eq_some_iff.mp ran
    simp only [List.cons_append,PartialRoutes.validateAndApply,valid.head,stepped,ih valid.tail later]

/-- Valid patches are applied at once as rounds that follow each other. -/
theorem applyPatch_result {patches : List NodePatch} (valid : Valid patches) (blueprint : PartialBlueprint) :
    (if (x.applyPatch registry blueprint patches).2 = none then some (x.applyPatch registry blueprint patches).1
      else none) = run (x.applyNodePatch registry) patches blueprint := by
  rw [applyPatch_of_valid valid]
  cases ran : run (x.applyNodePatch registry) patches blueprint with
  | none =>
    obtain ⟨before,p,after,seen,rfl,reached,stuck⟩ := run_stuck ran
    rw [validateAndApply_stops valid reached stuck,if_neg (Option.some_ne_none _)]
  | some done => rw [validateAndApply_done valid ran,if_pos rfl]

/-! ### The last validation -/

theorem applyNodePatch_revalidates {p : NodePatch} (valid : p.ensureValid = .ok ()) (revalidates : p.Revalidates)
    {blueprint next : PartialBlueprint} (stepped : x.applyNodePatch registry blueprint p = some next) :
    p.editNodes x blueprint.nodes = some next.nodes ∧ next =
      { blueprint with
        nodes := next.nodes
        validationErrors := (x.verdict registry next.nodes).validationErrors
        isComplete := (x.verdict registry next.nodes).isComplete
        nextSuggestions := blueprint.nextSuggestions ++ (x.verdict registry next.nodes).nextSuggestions } := by
  rw [applyNodePatch_eq valid] at stepped
  obtain ⟨nodes,edited,rfl⟩ := Option.map_eq_some_iff.mp stepped
  rw [if_pos revalidates,validateIncremental_eq]
  exact ⟨edited,rfl⟩

theorem run_idle {patches : List NodePatch} (valid : Valid patches) (idle : ∀ p ∈ patches, ¬ p.Revalidates)
    (blueprint : PartialBlueprint) : run (x.applyNodePatch registry) patches blueprint = some blueprint := by
  induction patches with
  | nil => rfl
  | cons p rest ih =>
    rw [run,applyNodePatch_idle valid.head (idle p (List.mem_cons_self ..)),Option.bind_some]
    exact ih valid.tail fun q member => idle q (List.mem_cons_of_mem _ member)

/-- Updates without fields keep what the document says of its nodes. -/
theorem run_idle_stored (x : PartialRoutes) (registry : RegistryView) {patches : List NodePatch} (valid : Valid patches)
    (idle : ∀ p ∈ patches, ¬ p.Revalidates) (stored : PartialBlueprint) :
    ∃ kept, run (x.updateStored registry) (patches.map (·.toUpdate)) stored = some kept ∧
      kept.isComplete = stored.isComplete ∧ kept.validationErrors = stored.validationErrors := by
  induction patches generalizing stored with
  | nil => exact ⟨stored,rfl,rfl,rfl⟩
  | cons p rest ih =>
    obtain ⟨kept,ran,complete,errors⟩ :=
      ih valid.tail (fun q member => idle q (List.mem_cons_of_mem _ member)) (x.reread stored)
    refine ⟨kept,?_,complete,errors⟩
    rw [List.map_cons,run,updateStored_toUpdate valid.head,
      applyNodePatch_idle valid.head (idle p (List.mem_cons_self ..)),Option.bind_some,ran]

theorem last_revalidation (patches : List NodePatch) : (∀ p ∈ patches, ¬ p.Revalidates) ∨
    ∃ before p after, patches = before ++ p :: after ∧ p.Revalidates ∧ ∀ q ∈ after, ¬ q.Revalidates := by
  induction patches with
  | nil => exact .inl (by rintro _ ⟨⟩)
  | cons p rest ih =>
    rcases ih with idle | ⟨before,q,after,rfl,revalidates,idle⟩
    · by_cases revalidates : p.Revalidates
      · exact .inr ⟨[],p,rest,rfl,revalidates,idle⟩
      · exact .inl (List.forall_mem_cons.mpr ⟨revalidates,idle⟩)
    · exact .inr ⟨p :: before,q,after,rfl,revalidates,idle⟩

/-- The last validation decides: the two ways say the same exactly if it passes over no node that waits. -/
theorem last_alike_iff (reads : ReadsFirst x) {before after : List NodePatch} {p : NodePatch}
    (valid : Valid (before ++ p :: after)) (revalidates : p.Revalidates) (idle : ∀ q ∈ after, ¬ q.Revalidates)
    {blueprint done stored : PartialBlueprint} {nodes : List PartialNodeSpec}
    (reached : run (NodePatch.editNodes x) before blueprint.nodes = some nodes)
    (atOnce : run (x.applyNodePatch registry) (before ++ p :: after) blueprint = some done)
    (oneByOne : run (x.updateStored registry) ((before ++ p :: after).map (·.toUpdate)) blueprint = some stored) :
    (done.isComplete = stored.isComplete ∧ done.validationErrors = stored.validationErrors) ↔
      ∀ node ∈ p.untouched nodes, ¬ node.Waits := by
  obtain ⟨validBefore,validRest⟩ := valid.split
  -- at once
  rw [run_append] at atOnce
  obtain ⟨seen,ranBefore,atOnce⟩ := Option.bind_eq_some_iff.mp atOnce
  have seenNodes := run_nodes x registry validBefore blueprint
  rw [ranBefore,reached] at seenNodes
  cases seenNodes
  obtain ⟨next,stepped,atOnce⟩ := Option.bind_eq_some_iff.mp atOnce
  cases (run_idle validRest.tail idle next).symm.trans atOnce
  obtain ⟨edited,done_eq⟩ := applyNodePatch_revalidates validRest.head revalidates stepped
  -- one by one
  rw [List.map_append,run_append] at oneByOne
  obtain ⟨seenStored,storedBefore,oneByOne⟩ := Option.bind_eq_some_iff.mp oneByOne
  have fields : seenStored.nodes.map (·.plain) = seen.nodes.map (·.plain) := by
    have alike := run_plain registry reads validBefore blueprint
    rw [storedBefore,ranBefore] at alike
    exact Option.some.inj alike
  obtain ⟨nextStored,storedStep,oneByOne⟩ := Option.bind_eq_some_iff.mp oneByOne
  rw [updateStored_toUpdate validRest.head] at storedStep
  obtain ⟨editedStored,nextStored_eq⟩ := applyNodePatch_revalidates validRest.head revalidates storedStep
  rw [reread_nodes reads,fields] at editedStored
  obtain ⟨kept,ranAfter,complete,errors⟩ := run_idle_stored x registry validRest.tail idle nextStored
  cases ranAfter.symm.trans oneByOne
  -- the errors of the last validation
  have same : done.nodes.map (·.plain) = nextStored.nodes.map (·.plain) := by
    have plain := editNodes_plain reads validRest.head seen.nodes
    rw [edited,editedStored] at plain
    exact (Option.some.inj plain).symm
  rw [complete,errors,done_eq,nextStored_eq]
  dsimp only
  rw [verdict_isComplete,verdict_isComplete,← editNodes_unconnected_iff reads validRest.head revalidates edited editedStored,
    ← verdict_errors_iff registry reads same]
  exact and_iff_right_of_imp fun equal => congrArg List.isEmpty equal

/-- Valid patches have the same end at once and one by one exactly if the last validation passes over no node that waits. -/
theorem sameEnd_iff (reads : ReadsFirst x) {patches : List NodePatch} (valid : Valid patches)
    (blueprint : PartialBlueprint) :
    SameEnd (run (x.applyNodePatch registry) patches blueprint)
        (run (x.updateStored registry) (patches.map (·.toUpdate)) blueprint) ↔
      (run (NodePatch.editNodes x) patches blueprint.nodes ≠ none → ∀ before p after nodes,
        patches = before ++ p :: after → p.Revalidates → (∀ q ∈ after, ¬ q.Revalidates) →
          run (NodePatch.editNodes x) before blueprint.nodes = some nodes → ∀ node ∈ p.untouched nodes, ¬ node.Waits) := by
  have fields := run_plain registry reads valid blueprint
  have nodes := run_nodes x registry valid blueprint
  rw [← nodes]
  cases atOnce : run (x.applyNodePatch registry) patches blueprint with
  | none =>
    rw [atOnce] at fields
    rw [Option.map_eq_none_iff.mp fields]
    exact iff_of_true trivial fun done => absurd rfl done
  | some done =>
    rw [atOnce] at fields
    obtain ⟨stored,oneByOne,same⟩ := Option.map_eq_some_iff.mp fields
    rw [oneByOne]
    refine (and_iff_right same.symm).trans ⟨?_,?_⟩
    · rintro alike - before p after nodes rfl revalidates idle reached
      exact (last_alike_iff reads valid revalidates idle reached atOnce oneByOne).mp alike
    · intro settled
      rcases last_revalidation patches with idle | ⟨before,p,after,rfl,revalidates,idle⟩
      · cases (run_idle valid idle blueprint).symm.trans atOnce
        obtain ⟨kept,ran,complete,errors⟩ := run_idle_stored x registry valid idle blueprint
        cases ran.symm.trans oneByOne
        exact ⟨complete.symm,errors.symm⟩
      · obtain ⟨seen,ranBefore,_⟩ := Option.bind_eq_some_iff.mp ((run_append ..).symm.trans atOnce)
        have reached := run_nodes x registry valid.split.1 blueprint
        rw [ranBefore] at reached
        exact (last_alike_iff reads valid revalidates idle reached.symm atOnce oneByOne).mpr
          (settled (Option.some_ne_none _) before p after seen.nodes rfl revalidates idle reached.symm)

/-! ### Blueprints that are left alone -/

theorem quiet_cons {p : NodePatch} {nodes edited : List PartialNodeSpec} (made : p.editNodes x nodes = some edited)
    (patches : List NodePatch) : Quiet x registry nodes (p :: patches) ↔
      (p.Revalidates → (x.verdict registry edited).nextSuggestions = []) ∧ Quiet x registry edited patches := by
  rw [Quiet]
  refine ⟨fun quiet => quiet edited made,fun quiet other same => ?_⟩
  cases made.symm.trans same
  exact quiet

theorem run_verdict {patches : List NodePatch} (valid : Valid patches) (revalidated : ∃ p ∈ patches, p.Revalidates)
    {blueprint done : PartialBlueprint} (ran : run (x.applyNodePatch registry) patches blueprint = some done) :
    done.validationErrors = (x.verdict registry done.nodes).validationErrors ∧
      done.isComplete = (x.verdict registry done.nodes).isComplete := by
  induction patches generalizing blueprint with
  | nil =>
    obtain ⟨_,⟨⟩,_⟩ := revalidated
  | cons p rest ih =>
    obtain ⟨next,stepped,later⟩ := Option.bind_eq_some_iff.mp ran
    by_cases again : ∃ q ∈ rest, q.Revalidates
    · exact ih valid.tail again later
    · have idle (q : NodePatch) (member : q ∈ rest) : ¬ q.Revalidates := fun revalidates => again ⟨q,member,revalidates⟩
      cases (run_idle valid.tail idle next).symm.trans later
      have own : p.Revalidates := by
        obtain ⟨q,member,revalidates⟩ := revalidated
        rcases List.mem_cons.mp member with rfl | member
        · exact revalidates
        · exact absurd revalidates (idle q member)
      rw [(applyNodePatch_revalidates valid.head own stepped).2]
      exact ⟨rfl,rfl⟩

/-- Suggestions are only added. -/
theorem run_suggestions {patches : List NodePatch} (valid : Valid patches) {blueprint done : PartialBlueprint}
    (ran : run (x.applyNodePatch registry) patches blueprint = some done) :
    done.blueprintId = blueprint.blueprintId ∧ blueprint.nextSuggestions <+: done.nextSuggestions ∧
      (done.nextSuggestions = blueprint.nextSuggestions ↔ Quiet x registry blueprint.nodes patches) := by
  induction patches generalizing blueprint with
  | nil =>
    cases ran
    exact ⟨rfl,List.prefix_refl _,iff_of_true rfl trivial⟩
  | cons p rest ih =>
    obtain ⟨next,stepped,later⟩ := Option.bind_eq_some_iff.mp ran
    obtain ⟨sameId,longer,quiet⟩ := ih valid.tail later
    by_cases revalidates : p.Revalidates
    · obtain ⟨made,next_eq⟩ := applyNodePatch_revalidates valid.head revalidates stepped
      have suggestions : next.nextSuggestions =
          blueprint.nextSuggestions ++ (x.verdict registry next.nodes).nextSuggestions := congrArg (·.nextSuggestions) next_eq
      have grown : blueprint.nextSuggestions <+: next.nextSuggestions := suggestions ▸ List.prefix_append ..
      refine ⟨sameId.trans (congrArg (·.blueprintId) next_eq),grown.trans longer,?_⟩
      rw [quiet_cons made,← quiet]
      constructor
      · intro same
        have still : next.nextSuggestions = blueprint.nextSuggestions :=
          (grown.eq_of_length_le (same ▸ longer.length_le)).symm
        refine ⟨fun _ => ?_,same.trans still.symm⟩
        rwa [suggestions,List.append_right_eq_self] at still
      · rintro ⟨none,same⟩
        rw [same,suggestions,none revalidates,List.append_nil]
    · cases (applyNodePatch_idle valid.head revalidates blueprint).symm.trans stepped
      refine ⟨sameId,longer,?_⟩
      rw [quiet_cons (editNodes_idle revalidates _),quiet,and_iff_right fun validates => absurd validates revalidates]

theorem run_unchanged_iff {patches : List NodePatch} (valid : Valid patches) {blueprint done : PartialBlueprint}
    (ran : run (x.applyNodePatch registry) patches blueprint = some done) :
    done = blueprint ↔ (∀ p ∈ patches, ¬ p.Revalidates) ∨
      (done.nodes = blueprint.nodes ∧ Quiet x registry blueprint.nodes patches ∧
        blueprint.validationErrors = (x.verdict registry done.nodes).validationErrors ∧
        blueprint.isComplete = (x.verdict registry done.nodes).isComplete) := by
  by_cases idle : ∀ p ∈ patches, ¬ p.Revalidates
  · cases (run_idle valid idle blueprint).symm.trans ran
    exact iff_of_true rfl (.inl idle)
  · have revalidated : ∃ p ∈ patches, p.Revalidates := by
      by_contra none
      exact idle fun p member revalidates => none ⟨p,member,revalidates⟩
    obtain ⟨errors,complete⟩ := run_verdict valid revalidated ran
    obtain ⟨sameId,_,quiet⟩ := run_suggestions valid ran
    rw [or_iff_right idle,← quiet,← errors,← complete]
    constructor
    · rintro rfl
      exact ⟨rfl,rfl,rfl,rfl⟩
    · rintro ⟨sameNodes,sameSuggestions,sameErrors,sameFlag⟩
      cases done
      cases blueprint
      cases sameId
      cases sameNodes
      cases sameSuggestions
      cases sameErrors
      cases sameFlag
      rfl

theorem editNodes_eq_none_iff {p : NodePatch} (valid : p.ensureValid = .ok ()) (blueprint : PartialBlueprint) :
    p.editNodes x blueprint.nodes = none ↔ x.applyNodePatch registry blueprint p = none := by
  rw [← applyNodePatch_nodes registry valid,Option.map_eq_none_iff]

/-- A failing `apply_patch` leaves the blueprint alone exactly if the rounds before the failure have. -/
theorem kept_iff {patches : List NodePatch} (valid : Valid patches) (blueprint : PartialBlueprint) :
    ((x.applyPatch registry blueprint patches).2 ≠ none → (x.applyPatch registry blueprint patches).1 = blueprint) ↔
      ∀ before p after nodes, patches = before ++ p :: after →
        run (NodePatch.editNodes x) before blueprint.nodes = some nodes → p.editNodes x nodes = none →
          (∀ q ∈ before, ¬ q.Revalidates) ∨
          (nodes = blueprint.nodes ∧ Quiet x registry blueprint.nodes before ∧
            blueprint.validationErrors = (x.verdict registry nodes).validationErrors ∧
            blueprint.isComplete = (x.verdict registry nodes).isComplete) := by
  rw [applyPatch_of_valid valid]
  constructor
  · rintro kept before p after nodes rfl reached stuck
    have split := valid.split
    obtain ⟨seen,ran,rfl⟩ := Option.map_eq_some_iff.mp ((run_nodes x registry split.1 blueprint).trans reached)
    rw [validateAndApply_stops valid ran ((editNodes_eq_none_iff split.2.head seen).mp stuck)] at kept
    exact (run_unchanged_iff split.1 ran).mp (kept (Option.some_ne_none _))
  · intro left raised
    cases ran : run (x.applyNodePatch registry) patches blueprint with
    | some done =>
      rw [validateAndApply_done valid ran] at raised
      exact absurd rfl raised
    | none =>
      obtain ⟨before,p,after,seen,rfl,reached,stuck⟩ := run_stuck ran
      have split := valid.split
      rw [validateAndApply_stops valid reached stuck]
      have nodes := run_nodes x registry split.1 blueprint
      rw [reached] at nodes
      exact (run_unchanged_iff split.1 reached).mpr (left before p after seen.nodes rfl nodes.symm
        ((editNodes_eq_none_iff split.2.head seen).mpr stuck))

/-! ### The routes -/

theorem updateStored_blueprintId {stored next : PartialBlueprint} {update : PartialBlueprintUpdate}
    (updated : x.updateStored registry stored update = some next) : next.blueprintId = stored.blueprintId := by
  have validated (p : PartialBlueprint) : (x.validateIncremental registry p).blueprintId = p.blueprintId := by
    rw [validateIncremental_eq]
  unfold PartialRoutes.updateStored PartialRoutes.applyUpdate at updated
  split at updated
  · cases updated
    exact validated _
  · cases updated
    exact validated _
  · obtain ⟨nodes,_,rfl⟩ := Option.map_eq_some_iff.mp updated
    exact validated _
  · cases updated
    exact validated _
  · cases updated
    rfl

namespace PartialStore

variable {ι : Type} [DecidableEq ι] {requests : ι → PartialRequest}

/-- Requests bring these updates, each with the lock of the document that those before it leave. -/
def Presents (x : PartialRoutes) (registry : RegistryView) (requests : ι → PartialRequest) :
    PartialBlueprint → List (ι × PartialBlueprintUpdate) → Prop
  | _,[] => True
  | stored,(i,update) :: rest =>
    requests i = .update stored.blueprintId update (some (x.calculateLock stored)) ∧
      ∀ next, x.updateStored registry stored update = some next → Presents x registry requests next rest

/-- Requests that follow each other leave what their updates make of the document, one by one. -/
theorem run_updates {updates : List (ι × PartialBlueprintUpdate)} {s : PartialStore ι} {stored done : PartialBlueprint}
    (document : s.documents.get? stored.blueprintId = some stored)
    (lock : s.locks.get? stored.blueprintId = some (x.calculateLock stored))
    (waiting : ∀ i ∈ updates.map Prod.fst, s.progress i = .arrived) (distinct : (updates.map Prod.fst).Nodup)
    (presents : Presents x registry requests stored updates)
    (ran : run (x.updateStored registry) (updates.map Prod.snd) stored = some done) :
    ∃ t, run (step x requests) (updates.flatMap fun u => [.readJson u.1,.readLock u.1 registry,.write u.1]) s = some t ∧
      t.documents.get? stored.blueprintId = some done := by
  induction updates generalizing s stored with
  | nil =>
    cases ran
    exact ⟨s,rfl,document⟩
  | cons u rest ih =>
    obtain ⟨next,updated,later⟩ := Option.bind_eq_some_iff.mp ran
    obtain ⟨new,distinct⟩ := List.nodup_cons.mp distinct
    obtain ⟨t,first,documents,locks,progress⟩ :=
      run_update document lock (waiting u.1 (List.mem_cons_self ..)) presents.1 updated
    have same := updateStored_blueprintId updated
    have nextDocument : t.documents.get? next.blueprintId = some next := by rw [documents,OrderedDict.get?_set_same]
    have nextLock : t.locks.get? next.blueprintId = some (x.calculateLock next) := by
      rw [locks,OrderedDict.get?_set_same]
    have stillWaiting (i : ι) (member : i ∈ rest.map Prod.fst) : t.progress i = .arrived := by
      have other : i ≠ u.1 := by
        rintro rfl
        exact new member
      rw [progress,Function.update_of_ne other]
      exact waiting i (List.mem_cons_of_mem _ member)
    obtain ⟨final,ranRest,left⟩ := ih nextDocument nextLock stillWaiting distinct (presents.2 next updated) later
    refine ⟨final,?_,by rw [← same,left]⟩
    rw [List.flatMap_cons,run_append,first,Option.bind_some,ranRest]

end PartialStore

end

/-! ### All lists of patches -/

/-- The two ways agree, and a failing `apply_patch` leaves the blueprint alone, for the undisturbed lists and no others. -/
theorem patches_agree_iff (x : PartialRoutes) (reads : ReadsFirst x) (registry : RegistryView) (blueprint : PartialBlueprint)
    (patches : List NodePatch) : PatchesAgree x registry blueprint patches ↔ Undisturbed x registry blueprint patches := by
  constructor
  · rintro ⟨alike,kept⟩
    constructor
    · intro valid
      have same := alike valid
      rw [applyPatch_result valid] at same
      exact (sameEnd_iff reads valid blueprint).mp same
    · intro valid
      exact (kept_iff valid blueprint).mp kept
  · rintro ⟨settled,unchanged⟩
    constructor
    · intro valid
      rw [applyPatch_result valid]
      exact (sameEnd_iff reads valid blueprint).mpr (settled valid)
    · by_cases valid : Valid patches
      · exact (kept_iff valid blueprint).mpr (unchanged valid)
      · exact fun _ => applyPatch_of_invalid valid blueprint

/-- Every stored node is read back as a `NodeSpec`, and a number is no type of a node. -/
def unionRoutes : PartialRoutes where
  calculateLock := PartialStore.idRoutes.calculateLock
  lock_nonempty := PartialStore.idRoutes.lock_nonempty
  readsPartial _ := false
  replaceFields node updates := if updates = "\x7b\"type\": 1\x7d" then none else some { node with isPartial := true }
  lower := id
  toolName _ := none
  package _ := none
  workflowRef _ := none
  contentId bp := bp.blueprintId
  overBudget _ := false

theorem unionRoutes_reads : ReadsFirst unionRoutes := ⟨fun _ => rfl,fun _ _ => rfl,fun _ => rfl,fun _ => rfl,fun _ => rfl⟩

def draft : PartialBlueprint := { blueprintId := "partial_bp_1" }

def addWaiting : NodePatch :=
  { action := "add_node",node := some { id := "ask",type := "llm",pendingInputs := some ["query"] } }

def addReady : NodePatch := { action := "add_node",node := some { id := "mail",type := "llm" } }

def updateToNoNode : NodePatch :=
  { action := "update_node",nodeId := some "mail",updates := some "\x7b\"type\": 1\x7d" }

theorem waiting_then_ready_agree_iff :
    PatchesAgree unionRoutes PartialStore.anything draft [addReady,addWaiting] ↔
      Undisturbed unionRoutes PartialStore.anything draft [addReady,addWaiting] :=
  patches_agree_iff unionRoutes unionRoutes_reads PartialStore.anything draft [addReady,addWaiting]

/-- Adding a node that waits and then another one is an error at once and complete one by one; and where an update makes no
node, the node that was added before it stays. -/
theorem reload_hides_pending :
    ¬ PatchesAgree unionRoutes PartialStore.anything draft [addWaiting,addReady] ∧
    ¬ PatchesAgree unionRoutes PartialStore.anything draft [addReady,updateToNoNode] := by
  constructor
  · rintro ⟨alike,-⟩
    have same := alike ((forM_ensureValid_iff _).mp rfl)
    have ends : (run (unionRoutes.updateStored PartialStore.anything) ([addWaiting,addReady].map (·.toUpdate)) draft).map
        (·.isComplete) = some true := by decide +kernel
    have atOnce : (unionRoutes.applyPatch PartialStore.anything draft [addWaiting,addReady]).2 = none ∧
        (unionRoutes.applyPatch PartialStore.anything draft [addWaiting,addReady]).1.isComplete = false := by
      decide +kernel
    obtain ⟨stored,ran,complete⟩ := Option.map_eq_some_iff.mp ends
    rw [ran,if_pos atOnce.1] at same
    have flags := same.2.1
    rw [atOnce.2,complete] at flags
    cases flags
  · rintro ⟨-,kept⟩
    have outcome : (unionRoutes.applyPatch PartialStore.anything draft [addReady,updateToNoNode]).2 ≠ none ∧
        (unionRoutes.applyPatch PartialStore.anything draft [addReady,updateToNoNode]).1 ≠ draft := by decide +kernel
    exact outcome.2 (kept outcome.1)

end IceOS.Incremental
