import IceOS.PartialBlueprints

/-! Sequences of edits of a partial blueprint: what its flag and its errors say of the nodes that it has. -/
namespace IceOS.Incremental

open ActionRuns PartialRoutes

/-- With the JSON of the metadata, which no edit touches. -/
structure Draft extends PartialBlueprint where
  metadata : String := ""
  deriving DecidableEq, Repr

inductive NodeEdit where
  | add (node : PartialNodeSpec)
  | remove (nodeId : String)
  | update (nodeId updates : String)
  deriving DecidableEq, Repr

def NodeEdit.toUpdate : NodeEdit → PartialBlueprintUpdate
  | .add node => { action := .addNode,node := some node }
  | .remove nodeId => { action := .removeNode,nodeId := some nodeId }
  | .update nodeId updates => { action := .updateNode,nodeId := some nodeId,updates := some updates }

namespace Draft

/-- The stored document is read, edited and written; an edit that raises leaves it as it was. What is registered may
change from edit to edit. -/
def step (x : PartialRoutes) (d : Draft) (edit : RegistryView × NodeEdit) : Option Draft :=
  match x.applyUpdate edit.1 (x.reread d.toPartialBlueprint) edit.2.toUpdate with
  | none => some d
  | some p => some { d with toPartialBlueprint := p }

def toBlueprint (d : Draft) : Option Blueprint :=
  (⟨d.blueprintId,d.nodes.map (·.toNodeSpec),d.isComplete,d.metadata⟩ : IceOS.PartialBlueprint).toBlueprint

/-- If the blueprint is complete it is converted to its nodes, under distinct ids, and its metadata. -/
def Converts (d : Draft) : Prop := d.isComplete = true → ∃ bp, d.toBlueprint = some bp ∧
  bp.nodes = d.nodes.map (·.toNodeSpec) ∧ (bp.nodes.map (·.id)).Nodup ∧ bp.metadata = d.metadata

end Draft

/-- What validation finds in a list of nodes. -/
def PartialRoutes.issues (x : PartialRoutes) (registry : RegistryView) (nodes : List PartialNodeSpec) : List String :=
  if nodes.isEmpty then ["No nodes added yet"]
  else missingDependencies nodes ++ unconnectedInputs nodes ++ (nodes.filterMap (x.unresolved registry)).map Prod.fst

/-- The errors are about the nodes at hand, and a complete blueprint has nodes without any. -/
def Draft.Describes (x : PartialRoutes) (d : Draft) : Prop :=
  ∃ registry, (∀ error ∈ d.validationErrors, error ∈ x.issues registry d.nodes) ∧
    (d.isComplete = true → x.issues registry d.nodes = [])

/-- The edit gives no node the id of another one. -/
def Draft.Fresh (x : PartialRoutes) (d : Draft) (edit : RegistryView × NodeEdit) : Prop :=
  match edit.2 with
  | .add node => node.id ∉ d.nodes.map (·.id)
  | .remove _ => True
  | .update nodeId updates => ∀ node ∈ d.nodes, node.id = nodeId →
      ∀ changed ∈ x.replaceFields { node with isPartial := x.readsPartial node } updates,
        changed.id = nodeId ∨ changed.id ∉ d.nodes.map (·.id)

instance decidableFresh (x : PartialRoutes) (d : Draft) : ∀ edit, Decidable (d.Fresh x edit)
  | (_,.add node) => inferInstanceAs (Decidable (node.id ∉ d.nodes.map (·.id)))
  | (_,.remove _) => isTrue trivial
  | (_,.update nodeId updates) => inferInstanceAs (Decidable (∀ node ∈ d.nodes, node.id = nodeId →
      ∀ changed ∈ x.replaceFields { node with isPartial := x.readsPartial node } updates,
        changed.id = nodeId ∨ changed.id ∉ d.nodes.map (·.id)))

/-! ### Validation -/

/-- Validation changes no node, and what it records is what it finds. -/
structure Validated (x : PartialRoutes) (registry : RegistryView) (before after : PartialBlueprint) : Prop where
  nodes : after.nodes = before.nodes
  errors : after.validationErrors = x.issues registry before.nodes
  complete : after.isComplete = true ↔ x.issues registry before.nodes = []

theorem validateIncremental_spec (x : PartialRoutes) (registry : RegistryView) (p : PartialBlueprint) :
    Validated x registry p (x.validateIncremental registry p) := by
  simp only [PartialRoutes.validateIncremental]
  by_cases empty : p.nodes.isEmpty = true
  · rw [if_pos empty]
    have issues : x.issues registry p.nodes = ["No nodes added yet"] := if_pos empty
    exact ⟨rfl,issues.symm,by rw [issues]; exact iff_of_false Bool.false_ne_true (List.cons_ne_nil _ _)⟩
  · rw [if_neg empty]
    have issues : x.issues registry p.nodes = missingDependencies p.nodes ++ unconnectedInputs p.nodes ++
        (p.nodes.filterMap (x.unresolved registry)).map Prod.fst := if_neg empty
    split
    · next clear =>
      rw [← issues,List.isEmpty_iff] at clear
      exact ⟨rfl,clear.symm,iff_of_true rfl clear⟩
    · next flawed =>
      rw [← issues,List.isEmpty_iff] at flawed
      exact ⟨rfl,issues.symm,iff_of_false Bool.false_ne_true flawed⟩

/-- Without missing dependencies the blueprint model accepts the nodes. -/
theorem validates_of_issues {x : PartialRoutes} {registry : RegistryView} {nodes : List PartialNodeSpec}
    (clear : x.issues registry nodes = []) {bp : Blueprint} (same : bp.nodes = nodes.map (·.toNodeSpec)) :
    bp.validates = true := by
  have missing : missingDependencies nodes = [] := by
    simp only [PartialRoutes.issues] at clear
    split at clear
    · cases clear
    · exact (List.append_eq_nil_iff.mp (List.append_eq_nil_iff.mp clear).1).1
  simp only [Blueprint.validates,same,List.all_eq_true]
  intro spec member dep needed
  obtain ⟨node,inside,rfl⟩ := List.mem_map.mp member
  have none := List.flatMap_eq_nil_iff.mp missing node inside
  rw [List.map_eq_nil_iff,List.filter_eq_nil_iff] at none
  have present := none dep needed
  simp only [decide_not,Bool.not_eq_true',decide_eq_false_iff_not,not_not] at present
  rw [List.contains_iff_mem,List.map_map]
  exact present

/-- A complete and described blueprint converts if its ids are distinct. -/
theorem Draft.Describes.converts {x : PartialRoutes} {d : Draft} (describes : d.Describes x)
    (nodup : (d.nodes.map (·.id)).Nodup) : d.Converts := by
  intro complete
  obtain ⟨registry,-,clear⟩ := describes
  have accepted : ({ blueprintId := d.blueprintId.replace "partial_" "",schemaVersion := "1.1.0"
                     nodes := d.nodes.map (·.toNodeSpec),metadata := d.metadata } : Blueprint).validates = true :=
    validates_of_issues (clear complete) rfl
  refine ⟨_,if_pos (by rw [complete,accepted]; rfl),rfl,?_,rfl⟩
  rw [List.map_map]
  exact nodup

/-! ### Edits -/

/-- The nodes that an edit makes of a list, unless it raises. -/
def NodeEdit.nodes (x : PartialRoutes) (nodes : List PartialNodeSpec) : NodeEdit → Option (List PartialNodeSpec)
  | .add node => some (nodes ++ [node])
  | .remove nodeId => some (nodes.filter (·.id ≠ nodeId))
  | .update nodeId updates => x.updateNode nodeId updates nodes

theorem applyUpdate_edit (x : PartialRoutes) (registry : RegistryView) (p : PartialBlueprint) (edit : NodeEdit) :
    x.applyUpdate registry p edit.toUpdate =
      (edit.nodes x p.nodes).map fun nodes => x.validateIncremental registry { p with nodes } := by
  cases edit <;> rfl

theorem reread_ids (x : PartialRoutes) (p : PartialBlueprint) : (x.reread p).nodes.map (·.id) = p.nodes.map (·.id) := by
  simp only [PartialRoutes.reread,List.map_map]
  rfl

/-- An update replaces the first node with the id, or it finds none. -/
theorem updateNode_cases {x : PartialRoutes} {nodeId updates : String} {nodes after : List PartialNodeSpec}
    (updated : x.updateNode nodeId updates nodes = some after) : after = nodes ∨
      ∃ front node rest changed, nodes = front ++ node :: rest ∧ node.id = nodeId ∧
        x.replaceFields node updates = some changed ∧ after = front ++ changed :: rest := by
  induction nodes generalizing after with
  | nil =>
    cases updated
    exact .inl rfl
  | cons node rest ih =>
    simp only [PartialRoutes.updateNode] at updated
    split at updated
    · next named =>
      obtain ⟨changed,replaced,rfl⟩ := Option.map_eq_some_iff.mp updated
      exact .inr ⟨[],node,rest,changed,rfl,named,replaced,rfl⟩
    · obtain ⟨later,found,rfl⟩ := Option.map_eq_some_iff.mp updated
      rcases ih found with rfl | ⟨front,other,behind,changed,rfl,named,replaced,rfl⟩
      · exact .inl rfl
      · exact .inr ⟨node :: front,other,behind,changed,rfl,named,replaced,rfl⟩

/-- A fresh edit keeps the ids distinct. -/
theorem Draft.Fresh.nodup {x : PartialRoutes} {d : Draft} {edit : RegistryView × NodeEdit} (fresh : d.Fresh x edit)
    (nodup : (d.nodes.map (·.id)).Nodup) {after : List PartialNodeSpec}
    (edited : edit.2.nodes x (x.reread d.toPartialBlueprint).nodes = some after) : (after.map (·.id)).Nodup := by
  have ids := reread_ids x d.toPartialBlueprint
  rw [← ids] at nodup
  simp only [Draft.Fresh] at fresh
  cases shape : edit.2 with
  | add node =>
    rw [shape] at edited fresh
    cases edited
    rw [List.map_append]
    refine List.nodup_append.mpr ⟨nodup,List.nodup_singleton _,?_⟩
    intro id inside other own same
    rw [same,List.mem_singleton.mp own,ids] at inside
    exact fresh inside
  | remove nodeId =>
    rw [shape] at edited
    cases edited
    exact (List.filter_sublist.map _).nodup nodup
  | update nodeId updates =>
    rw [shape] at edited fresh
    rcases updateNode_cases edited with rfl | ⟨front,node,rest,changed,parts,named,replaced,rfl⟩
    · exact nodup
    · have member : node ∈ (x.reread d.toPartialBlueprint).nodes := by
        rw [parts]
        exact List.mem_append_right front List.mem_cons_self
      obtain ⟨stored,inside,rfl⟩ := List.mem_map.mp member
      have own := fresh stored inside named changed replaced
      rw [← ids,parts,List.map_append,List.map_cons] at own
      rw [parts,List.map_append,List.map_cons] at nodup
      rw [List.map_append,List.map_cons]
      rcases own with same | new
      · rw [same,← named]
        exact nodup
      · obtain ⟨left,right,apart⟩ := List.nodup_append.mp nodup
        have behind := (List.nodup_cons.mp right).2
        rw [List.mem_append,List.mem_cons,not_or,not_or] at new
        refine List.nodup_append.mpr ⟨left,List.nodup_cons.mpr ⟨new.2.2,behind⟩,?_⟩
        intro id before other later same
        rcases List.mem_cons.mp later with rfl | after
        · exact new.1 (same ▸ before)
        · exact apart id before other (List.mem_cons_of_mem _ after) same

/-! ### Runs -/

/-- An edit leaves the document as it was, or validated with the nodes that it makes. -/
theorem step_cases {x : PartialRoutes} {d t : Draft} {edit : RegistryView × NodeEdit} (stepped : d.step x edit = some t) :
    t = d ∨ ∃ after, edit.2.nodes x (x.reread d.toPartialBlueprint).nodes = some after ∧ t.nodes = after ∧
      t.Describes x := by
  simp only [Draft.step,applyUpdate_edit] at stepped
  cases edited : edit.2.nodes x (x.reread d.toPartialBlueprint).nodes with
  | none =>
    rw [edited] at stepped
    cases stepped
    exact .inl rfl
  | some after =>
    rw [edited] at stepped
    cases stepped
    have validated := validateIncremental_spec x edit.1 { x.reread d.toPartialBlueprint with nodes := after }
    refine .inr ⟨after,rfl,validated.nodes,edit.1,?_,?_⟩
    · dsimp only
      rw [validated.nodes,validated.errors]
      exact fun error member => member
    · dsimp only
      rw [validated.nodes]
      exact validated.complete.mp

theorem Draft.Describes.step {x : PartialRoutes} {d t : Draft} {edit : RegistryView × NodeEdit}
    (describes : d.Describes x) (stepped : d.step x edit = some t) : t.Describes x := by
  rcases step_cases stepped with rfl | ⟨-,-,-,later⟩
  · exact describes
  · exact later

/-- A new partial blueprint. -/
def Draft.new (blueprintId metadata : String) : Draft := { blueprintId,metadata }

theorem new_describes (x : PartialRoutes) (blueprintId metadata : String) : (Draft.new blueprintId metadata).Describes x :=
  ⟨⟨fun _ => true,fun _ => true,fun _ => true⟩,List.forall_mem_nil _,fun complete => Bool.noConfusion complete⟩

/-- If every edit gives only ids that no other node has, then in every state that the edits reach a complete blueprint
converts to its nodes; and in any case the errors are about the nodes at hand. -/
theorem edits_convert (x : PartialRoutes) (blueprintId metadata : String) (edits : List (RegistryView × NodeEdit))
    (fresh : Throughout (Draft.step x) (Draft.Fresh x) edits (Draft.new blueprintId metadata))
    (earlier later : List (RegistryView × NodeEdit)) (parts : edits = earlier ++ later) (t : Draft)
    (reached : run (Draft.step x) earlier (Draft.new blueprintId metadata) = some t) : t.Converts ∧ t.Describes x := by
  subst parts
  have start : (Draft.new blueprintId metadata).Describes x ∧ ((Draft.new blueprintId metadata).nodes.map (·.id)).Nodup :=
    ⟨new_describes x blueprintId metadata,List.nodup_nil⟩
  have preserved (d : Draft) (edit : RegistryView × NodeEdit) (u : Draft)
      (both : d.Describes x ∧ (d.nodes.map (·.id)).Nodup) (careful : d.Fresh x edit) (stepped : d.step x edit = some u) :
      u.Describes x ∧ (u.nodes.map (·.id)).Nodup := by
    refine ⟨both.1.step stepped,?_⟩
    rcases step_cases stepped with rfl | ⟨after,edited,same,-⟩
    · exact both.2
    · rw [same]
      exact careful.nodup both.2 edited
  obtain ⟨describes,nodup⟩ := run_invariant preserved reached start (throughout_append reached fresh).1
  exact ⟨describes.converts nodup,describes⟩

/-! ### Two nodes of one id -/

/-- A content hash that does not matter, and updates that change nothing. -/
def plainRoutes : PartialRoutes where
  calculateLock p := "lock " ++ p.blueprintId
  lock_nonempty p same := by simp at same
  readsPartial := (·.isPartial)
  replaceFields node _ := some node
  lower := id
  toolName _ := none
  package _ := none
  workflowRef _ := none
  contentId bp := bp.blueprintId
  overBudget _ := false

def nothing : RegistryView := ⟨fun _ => false,fun _ => false,fun _ => false⟩

def askNode (prompt : String) : PartialNodeSpec := { id := "ask",type := "llm",prompt := some prompt }

/-- A node that is removed and added again. -/
def askAgain : List (RegistryView × NodeEdit) :=
  [(nothing,.add (askNode "why")),(nothing,.remove "ask"),(nothing,.add (askNode "how"))]

theorem edits_convert_ask : Throughout (Draft.step plainRoutes) (Draft.Fresh plainRoutes) askAgain (Draft.new "partial_bp_1" "") ∧
    askAgain = askAgain ++ [] ∧ ∃ t, run (Draft.step plainRoutes) askAgain (Draft.new "partial_bp_1" "") = some t ∧
      t.Converts ∧ t.Describes plainRoutes :=
  ⟨by decide,rfl,_,rfl,edits_convert plainRoutes "partial_bp_1" "" askAgain (by decide) askAgain [] rfl _ rfl⟩

/-- The same node twice counts as complete. -/
theorem twins_complete : ¬∀ (edits : List (RegistryView × NodeEdit)) (t : Draft),
    run (Draft.step plainRoutes) edits (Draft.new "partial_bp_1" "") = some t → t.Converts ∧ t.Describes plainRoutes := by
  intro converts
  obtain ⟨bp,converted,same,nodup,-⟩ := (converts [(nothing,.add (askNode "why")),(nothing,.add (askNode "how"))] _ rfl).1 rfl
  rw [same] at nodup
  revert nodup
  decide

end IceOS.Incremental
