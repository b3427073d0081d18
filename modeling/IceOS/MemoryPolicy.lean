import IceOS.McpToolCalls
import IceOS.WorkflowService
import Mathlib.Data.List.Flatten

/-! The memory-aware policy on node specs with all their fields, and the node classes that then convert them.
The classes forbid the field by which a node opts in, and the policy leaves it there. -/
namespace IceOS

open McpToolCalls (Entries baseFields ownFields)

/-- A node spec; `extras` has the fields beside the three that are declared. -/
structure OpenSpec where
  id : String
  type : String
  dependencies : List String
  extras : Entries

namespace MemoryPolicy

def recentId (llmId : String) : String := "recent_" ++ llmId

def writeId (llmId : String) : String := "write_" ++ llmId

def recentNode (llmId : String) : OpenSpec where
  id := recentId llmId
  type := "tool"
  dependencies := []
  extras := .ofList [("tool_name",.str "recent_session_tool"),
    ("tool_args",.dict [("session_id",.str (placeholder "inputs.session_id")),("scope",.str "library"),
      ("org_id",.str (placeholder "inputs.org_id")),("limit",.int 5)])]

def writeNode (llmId : String) : OpenSpec where
  id := writeId llmId
  type := "tool"
  dependencies := [llmId]
  extras := .ofList [("tool_name",.str "memory_write_tool"),
    ("tool_args",.dict [("key",.str ("chat:" ++ placeholder "inputs.session_id" ++ ":" ++ llmId)),
      ("content",.str (placeholder (llmId ++ ".response"))),("scope",.str "library"),
      ("org_id",.str (placeholder "inputs.org_id")),("user_id",.str (placeholder "inputs.user_id"))])]

def memoryAware (ns : OpenSpec) : Bool := ((ns.extras.get? "memory_aware").getD .none).truthy

/-- Only LLM nodes can opt in. -/
def OptsIn (ns : OpenSpec) : Prop := ns.type = "llm" ∧ memoryAware ns = true

instance (ns : OpenSpec) : Decidable (OptsIn ns) := inferInstanceAs (Decidable (_ ∧ _))

/-- `str(value)`, where `shown` prints what is no text. -/
def textOf (shown : Value → String) : Value → String
  | .str text => text
  | value => shown value

def promptPrefix (llmId : String) : String :=
  "You are memory-aware. Use recent chat turns when helpful.\n" ++
    "Recent session items: " ++ placeholder (recentId llmId ++ "['items']") ++ "\n"

/-- The node itself, which is changed in place. -/
def amended (shown : Value → String) (ns : OpenSpec) : OpenSpec :=
  if OptsIn ns then
    { ns with
      dependencies :=
        if recentId ns.id ∈ ns.dependencies then ns.dependencies else ns.dependencies ++ [recentId ns.id]
      extras := ns.extras.set "prompt"
        (.str (promptPrefix ns.id ++ textOf shown ((ns.extras.get? "prompt").getD (.str "")))) }
  else ns

def helpers (ns : OpenSpec) : List OpenSpec := if OptsIn ns then [recentNode ns.id,writeNode ns.id] else []

def applyMemoryAwarePolicy (shown : Value → String) (nodeSpecs : List OpenSpec) : List OpenSpec :=
  nodeSpecs.flatMap fun ns => amended shown ns :: helpers ns

/-- The node classes: what one of them says of a spec without foreign fields, what it says to foreign fields, and how
the schemas of a tool node are looked up. -/
structure NodeClasses where
  validateFields : NodeType → OpenSpec → Except String NodeConfig
  extraForbidden : NodeType → OpenSpec → String
  populateToolNodeSchemas : NodeConfig → Except Exn NodeConfig

namespace NodeClasses

variable (x : NodeClasses)

def modelValidate (type : NodeType) (spec : OpenSpec) : Except String NodeConfig :=
  if ∀ key ∈ spec.extras.keys, key ∈ baseFields ++ ownFields type then x.validateFields type spec
  else .error (x.extraForbidden type spec)

def convertNodeSpec (spec : OpenSpec) : Except Exn NodeConfig :=
  if spec.type = "" then .error (validationError "NodeSpec.type is required for conversion")
  else
    match nodeTypeMap.lookup spec.type with
    | none => .error (unknownNodeTypeError spec.type)
    | some type => (x.modelValidate type spec).mapError validationError

def convertNodeSpecs (specs : List OpenSpec) : Except Exn (List NodeConfig) := do
  let nodes ← specs.mapM x.convertNodeSpec
  nodes.mapM fun node => if node.type = .tool then x.populateToolNodeSchemas node else .ok node

end NodeClasses

/-- The spec without the field by which an LLM node opts in. -/
def withoutFlag (ns : OpenSpec) : OpenSpec :=
  if ns.type = "llm" then { ns with extras := ns.extras.erase "memory_aware" } else ns

def ids (specs : List OpenSpec) : List String := specs.map OpenSpec.id

def DependsOn (specs : List OpenSpec) (id dep : String) : Prop :=
  ∃ ns ∈ specs, ns.id = id ∧ dep ∈ ns.dependencies

def Resolvable (specs : List OpenSpec) : Prop := ∀ id dep, DependsOn specs id dep → dep ∈ ids specs

def Acyclic (specs : List OpenSpec) : Prop := ∀ id, ¬Relation.TransGen (DependsOn specs) id id

/-- The nodes are still there, each in front of what it depended on, and the only others are the two helpers of each
node that opted in. -/
structure Extended (specs out : List OpenSpec) : Prop where
  distinct : (ids out).Nodup
  resolvable : Resolvable out
  acyclic : Acyclic out
  originals : ∀ ns ∈ specs, ∃ node ∈ out, node.id = ns.id ∧ node.type = ns.type ∧ ns.dependencies <+: node.dependencies
  added : ∀ ns ∈ specs, OptsIn ns → recentNode ns.id ∈ out ∧ writeNode ns.id ∈ out
  nothingElse : ∀ node ∈ out, node.id ∈ ids specs ∨
    ∃ ns ∈ specs, OptsIn ns ∧ (node = recentNode ns.id ∨ node = writeNode ns.id)

/-! ### The helper ids -/

theorem recentId_injective : Function.Injective recentId := fun a b same => by
  simpa [recentId,String.ext_iff] using same

theorem writeId_injective : Function.Injective writeId := fun a b same => by
  simpa [writeId,String.ext_iff] using same

theorem recentId_ne_writeId (a b : String) : recentId a ≠ writeId b := by
  simp [recentId,writeId,String.ext_iff]

/-- No node has the id of a helper. -/
def HelpersFree (specs : List OpenSpec) : Prop :=
  ∀ ns ∈ specs, OptsIn ns → recentId ns.id ∉ ids specs ∧ writeId ns.id ∉ ids specs

section

variable {shown : Value → String} {specs : List OpenSpec}

theorem amended_id (shown : Value → String) (ns : OpenSpec) : (amended shown ns).id = ns.id := by
  simp only [amended]
  split <;> rfl

theorem amended_type (shown : Value → String) (ns : OpenSpec) : (amended shown ns).type = ns.type := by
  simp only [amended]
  split <;> rfl

theorem amended_keeps (shown : Value → String) (ns : OpenSpec) :
    ns.dependencies <+: (amended shown ns).dependencies := by
  simp only [amended]
  split
  · dsimp only
    split
    · exact List.prefix_rfl
    · exact List.prefix_append _ _
  · exact List.prefix_rfl

theorem amended_dependencies {shown : Value → String} {ns : OpenSpec} {dep : String}
    (member : dep ∈ (amended shown ns).dependencies) : dep ∈ ns.dependencies ∨ OptsIn ns ∧ dep = recentId ns.id := by
  simp only [amended] at member
  split at member
  · next opts =>
    dsimp only at member
    split at member
    · exact .inl member
    · simpa [opts] using member
  · exact .inl member

theorem mem_policy {node : OpenSpec} : node ∈ applyMemoryAwarePolicy shown specs ↔
    ∃ ns ∈ specs, node = amended shown ns ∨ OptsIn ns ∧ (node = recentNode ns.id ∨ node = writeNode ns.id) := by
  simp only [applyMemoryAwarePolicy,List.mem_flatMap,List.mem_cons,helpers]
  refine exists_congr fun ns => and_congr_right fun _ => or_congr_right ?_
  split
  · next opts => simp [opts]
  · next apart => simp [apart]

def helperIds (ns : OpenSpec) : List String := (helpers ns).map OpenSpec.id

theorem mem_helperIds {ns : OpenSpec} {id : String} :
    id ∈ helperIds ns ↔ OptsIn ns ∧ (id = recentId ns.id ∨ id = writeId ns.id) := by
  simp only [helperIds,helpers]
  split
  · next opts => simp [opts,recentNode,writeNode]
  · next apart => simp [apart]

/-- Up to order, the helpers are put behind all nodes. -/
theorem ids_policy (shown : Value → String) (specs : List OpenSpec) :
    (ids (applyMemoryAwarePolicy shown specs)).Perm (ids specs ++ specs.flatMap helperIds) := by
  have each : ids (applyMemoryAwarePolicy shown specs) = specs.flatMap fun ns => ns.id :: helperIds ns := by
    simp only [ids,applyMemoryAwarePolicy,List.map_flatMap,List.map_cons,amended_id,helperIds]
  rw [each]
  exact (List.map_append_flatMap_perm specs OpenSpec.id helperIds).symm

theorem helperIds_nodup (ns : OpenSpec) : (helperIds ns).Nodup := by
  simp only [helperIds,helpers]
  split
  · simpa [recentNode,writeNode] using recentId_ne_writeId ns.id ns.id
  · exact List.nodup_nil

theorem allHelperIds_nodup (distinct : (ids specs).Nodup) : (specs.flatMap helperIds).Nodup := by
  refine List.nodup_flatMap.mpr ⟨fun ns _ => helperIds_nodup ns,(List.pairwise_map.mp distinct).imp ?_⟩
  intro a b other id inA inB
  obtain ⟨_,ofA⟩ := mem_helperIds.mp inA
  obtain ⟨_,ofB⟩ := mem_helperIds.mp inB
  rcases ofA with rfl | rfl <;> rcases ofB with same | same
  · exact other (recentId_injective same)
  · exact recentId_ne_writeId _ _ same
  · exact recentId_ne_writeId _ _ same.symm
  · exact other (writeId_injective same)

/-- The ids stay distinct exactly if no node has the id of a helper. -/
theorem policy_distinct_iff (distinct : (ids specs).Nodup) :
    (ids (applyMemoryAwarePolicy shown specs)).Nodup ↔ HelpersFree specs := by
  rw [(ids_policy shown specs).nodup_iff,List.nodup_append']
  simp only [distinct,allHelperIds_nodup distinct,true_and,List.disjoint_right,List.mem_flatMap,mem_helperIds]
  constructor
  · intro apart ns member opts
    exact ⟨apart ⟨ns,member,opts,.inl rfl⟩,apart ⟨ns,member,opts,.inr rfl⟩⟩
  · rintro free _ ⟨ns,member,opts,rfl | rfl⟩
    · exact (free ns member opts).1
    · exact (free ns member opts).2

/-! ### Dependencies -/

/-- Beside what was there, a node that opted in depends on its reading helper, and its writing helper on it. -/
theorem dependsOn_cases {id dep : String} (edge : DependsOn (applyMemoryAwarePolicy shown specs) id dep) :
    DependsOn specs id dep ∨ ∃ ns ∈ specs, OptsIn ns ∧
      (id = ns.id ∧ dep = recentId ns.id ∨ id = writeId ns.id ∧ dep = ns.id) := by
  obtain ⟨node,inside,rfl,on⟩ := edge
  obtain ⟨ns,member,rfl | ⟨opts,rfl | rfl⟩⟩ := mem_policy.mp inside
  · rcases amended_dependencies on with before | ⟨opts,rfl⟩
    · exact .inl ⟨ns,member,(amended_id shown ns).symm,before⟩
    · exact .inr ⟨ns,member,opts,.inl ⟨amended_id shown ns,rfl⟩⟩
  · cases on
  · exact .inr ⟨ns,member,opts,.inr ⟨rfl,List.mem_singleton.mp on⟩⟩

theorem DependsOn.known {id dep : String} (edge : DependsOn specs id dep) : id ∈ ids specs := by
  obtain ⟨ns,member,rfl,_⟩ := edge
  exact List.mem_map_of_mem member

theorem ids_subset : ids specs ⊆ ids (applyMemoryAwarePolicy shown specs) := fun _ member =>
  (ids_policy shown specs).mem_iff.mpr (List.mem_append_left _ member)

theorem policy_resolvable (resolvable : Resolvable specs) : Resolvable (applyMemoryAwarePolicy shown specs) := by
  intro id dep edge
  rcases dependsOn_cases edge with before | ⟨ns,member,opts,⟨_,rfl⟩ | ⟨_,rfl⟩⟩
  · exact ids_subset (resolvable id dep before)
  · exact List.mem_map.mpr ⟨recentNode ns.id,mem_policy.mpr ⟨ns,member,.inr ⟨opts,.inl rfl⟩⟩,rfl⟩
  · exact ids_subset (List.mem_map_of_mem member)

/-- A reading helper depends on nothing and nothing depends on a writing helper, so that no cycle goes through them. -/
theorem policy_acyclic (resolvable : Resolvable specs) (acyclic : Acyclic specs) (free : HelpersFree specs) :
    Acyclic (applyMemoryAwarePolicy shown specs) := by
  intro a cycle
  refine acyclic a (DirectedGraph.cycle_inner ?_ cycle)
  intro w x y z into edge next
  rcases dependsOn_cases edge with before | ⟨ns,member,opts,⟨rfl,rfl⟩ | ⟨rfl,rfl⟩⟩
  · exact before
  · exfalso
    obtain ⟨fresh,_⟩ := free ns member opts
    rcases dependsOn_cases next with old | ⟨other,known,_,⟨same,_⟩ | ⟨same,_⟩⟩
    · exact fresh old.known
    · exact fresh (same ▸ List.mem_map_of_mem known)
    · exact recentId_ne_writeId _ _ same
  · exfalso
    obtain ⟨_,fresh⟩ := free ns member opts
    rcases dependsOn_cases into with old | ⟨other,known,_,⟨_,same⟩ | ⟨_,same⟩⟩
    · exact fresh (resolvable w _ old)
    · exact recentId_ne_writeId _ _ same.symm
    · exact fresh (same ▸ List.mem_map_of_mem known)

theorem policy_extended (distinct : (ids specs).Nodup) (resolvable : Resolvable specs) (acyclic : Acyclic specs) :
    Extended specs (applyMemoryAwarePolicy shown specs) ↔ HelpersFree specs := by
  constructor
  · exact fun extended => (policy_distinct_iff distinct).mp extended.distinct
  · intro free
    refine ⟨(policy_distinct_iff distinct).mpr free,policy_resolvable resolvable,
      policy_acyclic resolvable acyclic free,fun ns member => ?_,fun ns member opts => ?_,fun node inside => ?_⟩
    · exact ⟨_,mem_policy.mpr ⟨ns,member,.inl rfl⟩,amended_id shown ns,amended_type shown ns,amended_keeps shown ns⟩
    · exact ⟨mem_policy.mpr ⟨ns,member,.inr ⟨opts,.inl rfl⟩⟩,mem_policy.mpr ⟨ns,member,.inr ⟨opts,.inr rfl⟩⟩⟩
    · obtain ⟨ns,member,rfl | helper⟩ := mem_policy.mp inside
      · exact .inl (by rw [amended_id]; exact List.mem_map_of_mem member)
      · exact .inr ⟨ns,member,helper⟩

/-! ### Conversion -/

/-- The field is an LLM node's own, whatever its value is. -/
def CarriesFlag (ns : OpenSpec) : Prop := ns.type = "llm" ∧ "memory_aware" ∈ ns.extras.keys

theorem OptsIn.carriesFlag {ns : OpenSpec} (opts : OptsIn ns) : CarriesFlag ns := by
  refine ⟨opts.1,(OrderedDict.mem_keys _ _).mpr ?_⟩
  have truthy := opts.2
  simp only [memoryAware] at truthy
  cases flag : ns.extras.get? "memory_aware" with
  | none =>
    rw [flag] at truthy
    cases truthy
  | some v => rfl

theorem amended_carriesFlag {ns : OpenSpec} (flagged : CarriesFlag ns) : CarriesFlag (amended shown ns) := by
  refine ⟨(amended_type shown ns).trans flagged.1,?_⟩
  simp only [amended]
  split
  · exact (OrderedDict.mem_keys_set _ _ _ _).mpr (.inr flagged.2)
  · exact flagged.2

variable {x : NodeClasses}

theorem convertNodeSpec_refuses {ns : OpenSpec} (flagged : CarriesFlag ns) (node : NodeConfig) :
    x.convertNodeSpec ns ≠ .ok node := by
  have foreign : ¬∀ key ∈ ns.extras.keys, key ∈ baseFields ++ ownFields .llm := fun all =>
    absurd (all "memory_aware" flagged.2) (by decide)
  have found : nodeTypeMap.lookup "llm" = some NodeType.llm := by decide
  simp only [NodeClasses.convertNodeSpec,NodeClasses.modelValidate,flagged.1,found,if_neg foreign]
  intro converted
  cases converted

theorem convertNodeSpecs_refuses {out : List OpenSpec} {ns : OpenSpec} (member : ns ∈ out) (flagged : CarriesFlag ns)
    (nodes : List NodeConfig) : x.convertNodeSpecs out ≠ .ok nodes := by
  intro converted
  obtain ⟨configs,all,-⟩ := ExceptRules.bind_eq_ok.mp converted
  obtain ⟨config,own⟩ := ExceptRules.ok_of_mapM all member
  exact convertNodeSpec_refuses flagged config own

theorem policy_unflagged (none : ∀ ns ∈ specs, ¬CarriesFlag ns) : applyMemoryAwarePolicy shown specs = specs := by
  have alone (ns : OpenSpec) (member : ns ∈ specs) : amended shown ns :: helpers ns = [ns] := by
    have apart : ¬OptsIn ns := fun opts => none ns member opts.carriesFlag
    simp [amended,helpers,apart]
  calc applyMemoryAwarePolicy shown specs = specs.flatMap fun ns => [ns] := List.flatMap_congr alone
    _ = specs := List.flatMap_singleton' specs

theorem withoutFlag_eq_self {ns : OpenSpec} (plain : ¬CarriesFlag ns) : withoutFlag ns = ns := by
  simp only [withoutFlag]
  split
  · next llm => rw [OrderedDict.erase_eq_self fun carried => plain ⟨llm,carried⟩]
  · rfl

def Accepted (x : NodeClasses) (specs : List OpenSpec) : Prop := ∃ nodes, x.convertNodeSpecs specs = .ok nodes

/-- The policy does what it should exactly if no LLM node carries the field, or if without it the nodes are refused
anyhow and no node has the id of a helper. -/
theorem policy_holds_iff (x : NodeClasses) (shown : Value → String) (specs : List OpenSpec)
    (distinct : (ids specs).Nodup) (resolvable : Resolvable specs) (acyclic : Acyclic specs) :
    (Extended specs (applyMemoryAwarePolicy shown specs) ∧
        (Accepted x (specs.map withoutFlag) → Accepted x (applyMemoryAwarePolicy shown specs))) ↔
      (∀ ns ∈ specs, ¬CarriesFlag ns) ∨ ¬Accepted x (specs.map withoutFlag) ∧ HelpersFree specs := by
  rw [policy_extended distinct resolvable acyclic]
  constructor
  · rintro ⟨free,kept⟩
    by_cases none : ∀ ns ∈ specs, ¬CarriesFlag ns
    · exact .inl none
    · push Not at none
      obtain ⟨ns,member,flagged⟩ := none
      refine .inr ⟨fun accepted => ?_,free⟩
      obtain ⟨nodes,converted⟩ := kept accepted
      exact convertNodeSpecs_refuses (mem_policy.mpr ⟨ns,member,.inl rfl⟩) (amended_carriesFlag flagged) nodes converted
  · rintro (none | ⟨refused,free⟩)
    · refine ⟨fun ns member opts => absurd opts.carriesFlag (none ns member),fun accepted => ?_⟩
      have same : specs.map withoutFlag = specs := by
        rw [List.map_congr_left fun ns member => withoutFlag_eq_self (none ns member),List.map_id']
      rwa [policy_unflagged none,← same]
    · exact ⟨free,fun accepted => absurd accepted refused⟩

end

/-- An LLM node has to name its model; nothing else is refused, and no schema is looked up. -/
def modelsNamed : NodeClasses where
  validateFields type spec :=
    if type = .llm ∧ "model" ∉ spec.extras.keys then .error "1 validation error for LLMNodeConfig\nmodel\n  Field required"
    else .ok { id := spec.id,type,dependencies := spec.dependencies }
  extraForbidden _ _ := "1 validation error for LLMNodeConfig\nmemory_aware\n  Extra inputs are not permitted"
  populateToolNodeSchemas := .ok

def chat (extras : List (String × Value)) : OpenSpec :=
  ⟨"chat","llm",[],.ofList (("memory_aware",.bool true) :: ("prompt",.str "Hi") :: extras)⟩

theorem alone_resolvable (extras : List (String × Value)) : Resolvable [chat extras] := by
  rintro _ dep ⟨ns,member,_,on⟩
  cases List.mem_singleton.mp member
  cases on

theorem alone_acyclic (extras : List (String × Value)) : Acyclic [chat extras] := by
  intro id cycle
  obtain ⟨_,⟨ns,member,_,on⟩,_⟩ := Relation.TransGen.head'_iff.mp cycle
  cases List.mem_singleton.mp member
  cases on

/-- A node that names no model is refused without the field too, and gets its helpers. -/
theorem unnamed_model_extended :
    Extended [chat []] (applyMemoryAwarePolicy Value.typeText [chat []]) ∧
      (Accepted modelsNamed ([chat []].map withoutFlag) →
        Accepted modelsNamed (applyMemoryAwarePolicy Value.typeText [chat []])) := by
  refine (policy_holds_iff modelsNamed Value.typeText [chat []] (by decide) (alone_resolvable []) (alone_acyclic [])).mpr
    (.inr ⟨?_,?_⟩)
  · rintro ⟨nodes,converted⟩
    cases converted
  · intro ns member _
    cases List.mem_singleton.mp member
    exact ⟨by decide,by decide⟩

/-- The helpers of a node that opts in are put in, and the node is then refused because it has opted in. -/
theorem opting_in_refused :
    ¬∀ (x : NodeClasses) (shown : Value → String) (specs : List OpenSpec), (ids specs).Nodup → Resolvable specs →
      Acyclic specs → Extended specs (applyMemoryAwarePolicy shown specs) ∧
        (Accepted x (specs.map withoutFlag) → Accepted x (applyMemoryAwarePolicy shown specs)) := by
  intro always
  let specs := [chat [("model",.str "gpt-4")]]
  have kept := (always modelsNamed Value.typeText specs (by decide) (alone_resolvable _) (alone_acyclic _)).2
  obtain ⟨nodes,converted⟩ := kept ⟨[{ id := "chat",type := .llm }],rfl⟩
  have flagged : CarriesFlag (chat [("model",.str "gpt-4")]) := ⟨rfl,by decide⟩
  exact convertNodeSpecs_refuses (mem_policy.mpr ⟨_,List.mem_singleton.mpr rfl,.inl rfl⟩) (amended_carriesFlag flagged)
    nodes converted

/-! ### The policy without the fields -/

/-- A spec as the service's other checks see it. -/
def outline (ns : OpenSpec) : NodeSpec :=
  { id := ns.id,type := ns.type,dependencies := ns.dependencies,memoryAware := memoryAware ns }

def skeleton (ns : NodeSpec) : String × String × List String := (ns.id,ns.type,ns.dependencies)

/-- What the policy does to ids, types and dependencies depends on these and the flag only. -/
theorem policy_outline (shown : Value → String) (specs : List OpenSpec) :
    (applyMemoryAwarePolicy shown specs).map (fun ns => skeleton (outline ns)) =
      (IceOS.applyMemoryAwarePolicy (specs.map outline)).map skeleton := by
  simp only [applyMemoryAwarePolicy,IceOS.applyMemoryAwarePolicy,List.map_flatMap,List.flatMap_map]
  refine List.flatMap_congr fun ns _ => ?_
  by_cases opts : ns.type = "llm" ∧ memoryAware ns = true
  · simp [withMemory,outline,helpers,amended,OptsIn,opts,skeleton,recentNode,writeNode,IceOS.recentNode,IceOS.writeNode,
      recentId,writeId]
    rfl
  · simp [withMemory,outline,helpers,amended,OptsIn,opts,skeleton]

end MemoryPolicy

end IceOS
