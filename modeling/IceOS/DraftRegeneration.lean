import IceOS.ActionRuns
import IceOS.DraftStates
import IceOS.PromptTemplates

/-! The interactive pipeline on a draft that the routes edit. A decomposition keeps the nodes that are locked or real, and
fails where one is marked that does not exist. An approval simplifies the types of all nodes and then fails with the
diagram's prompt. -/
namespace IceOS.BlueprintPipeline

open ActionRuns PromptTemplates

variable {φ : Type}

/-- What Python decides: the texts of numbers, lower case, and the order in which a set is gone through. -/
structure Interpreter (φ : Type) extends PythonFloats φ where
  lower : String → String
  listing : List String → List String
  perm : ∀ ids, (listing ids).Perm ids

/-- What the model makes of a plan: objects with ids of their own. -/
structure Decomposition (φ : Type) where
  nodes : List (String × List (String × Json φ))
  named : ∀ n ∈ nodes, n.2.lookup "id" = some (.str n.1)
  distinct : (nodes.map Prod.fst).Nodup

abbrev Intent (φ : Type) := List (String × Json φ)

/-- The state after a call, and what was raised. -/
abbrev Outcome (φ : Type) := DraftState φ × Option Exn

def andThen (o : Outcome φ) (next : DraftState φ → Outcome φ) : Outcome φ :=
  match o with
  | (s,none) => next s
  | (s,some e) => (s,some e)

/-! ### Planning -/

def runIntentExtraction (answer : Except Exn (Intent φ)) (s : DraftState φ) : Outcome φ :=
  match answer with
  | .error e => (s,some e)
  | .ok intentData => ({ s with intentData := some intentData, currentStage := .member "PLANNING" },none)

/-- The intent is asked for where it is missing or empty. -/
def runPlanning (intent : Except Exn (Intent φ)) (plan : Except Exn String) (s : DraftState φ) : Outcome φ :=
  andThen (if (s.intentData.getD []).isEmpty then runIntentExtraction intent s else (s,none)) fun s =>
    match plan with
    | .error e => (s,some e)
    | .ok planText => ({ s with planText := some planText, currentStage := .member "DECOMPOSITION" },none)

/-! ### Decomposition -/

def statusMap (s : DraftState φ) : OrderedDict String String := s.draftMeta.status.getD .empty

def keeps (status : String) : Bool := status = "locked" || status = "real"

def isPreserved (s : DraftState φ) (id : String) : Bool := ((statusMap s).get? id).any keeps

def preservedIds (s : DraftState φ) : List String := ((statusMap s).items.filter fun entry => keeps entry.2).map Prod.fst

/-- A preserved node that does not exist is a `KeyError`. -/
def mergeNew (s : DraftState φ) (merged : OrderedDict String (Json φ)) :
    List (String × List (String × Json φ)) → Except Exn (OrderedDict String (Json φ))
  | [] => .ok merged
  | (id,node) :: rest =>
    if isPreserved s id then
      match s.nodes.get? id with
      | none => .error (keyError id)
      | some existing => mergeNew s (merged.set id existing) rest
    else mergeNew s (merged.set id (.dict node)) rest

/-- The preserved nodes that the decomposition lacks. -/
def appendMissing (s : DraftState φ) (merged : OrderedDict String (Json φ)) (ids : List String) :
    OrderedDict String (Json φ) :=
  ids.foldl (fun merged nid => ((s.nodes.get? nid).map (merged.setDefault nid)).getD merged) merged

/-- What the models answer during a decomposition; a plan and an intent are asked for where they are missing. -/
structure DecompositionReplies (φ : Type) where
  intent : Except Exn (Intent φ)
  plan : Except Exn String
  nodes : Except Exn (Decomposition φ)

def ensurePlan (r : DecompositionReplies φ) (s : DraftState φ) : Outcome φ :=
  if s.planText.getD "" = "" then runPlanning r.intent r.plan s else (s,none)

def mergeDecomposition (py : Interpreter φ) (d : Decomposition φ) (s : DraftState φ) : Outcome φ :=
  match mergeNew s .empty d.nodes with
  | .error e => (s,some e)
  | .ok merged =>
    ({ s with
        nodes := appendMissing s merged (py.listing (preservedIds s))
        currentStage := .member "VALIDATION" },none)

def runDecomposition (py : Interpreter φ) (r : DecompositionReplies φ) (s : DraftState φ) : Outcome φ :=
  andThen (ensurePlan r s) fun s =>
    match r.nodes with
    | .error e => (s,some e)
    | .ok newNodes => mergeDecomposition py newNodes s

/-! ### Preview and revision -/

structure Shown where
  mermaidDiagram : String
  warnings : List String
  questions : List String

/-- What the models answer during a preview, and whether the diagram and the remarks on the nodes come about. -/
structure PreviewReplies (φ : Type) where
  intent : Except Exn (Intent φ)
  intentAgain : Except Exn (Intent φ)
  plan : Except Exn String
  decomposition : DecompositionReplies φ
  shown : Except Exn Shown

/-- Up to the decomposition. -/
def planPreview (r : PreviewReplies φ) (s : DraftState φ) : Outcome φ :=
  andThen (runIntentExtraction r.intent s) (runPlanning r.intentAgain r.plan)

def generatePreview (py : Interpreter φ) (r : PreviewReplies φ) (s : DraftState φ) : Outcome φ :=
  andThen (andThen (planPreview r s) (runDecomposition py r.decomposition)) fun s =>
    match r.shown with
    | .error e => (s,some e)
    | .ok shown =>
      ({ s with
          mermaidDiagram := some shown.mermaidDiagram
          warnings := shown.warnings
          questions := shown.questions
          currentStage := .member "REVIEW" },none)

def revised (plan : String) (s : DraftState φ) : DraftState φ := { s with planText := some plan }

def revisePlan (py : Interpreter φ) (revisedPlan : Except Exn String) (r : DecompositionReplies φ) (p : PreviewReplies φ)
    (s : DraftState φ) : Outcome φ :=
  match revisedPlan with
  | .error e => (s,some e)
  | .ok plan => andThen (runDecomposition py r (revised plan s)) (generatePreview py p)

/-! ### Approval -/

def isText (text : String) : Json φ → Bool
  | .str t => t = text
  | _ => false

def simplifyNodeChoice (lower : String → String) (taskDescription : String) (suggestedType : Json φ) : Json φ :=
  let taskLower := lower taskDescription
  let mentions (words : List String) : Bool := words.any fun word => PythonText.contains word taskLower
  if mentions ["read","write","fetch","save","call","execute"] && mentions ["csv","json","api"] then .str "tool"
  else if isText "agent" suggestedType && !mentions ["tool","memory","state"] then .str "llm"
  else if isText "swarm" suggestedType && !mentions ["vote","consensus","majority"] then .str "parallel"
  else if mentions ["calculate","transform","process","convert"] then .str "code"
  else suggestedType

def describedText : Json φ → Except Exn String
  | .str description => .ok description
  | v => .error (noAttribute v "lower")

/-- `v[key] = w` -/
def assign (key : String) (w : Json φ) : Json φ → Json φ
  | .dict entries => .dict (OrderedDict.insert key w entries)
  | v => v

/-- The type of a node is set to the simplified one. -/
def simplifyNode (lower : String → String) (node : Json φ) : Except Exn (Json φ) := do
  let description ← get "description" (.str "") node
  let suggestedType ← get "type" (.str "") node
  let taskDescription ← describedText description
  return assign "type" (simplifyNodeChoice lower taskDescription suggestedType) node

/-- `node["id"]`, which is a text in every node of a decomposition. -/
def nodeId (node : Json φ) : Except Exn String := do
  match ← subscript "id" node with
  | .str id => return id
  | other => throw (typeError ("'" ++ PythonFloats.typeName other ++ "' object is no id"))

/-- The nodes, which are simplified in place, and the dictionary of those that were, by id. -/
def simplifyNodes (lower : String → String) :
    List (String × Json φ) → List (String × Json φ) × Except Exn (List (String × Json φ))
  | [] => ([],.ok [])
  | (key,node) :: rest =>
    match simplifyNode lower node with
    | .error e => ((key,node) :: rest,.error e)
    | .ok simplified =>
      match nodeId simplified with
      | .error e => ((key,simplified) :: rest,.error e)
      | .ok id =>
        let later := simplifyNodes lower rest
        ((key,simplified) :: later.1,later.2.map ((id,simplified) :: ·))

def isReview : StageValue φ → Bool
  | .member name => name = "REVIEW"
  | .json _ => false

/-- What the diagram's model answers, and the blueprint that comes of the diagram, the nodes and their code. -/
structure Generation (φ : Type) where
  complete : String → String
  assemble : String → List (Json φ) → BlueprintValue φ

def generateDiagram (py : Interpreter φ) (g : Generation φ) (nodes : List (Json φ)) : Except Exn String := do
  let prompt ← formatMermaidPrompt py.toPythonFloats nodes
  return PythonText.strip (g.complete prompt)

def completeGeneration (py : Interpreter φ) (g : Generation φ) (nodes : List (Json φ)) : Except Exn (BlueprintValue φ) := do
  let finalDiagram ← generateDiagram py g nodes
  return g.assemble finalDiagram nodes

def approveAndGenerate (py : Interpreter φ) (g : Generation φ) (s : DraftState φ) : Outcome φ :=
  if isReview s.currentStage then
    match simplifyNodes py.lower s.nodes.items with
    | (nodes,.error e) => ({ s with nodes := .ofList nodes },some e)
    | (_,.ok simplified) =>
      let approved := { s with nodes := .ofList simplified, currentStage := .member "APPROVAL" }
      match completeGeneration py g (approved.nodes.items.map Prod.snd) with
      | .error e => (approved,some e)
      | .ok blueprint => ({ approved with blueprint := some blueprint, currentStage := .member "EXECUTION" },none)
  else (s,some (valueError "Must generate preview first"))

/-! ### Runs -/

inductive Action (φ : Type) where
  | edit (e : DraftEdit)
  | preview (p : PreviewReplies φ)
  | revise (revisedPlan : Except Exn String) (r : DecompositionReplies φ) (p : PreviewReplies φ)
  | approve (g : Generation φ)

def step (py : Interpreter φ) (s : DraftState φ) : Action φ → Option (DraftState φ)
  | .edit e => some (e.apply s)
  | .preview p => some (generatePreview py p s).1
  | .revise revisedPlan r p => some (revisePlan py revisedPlan r p s).1
  | .approve g => some (approveAndGenerate py g s).1

/-- What holds of the decompositions that an action makes, and of an approval, in the states that they begin in. -/
def AtEachCall (py : Interpreter φ) (decomposition : DecompositionReplies φ → DraftState φ → Prop)
    (approval : Generation φ → DraftState φ → Prop) (s : DraftState φ) : Action φ → Prop
  | .edit _ => True
  | .preview p => ∀ u, planPreview p s = (u,none) → decomposition p.decomposition u
  | .revise revisedPlan r p => ∀ plan, revisedPlan = .ok plan → decomposition r (revised plan s) ∧
    ∀ t u, runDecomposition py r (revised plan s) = (t,none) → planPreview p t = (u,none) → decomposition p.decomposition u
  | .approve g => approval g s

/-! ### Frame -/

/-- The preserved nodes that exist are as they were, their types included. -/
def Keeps (s t : DraftState φ) : Prop :=
  ∀ id node, isPreserved s id = true → s.nodes.get? id = some node → t.nodes.get? id = some node

/-- Where the models answer, nothing is raised, and all other nodes are those of the decomposition. -/
def Regenerates (py : Interpreter φ) (r : DecompositionReplies φ) (s : DraftState φ) : Prop :=
  ∀ u d, ensurePlan r s = (u,none) → r.nodes = .ok d → ∃ t, runDecomposition py r s = (t,none) ∧ Keeps s t ∧
    ∀ id node, isPreserved s id = false →
      (t.nodes.get? id = some node ↔ ∃ fields, (id,fields) ∈ d.nodes ∧ node = .dict fields)

def Approves (py : Interpreter φ) (g : Generation φ) (s : DraftState φ) : Prop :=
  ∃ t, approveAndGenerate py g s = (t,none) ∧ Keeps s t

def Faithful (py : Interpreter φ) : DraftState φ → Action φ → Prop := AtEachCall py (Regenerates py) (Approves py)

/-- No id of the decomposition is marked without there being a node of it. -/
def Mergeable (r : DecompositionReplies φ) (s : DraftState φ) : Prop :=
  ∀ u d, ensurePlan r s = (u,none) → r.nodes = .ok d →
    ∀ id ∈ d.nodes.map Prod.fst, isPreserved s id = true → id ∈ s.nodes.keys

/-- Decompositions find the nodes that are marked, and nothing is approved. -/
def Safe (py : Interpreter φ) : DraftState φ → Action φ → Prop := AtEachCall py Mergeable fun _ _ => False

section

variable {py : Interpreter φ} {s t u : DraftState φ} {d : Decomposition φ} {r : DecompositionReplies φ}

/-! ### Decompositions -/

/-- The nodes and their statuses are the same. -/
structure SameNodes (s t : DraftState φ) : Prop where
  nodes : t.nodes = s.nodes
  draftMeta : t.draftMeta = s.draftMeta

theorem SameNodes.refl (s : DraftState φ) : SameNodes s s := ⟨rfl,rfl⟩

theorem SameNodes.trans (first : SameNodes s t) (second : SameNodes t u) : SameNodes s u :=
  ⟨second.nodes.trans first.nodes,second.draftMeta.trans first.draftMeta⟩

theorem SameNodes.isPreserved (same : SameNodes s t) : isPreserved t = isPreserved s := by
  funext id
  rw [BlueprintPipeline.isPreserved,statusMap,same.draftMeta]
  rfl

/-- What holds after the first call, whether it raises or not, and is kept by the second. -/
theorem andThen_holds {prop : DraftState φ → Prop} {o : Outcome φ} {next : DraftState φ → Outcome φ} (first : prop o.1)
    (second : ∀ t, prop t → prop (next t).1) : prop (andThen o next).1 := by
  obtain ⟨t,raised⟩ := o
  cases raised with
  | none => exact second t first
  | some e => exact first

theorem runIntentExtraction_same (answer : Except Exn (Intent φ)) (s : DraftState φ) :
    SameNodes s (runIntentExtraction answer s).1 := by
  cases answer <;> exact ⟨rfl,rfl⟩

theorem runPlanning_same (intent : Except Exn (Intent φ)) (plan : Except Exn String) (s : DraftState φ) :
    SameNodes s (runPlanning intent plan s).1 := by
  refine andThen_holds ?_ fun t same => ?_
  · split
    · exact runIntentExtraction_same intent s
    · exact .refl s
  · cases plan with
    | error e => exact same
    | ok planText => exact same.trans ⟨rfl,rfl⟩

theorem ensurePlan_same (r : DecompositionReplies φ) (s : DraftState φ) : SameNodes s (ensurePlan r s).1 := by
  rw [ensurePlan]
  split
  · exact runPlanning_same r.intent r.plan s
  · exact .refl s

theorem planPreview_same (p : PreviewReplies φ) (s : DraftState φ) : SameNodes s (planPreview p s).1 :=
  andThen_holds (runIntentExtraction_same p.intent s) fun t same => same.trans (runPlanning_same p.intentAgain p.plan t)

theorem preservedIds_iff (id : String) : id ∈ preservedIds s ↔ isPreserved s id = true := by
  simp only [preservedIds,isPreserved,List.mem_map,List.mem_filter]
  constructor
  · rintro ⟨⟨key,status⟩,⟨listed,kept⟩,rfl⟩
    rw [((statusMap s).get?_eq_some key status).mpr listed]
    exact kept
  · intro kept
    cases known : (statusMap s).get? id with
    | none =>
      rw [known] at kept
      cases kept
    | some status =>
      rw [known] at kept
      exact ⟨(id,status),⟨((statusMap s).get?_eq_some id status).mp known,kept⟩,rfl⟩

/-- The node that is merged under an id of the decomposition. -/
def chosen (s : DraftState φ) (n : String × List (String × Json φ)) : Json φ :=
  if isPreserved s n.1 then (s.nodes.get? n.1).getD .null else .dict n.2

theorem mergeNew_ok {nodes : List (String × List (String × Json φ))} {merged : OrderedDict String (Json φ)}
    (mergeable : ∀ id ∈ nodes.map Prod.fst, isPreserved s id = true → id ∈ s.nodes.keys) :
    mergeNew s merged nodes = .ok (merged.update (nodes.map fun n => (n.1,chosen s n))) := by
  induction nodes generalizing merged with
  | nil => rfl
  | cons n rest ih =>
    obtain ⟨id,node⟩ := n
    have ⟨here,later⟩ := List.forall_mem_cons.mp mergeable
    rw [mergeNew]
    split
    · next kept =>
      obtain ⟨existing,known⟩ := Option.isSome_iff_exists.mp ((s.nodes.mem_keys id).mp (here kept))
      rw [known]
      dsimp only
      rw [ih later]
      simp [chosen,kept,known,OrderedDict.update]
    · next free =>
      rw [ih later]
      simp [chosen,free,OrderedDict.update]

theorem mergeNew_raises {nodes : List (String × List (String × Json φ))} (merged : OrderedDict String (Json φ)) {id : String}
    (listed : id ∈ nodes.map Prod.fst) (marked : isPreserved s id = true) (missing : id ∉ s.nodes.keys) :
    ∃ e, mergeNew s merged nodes = .error e := by
  induction nodes generalizing merged with
  | nil => cases listed
  | cons n rest ih =>
    obtain ⟨first,node⟩ := n
    rw [mergeNew]
    obtain rfl | later := List.mem_cons.mp listed
    · rw [if_pos marked,(s.nodes.get?_eq_none _).mpr missing]
      exact ⟨_,rfl⟩
    · split
      · split
        · exact ⟨_,rfl⟩
        · exact ih _ later
      · exact ih _ later

theorem get?_appendMissing (merged : OrderedDict String (Json φ)) (ids : List String) (j : String) :
    (appendMissing s merged ids).get? j = (merged.get? j).or (if j ∈ ids then s.nodes.get? j else none) := by
  induction ids generalizing merged with
  | nil => simp [appendMissing]
  | cons nid ids ih =>
    rw [appendMissing,List.foldl_cons,← appendMissing,ih]
    cases known : s.nodes.get? nid with
    | none =>
      by_cases same : j = nid
      · subst same
        simp [known]
      · simp [same]
    | some node =>
      by_cases same : nid = j
      · subst same
        simp [OrderedDict.get?_setDefault,known]
      · simp [OrderedDict.get?_setDefault,same,Ne.symm same]

variable (py) in
/-- What a decomposition leaves under each id. -/
theorem mergeDecomposition_nodes (mergeable : ∀ id ∈ d.nodes.map Prod.fst, isPreserved s id = true → id ∈ s.nodes.keys) :
    ∃ t, mergeDecomposition py d s = (t,none) ∧ (∀ n ∈ d.nodes, t.nodes.get? n.1 = some (chosen s n)) ∧
      ∀ id, id ∉ d.nodes.map Prod.fst → t.nodes.get? id = if isPreserved s id then s.nodes.get? id else none := by
  have ran : mergeDecomposition py d s = ({ s with
      nodes := appendMissing s (.ofList (d.nodes.map fun n => (n.1,chosen s n))) (py.listing (preservedIds s))
      currentStage := .member "VALIDATION" },none) := by
    rw [mergeDecomposition,mergeNew_ok mergeable]
    rfl
  refine ⟨_,ran,fun n listed => ?_,fun id absent => ?_⟩
  · have known : (OrderedDict.ofList (d.nodes.map fun n => (n.1,chosen s n))).get? n.1 = some (chosen s n) := by
      rw [OrderedDict.get?_eq_some,OrderedDict.ofList_items]
      · exact List.mem_map.mpr ⟨n,listed,rfl⟩
      · simpa [List.map_map,Function.comp_def] using d.distinct
    rw [get?_appendMissing,known,Option.some_or]
  · have unknown : (OrderedDict.ofList (d.nodes.map fun n => (n.1,chosen s n))).get? id = none := by
      rw [OrderedDict.get?_eq_none,OrderedDict.mem_keys_ofList]
      simpa [List.map_map,Function.comp_def] using absent
    rw [get?_appendMissing,unknown,Option.none_or]
    simp only [(py.perm _).mem_iff,preservedIds_iff]

theorem chosen_keeps (own : ∀ n ∈ d.nodes, t.nodes.get? n.1 = some (chosen s n))
    (others : ∀ id, id ∉ d.nodes.map Prod.fst → t.nodes.get? id = if isPreserved s id then s.nodes.get? id else none) :
    Keeps s t := by
  intro id node kept known
  by_cases listed : id ∈ d.nodes.map Prod.fst
  · obtain ⟨n,member,rfl⟩ := List.mem_map.mp listed
    rw [own n member,chosen,if_pos kept,known]
    rfl
  · rw [others id listed,if_pos kept,known]

theorem fields_unique {nodes : List (String × List (String × Json φ))} (distinct : (nodes.map Prod.fst).Nodup) {id : String}
    {fields other : List (String × Json φ)} (first : (id,fields) ∈ nodes) (second : (id,other) ∈ nodes) : fields = other :=
  (Prod.mk.inj (List.inj_on_of_nodup_map distinct first second rfl)).2

/-- Where the models answer, what comes of a decomposition is what is merged. -/
theorem runDecomposition_merges (planned : ensurePlan r s = (u,none)) (answered : r.nodes = .ok d) :
    runDecomposition py r s = mergeDecomposition py d u := by
  rw [runDecomposition,planned,andThen,answered]

theorem regenerates_iff (r : DecompositionReplies φ) (s : DraftState φ) : Regenerates py r s ↔ Mergeable r s := by
  constructor
  · intro regenerates u d planned answered id listed marked
    by_contra missing
    obtain ⟨t,ran,-⟩ := regenerates u d planned answered
    have same := ensurePlan_same r s
    rw [planned] at same
    rw [runDecomposition_merges planned answered,mergeDecomposition] at ran
    rw [← same.isPreserved] at marked
    rw [← same.nodes] at missing
    obtain ⟨e,raised⟩ := mergeNew_raises .empty listed marked missing
    rw [raised] at ran
    cases ran
  · intro mergeable u d planned answered
    have same := ensurePlan_same r s
    rw [planned] at same
    have there := mergeable u d planned answered
    rw [← same.isPreserved,← same.nodes] at there
    obtain ⟨t,ran,own,others⟩ := mergeDecomposition_nodes py there
    rw [runDecomposition_merges planned answered]
    unfold Keeps
    rw [← same.isPreserved,← same.nodes]
    refine ⟨t,ran,chosen_keeps own others,fun id node free => ?_⟩
    by_cases listed : id ∈ d.nodes.map Prod.fst
    · obtain ⟨⟨id,fields⟩,member,rfl⟩ := List.mem_map.mp listed
      have chose : chosen u (id,fields) = .dict fields := by rw [chosen,free]; rfl
      rw [own _ member,chose]
      constructor
      · intro same
        exact ⟨fields,member,(Option.some.inj same).symm⟩
      · rintro ⟨other,also,rfl⟩
        rw [fields_unique d.distinct member also]
    · rw [others id listed,free]
      refine iff_of_false (by simp) ?_
      rintro ⟨fields,member,-⟩
      exact listed (List.mem_map.mpr ⟨_,member,rfl⟩)

/-! ### Approvals -/

variable (py) in
/-- The diagram's prompt is not formatted. -/
theorem completeGeneration_raises (g : Generation φ) (nodes : List (Json φ)) :
    ∃ e, completeGeneration py g nodes = .error e := by
  obtain ⟨e,raised⟩ := formatMermaidPrompt_raises py.toPythonFloats nodes
  refine ⟨e,?_⟩
  rw [completeGeneration,generateDiagram,raised]
  rfl

variable (py) in
theorem approve_raises (g : Generation φ) (s : DraftState φ) : ∃ e, (approveAndGenerate py g s).2 = some e := by
  rw [approveAndGenerate]
  split
  · split
    · exact ⟨_,rfl⟩
    · next simplified _ =>
      obtain ⟨e,raised⟩ := completeGeneration_raises py g ((OrderedDict.ofList simplified).items.map Prod.snd)
      dsimp only
      rw [raised]
      exact ⟨e,rfl⟩
  · exact ⟨_,rfl⟩

theorem approves_never (g : Generation φ) (s : DraftState φ) : ¬Approves py g s := by
  rintro ⟨t,ran,-⟩
  obtain ⟨e,raised⟩ := approve_raises py g s
  rw [ran] at raised
  cases raised

/-! ### Runs -/

theorem faithful_action_iff (s : DraftState φ) (a : Action φ) : Faithful py s a ↔ Safe py s a := by
  cases a with
  | edit e => exact Iff.rfl
  | preview p => exact forall₂_congr fun u planned => regenerates_iff p.decomposition u
  | revise revisedPlan r p =>
    refine forall₂_congr fun plan answered => and_congr (regenerates_iff r _) ?_
    exact forall_congr' fun t => forall_congr' fun u => forall₂_congr fun ran planned => regenerates_iff p.decomposition u
  | approve g => exact iff_of_false (approves_never g s) id

/-- A node that is preserved. -/
structure Preserved (id : String) (node : Json φ) (s : DraftState φ) : Prop where
  marked : isPreserved s id = true
  known : s.nodes.get? id = some node

variable {id : String} {node : Json φ}

theorem SameNodes.preserved (same : SameNodes s t) (preserved : Preserved id node s) : Preserved id node t :=
  ⟨by rw [same.isPreserved,preserved.marked],by rw [same.nodes,preserved.known]⟩

theorem mergeDecomposition_preserves (d : Decomposition φ) (preserved : Preserved id node s) :
    Preserved id node (mergeDecomposition py d s).1 := by
  by_cases mergeable : ∀ id ∈ d.nodes.map Prod.fst, isPreserved s id = true → id ∈ s.nodes.keys
  · obtain ⟨t,ran,own,others⟩ := mergeDecomposition_nodes py mergeable
    have draftMeta : (mergeDecomposition py d s).1.draftMeta = s.draftMeta := by
      rw [mergeDecomposition]
      split <;> rfl
    rw [ran] at draftMeta ⊢
    refine ⟨?_,chosen_keeps own others id node preserved.marked preserved.known⟩
    rw [isPreserved,statusMap,draftMeta]
    exact preserved.marked
  · push Not at mergeable
    obtain ⟨other,listed,marked,missing⟩ := mergeable
    obtain ⟨e,raised⟩ := mergeNew_raises .empty listed marked missing
    rw [mergeDecomposition,raised]
    exact preserved

theorem runDecomposition_preserves (r : DecompositionReplies φ) (preserved : Preserved id node s) :
    Preserved id node (runDecomposition py r s).1 := by
  refine andThen_holds ((ensurePlan_same r s).preserved preserved) fun t preserved => ?_
  cases r.nodes with
  | error e => exact preserved
  | ok newNodes => exact mergeDecomposition_preserves newNodes preserved

theorem generatePreview_preserves (p : PreviewReplies φ) (preserved : Preserved id node s) :
    Preserved id node (generatePreview py p s).1 := by
  have planned : Preserved id node (andThen (planPreview p s) (runDecomposition py p.decomposition)).1 :=
    andThen_holds ((planPreview_same p s).preserved preserved) fun t => runDecomposition_preserves p.decomposition
  refine andThen_holds planned fun t preserved => ?_
  cases p.shown with
  | error e => exact preserved
  | ok shown => exact ⟨preserved.marked,preserved.known⟩

theorem setStatus_preserves {m : DraftMeta} {status : String} (marks : keeps status = true) (nodeId : String)
    (marked : ((m.status.getD .empty).get? id).any keeps = true) :
    (((m.setStatus nodeId status).status.getD .empty).get? id).any keeps = true := by
  rw [DraftMeta.setStatus,Option.getD_some,OrderedDict.get?_set]
  split
  · exact marks
  · exact marked

/-- No route takes a mark away. -/
theorem edit_preserves (e : DraftEdit) (preserved : Preserved id node s) : Preserved id node (e.apply s) := by
  cases e with
  | lock nodeId => exact ⟨setStatus_preserves (by decide) nodeId preserved.marked,preserved.known⟩
  | position nodeId x y => exact ⟨preserved.marked,preserved.known⟩
  | instantiate nodeId => exact ⟨setStatus_preserves (by decide) nodeId preserved.marked,preserved.known⟩

theorem step_preserves {a : Action φ} (unapproved : ∀ g, a ≠ .approve g) (preserved : Preserved id node s)
    (stepped : step py s a = some t) : Preserved id node t := by
  cases a with
  | edit e =>
    cases stepped
    exact edit_preserves e preserved
  | preview p =>
    cases stepped
    exact generatePreview_preserves p preserved
  | revise revisedPlan r p =>
    cases stepped
    cases revisedPlan with
    | error e => exact preserved
    | ok plan =>
      have start : Preserved id node (revised plan s) := ⟨preserved.marked,preserved.known⟩
      exact andThen_holds (runDecomposition_preserves r start) fun t => generatePreview_preserves p
  | approve g => exact absurd rfl (unapproved g)

/-- Until an approval a preserved node stays as it is, whatever is raised. -/
theorem run_preserves {actions : List (Action φ)} (ran : run (step py) actions s = some t)
    (unapproved : ∀ a ∈ actions, ∀ g, a ≠ .approve g) (preserved : Preserved id node s) : Preserved id node t :=
  run_invariant (fun _ _ _ preserved unapproved => step_preserves unapproved preserved) ran preserved
    ((throughout_actions_iff ran).mpr unapproved)

end

/-- All along a run the calls do what they should exactly where decompositions find the marked nodes and nothing is
approved. -/
theorem regenerations_faithful_iff (py : Interpreter φ) (actions : List (Action φ)) (s : DraftState φ) :
    Throughout (step py) (Faithful py) actions s ↔ Throughout (step py) (Safe py) actions s :=
  throughout_congr (fun _ _ _ _ _ => trivial) (fun s a _ => faithful_action_iff s a) actions trivial

/-! ### A lock without a node, and an agent that is locked -/

def plainInterpreter : Interpreter Unit where
  toFloatTexts := PythonJson.zeroTexts
  repr _ := "0.0"
  equal _ _ := true
  equalInt _ i := i = 0
  lower text := String.ofList (text.toList.map Char.toLower)
  listing := id
  perm _ := .refl _

def summary (type : String) : List (String × Json Unit) :=
  [("id",.str "summary"),("type",.str type),("description",.str "Summarise the text")]

def summaryPreview : PreviewReplies Unit :=
  let intent := .ok [("goal",.str "A summary")]
  let plan := .ok "STEP 1: [agent] Summarise the text"
  { intent,intentAgain := intent,plan
    decomposition := {
      intent,plan
      nodes := .ok { nodes := [("summary",summary "agent")],named := by simp [summary],distinct := by decide } }
    shown := .ok { mermaidDiagram := "flowchart TD",warnings := [],questions := [] } }

def summaryGeneration : Generation Unit := ⟨fun _ => "graph TD",fun _ _ => .dict []⟩

/-- Whatever comes of the generation, the nodes are the simplified ones. -/
theorem approve_nodes {g : Generation φ} {py : Interpreter φ} {s : DraftState φ} {nodes simplified : List (String × Json φ)}
    (reviewed : isReview s.currentStage = true) (made : simplifyNodes py.lower s.nodes.items = (nodes,.ok simplified)) :
    (approveAndGenerate py g s).1.nodes = .ofList simplified := by
  rw [approveAndGenerate,if_pos reviewed,made]
  dsimp only
  split <;> rfl

theorem locked_summary_lost :
    ¬Throughout (step plainInterpreter) (Faithful plainInterpreter) [.edit (.lock "summary"),.preview summaryPreview] {} ∧
      ¬Throughout (step plainInterpreter) (Faithful plainInterpreter)
        [.preview summaryPreview,.edit (.lock "summary"),.approve summaryGeneration] {} ∧
      ∃ s, run (step plainInterpreter) [.preview summaryPreview,.edit (.lock "summary")] {} = some s ∧
        s.nodes.get? "summary" = some (.dict (summary "agent")) ∧
        (approveAndGenerate plainInterpreter summaryGeneration s).1.nodes.get? "summary" = some (.dict (summary "llm")) := by
  refine ⟨fun faithful => ?_,fun faithful => ?_,_,rfl,rfl,?_⟩
  · obtain ⟨t,ran,-⟩ := (faithful.2 _ rfl).1 _ rfl _ _ rfl rfl
    cases ran
  · exact approves_never _ _ ((faithful.2 _ rfl).2 _ rfl).1
  · rw [approve_nodes rfl rfl]
    rfl

end IceOS.BlueprintPipeline
