import IceOS.Metering
import IceOS.PythonWords
import Mathlib.Tactic.Linarith

/-! The estimate of what a workflow will cost, and the budget check before a run that reads its average. -/
namespace IceOS

/-- The fields of an LLM node that its price depends on; the provider is that of its `llm_config`. -/
structure LLMNodeConfig where
  id : String
  model : String
  prompt : String
  provider : ModelProvider
  maxTokens : Option Nat := none

/-- A node configuration as the estimator sees it, with the nodes inside it. -/
inductive CostedNode where
  | llm (node : LLMNodeConfig)
  | tool (id toolName : String)
  | condition (id : String) (truePath : List CostedNode) (falsePath : Option (List CostedNode))
  | loop (id : String) (body : List CostedNode)
  | parallel (id : String) (branches : List (List CostedNode))
  | other (id : String) (type : NodeType) (typed : type ∉ [.llm,.tool,.condition,.loop,.parallel])

namespace CostedNode

def id : CostedNode → String
  | llm node => node.id
  | tool id _ | condition id _ _ | loop id _ | parallel id _ | other id _ _ => id

def type : CostedNode → NodeType
  | llm _ => .llm
  | tool _ _ => .tool
  | condition _ _ _ => .condition
  | loop _ _ => .loop
  | parallel _ _ => .parallel
  | other _ type _ => type

/-- The nodes directly inside. -/
def inner : CostedNode → List CostedNode
  | condition _ truePath falsePath => truePath ++ falsePath.getD []
  | loop _ body => body
  | parallel _ branches => branches.flatten
  | llm _ | tool _ _ | other _ _ _ => []

end CostedNode

mutual

/-- A node is put into one of the bodies of a condition, loop or parallel node, or further in. -/
inductive PutInto (moved : CostedNode) : CostedNode → CostedNode → Prop
  | truePath (into : PutAmong moved path path') :
      PutInto moved (.condition nodeId path falsePath) (.condition nodeId path' falsePath)
  | falsePath (into : PutAmong moved (path.getD []) path') :
      PutInto moved (.condition nodeId truePath path) (.condition nodeId truePath (some path'))
  | body (into : PutAmong moved body body') : PutInto moved (.loop nodeId body) (.loop nodeId body')
  | branch (before after : List (List CostedNode)) (into : PutAmong moved branch branch') :
      PutInto moved (.parallel nodeId (before ++ branch :: after)) (.parallel nodeId (before ++ branch' :: after))
  | newBranch (before after : List (List CostedNode)) :
      PutInto moved (.parallel nodeId (before ++ after)) (.parallel nodeId (before ++ [moved] :: after))

inductive PutAmong (moved : CostedNode) : List CostedNode → List CostedNode → Prop
  | here (before after : List CostedNode) : PutAmong moved (before ++ after) (before ++ moved :: after)
  | inside (before after : List CostedNode) (into : PutInto moved node node') :
      PutAmong moved (before ++ node :: after) (before ++ node' :: after)

end

/-- An LLM node that stands once at top level is wrapped in a new node or put into another node of the workflow. -/
inductive Moved : List CostedNode → List CostedNode → Prop
  | wrapped {node : LLMNodeConfig} {container : CostedNode} (once : node.id ∉ (left ++ right).map CostedNode.id)
      (fresh : container.id ∉ (left ++ right).map CostedNode.id) (only : container.inner = [.llm node]) :
      Moved (left ++ .llm node :: right) (left ++ container :: right)
  | put {node : LLMNodeConfig} (left before : List CostedNode) (once : node.id ∉ (left ++ right).map CostedNode.id) (others : left ++ right = before ++ container :: after)
      (into : PutInto (.llm node) container filled) : Moved (left ++ .llm node :: right) (before ++ filled :: after)

namespace CostedNode

def IsContainer (node : CostedNode) : Prop := node.type = .condition ∨ node.type = .loop ∨ node.type = .parallel

theorem IsContainer.not_llm {node : CostedNode} (container : node.IsContainer) : node.type ≠ .llm := by
  rcases container with is | is | is <;> simp [is]

theorem IsContainer.not_tool {node : CostedNode} (container : node.IsContainer) : node.type ≠ .tool := by
  rcases container with is | is | is <;> simp [is]

theorem isContainer_of_inner {node held : CostedNode} (inner : node.inner = [held]) : node.IsContainer := by
  cases node with
  | condition => exact .inl rfl
  | loop => exact .inr (.inl rfl)
  | parallel => exact .inr (.inr rfl)
  | llm | tool | other => cases inner

theorem IsContainer.putInto {node : CostedNode} (container : node.IsContainer) (moved : CostedNode) :
    ∃ filled, PutInto moved node filled := by
  cases node with
  | condition id truePath falsePath => exact ⟨_,.truePath (.here [] truePath)⟩
  | loop id body => exact ⟨_,.body (.here [] body)⟩
  | parallel id branches => exact ⟨_,.newBranch [] branches⟩
  | llm | tool => rcases container with is | is | is <;> cases is
  | other id type typed =>
    refine absurd ?_ typed
    rcases container with rfl | rfl | rfl <;> simp

end CostedNode

/-- What holds a node keeps its id and its type. -/
theorem PutInto.kept {moved node filled : CostedNode} (into : PutInto moved node filled) :
    filled.id = node.id ∧ filled.type = node.type ∧ node.IsContainer := by
  cases into with
  | truePath | falsePath => exact ⟨rfl,rfl,.inl rfl⟩
  | body => exact ⟨rfl,rfl,.inr (.inl rfl)⟩
  | branch | newBranch => exact ⟨rfl,rfl,.inr (.inr rfl)⟩

structure NodeCostEstimate where
  nodeId : String
  nodeType : String
  minCost : Rat
  maxCost : Rat
  avgCost : Rat
  tokenEstimate : Nat
  apiCalls : Nat := 1
  confidence : Rat := 8 / 10
  notes : List String

structure WorkflowCostEstimate where
  totalMinCost : Rat
  totalMaxCost : Rat
  totalAvgCost : Rat
  totalTokenEstimate : Nat
  totalApiCalls : Nat
  durationEstimateSeconds : Rat
  nodeEstimates : OrderedDict String NodeCostEstimate
  warnings : List String
  assumptions : List String

/-- What is left to Python: products with a float, cut off to an integer, and how a provider prints. -/
structure CostRuntime where
  /-- `int(n * 1.3)` -/
  promptTokens : Nat → Nat
  /-- `int(n * 0.7)` -/
  outputTokens : Nat → Nat
  providerText : ModelProvider → String

namespace WorkflowCostEstimator

structure TokenEstimate where
  min : Nat
  avg : Nat
  max : Nat

/-- `DEFAULT_TOKEN_ESTIMATES`, with what is taken for the other types. -/
def defaultTokenEstimates : NodeType → TokenEstimate
  | .llm => ⟨500,1500,4000⟩
  | .tool => ⟨0,0,0⟩
  | .agent => ⟨2000,5000,10000⟩
  | .condition => ⟨0,0,0⟩
  | .workflow => ⟨1000,3000,8000⟩
  | .loop | .parallel | .recursive | .code | .human | .monitor | .swarm => ⟨100,500,1000⟩

/-- The averages of `DURATION_ESTIMATES`, in seconds. -/
def durationEstimates : NodeType → Rat
  | .llm => 2
  | .tool => 1 / 2
  | .agent => 15
  | .condition => 5 / 100
  | .workflow => 10
  | .loop | .parallel | .recursive | .code | .human | .monitor | .swarm => 1

def costPerToken : Rat := 2 / 1000 / 1000

def allowedModels : List String :=
  ["gpt-4","gpt-4.1","gpt-4-turbo","gpt-4o","gpt-4-turbo-2024-04-09","gpt-4.5-preview","claude-4-sonnet",
    "claude-4-opus","gemini-2.5-pro","deepseek-v3.1"]

def bannedModels : List String := ["gpt-3.5-turbo","gpt-3.5","gpt-3.5-turbo-0613"]

def isAllowedModel (model : String) : Bool := model ∈ allowedModels ∧ model ∉ bannedModels

section

variable (rt : CostRuntime)

/-- The tokens that the prompt and the completion of a node are taken to have. -/
def promptTokens (node : LLMNodeConfig) (contextSize : Nat) : Nat :=
  rt.promptTokens (PythonText.words node.prompt).length + contextSize

/-- `node.max_tokens or 1000` -/
def maxTokens (node : LLMNodeConfig) : Nat := (node.maxTokens.filter (· ≠ 0)).getD 1000

def avgOutputTokens (node : LLMNodeConfig) : Nat := rt.outputTokens (maxTokens node)

/-- The price of these tokens. -/
def llmPrice (node : LLMNodeConfig) (contextSize : Nat) : Rat :=
  Metering.calculateCost node.provider node.model (promptTokens rt node contextSize) (avgOutputTokens rt node)

/-- Pricing does not raise, since the provider is one of the enumeration, so that its fallback is never taken. -/
def estimateLlmCost (node : LLMNodeConfig) (contextSize : Nat) : NodeCostEstimate :=
  let totalTokens := promptTokens rt node contextSize + avgOutputTokens rt node
  let cost := llmPrice rt node contextSize
  let floor : Rat := 1 / 1000
  if cost = 0 ∧ isAllowedModel node.model = true then
    { nodeId := node.id,nodeType := "llm",minCost := floor * (1 / 2),maxCost := floor * (3 / 2),avgCost := floor,
      tokenEstimate := totalTokens,confidence := 7 / 10,
      notes := ["Applied floor cost for " ++ node.model ++ " (" ++ rt.providerText node.provider ++
        ") to avoid zero-cost preflight"] }
  else
    { nodeId := node.id,nodeType := "llm",minCost := cost * (1 / 2),maxCost := cost * (3 / 2),avgCost := cost,
      tokenEstimate := totalTokens,notes := ["Using " ++ node.model ++ " via " ++ rt.providerText node.provider] }

def estimateToolCost (id toolName : String) : NodeCostEstimate :=
  { nodeId := id,nodeType := "tool",minCost := 0,maxCost := 0,avgCost := 0,tokenEstimate := 0,apiCalls := 0,
    confidence := 1,notes := ["Tool: " ++ toolName] }

/-- The context is added to the average only, and the nodes inside are not looked at. -/
def genericEstimate (id : String) (type : NodeType) (contextSize : Nat) : NodeCostEstimate :=
  let tokens := defaultTokenEstimates type
  let avgTokens := tokens.avg + contextSize
  { nodeId := id,nodeType := type.text,minCost := tokens.min * costPerToken,maxCost := tokens.max * costPerToken,
    avgCost := avgTokens * costPerToken,tokenEstimate := avgTokens,confidence := 1 / 2,
    notes := ["Generic estimate for " ++ type.text ++ " node"] }

def estimateNodeCost (node : CostedNode) (contextSize : Nat) : NodeCostEstimate :=
  match node with
  | .llm node => estimateLlmCost rt node contextSize
  | .tool id toolName => estimateToolCost id toolName
  | .condition _ _ _ | .loop _ _ | .parallel _ _ | .other _ _ _ => genericEstimate node.id node.type contextSize

def estimateDurationByLevel (nodes : List CostedNode) : Rat :=
  (nodes.map fun node => durationEstimates node.type * (7 / 10)).sum

/-- A later node takes the place of an earlier one with its id. -/
def nodeEstimates (nodes : List CostedNode) (contextSize : Nat) : OrderedDict String NodeCostEstimate :=
  .ofList (nodes.map fun node => (node.id,estimateNodeCost rt node contextSize))

def total {β : Type} [Add β] [Zero β] (part : NodeCostEstimate → β) (estimates : OrderedDict String NodeCostEstimate) : β :=
  (estimates.items.map fun item => part item.2).sum

def estimateWorkflowCost (nodes : List CostedNode) (contextSize : Nat := 1000) : WorkflowCostEstimate :=
  let estimates := nodeEstimates rt nodes contextSize
  { totalMinCost := total (·.minCost) estimates,totalMaxCost := total (·.maxCost) estimates,
    totalAvgCost := total (·.avgCost) estimates,totalTokenEstimate := total (·.tokenEstimate) estimates,
    totalApiCalls := total (·.apiCalls) estimates,durationEstimateSeconds := estimateDurationByLevel nodes,
    nodeEstimates := estimates,
    warnings := (nodes.filter fun node => decide ((estimateNodeCost rt node contextSize).confidence < 1 / 2)).map
      fun node => "Low confidence estimate for " ++ node.id,
    assumptions := ["Assuming ~" ++ toString contextSize ++ " tokens of context per node",
      "Costs based on current provider pricing","Actual costs may vary based on dynamic inputs"] }

/-- `est.total_avg_cost > budget_limit` of the preflight, with the estimator's own context size. -/
def exceedsBudget (nodes : List CostedNode) (budgetLimit : Option Rat) : Bool :=
  budgetLimit.any fun limit => decide (limit < (estimateWorkflowCost rt nodes).totalAvgCost)

/-! ### Minimum, average and maximum -/

def Ordered (e : NodeCostEstimate) : Prop := e.minCost ≤ e.avgCost ∧ e.avgCost ≤ e.maxCost

structure Coherent (e : WorkflowCostEstimate) : Prop where
  nodes : ∀ id estimate, e.nodeEstimates.get? id = some estimate → Ordered estimate
  minimum : e.totalMinCost ≤ e.totalAvgCost
  maximum : e.totalAvgCost ≤ e.totalMaxCost

/-- No later node has the id. -/
def Counted (nodes : List CostedNode) (node : CostedNode) : Prop :=
  ∃ before after, nodes = before ++ node :: after ∧ node.id ∉ after.map CostedNode.id

/-- What the context adds to the average stays below the maximum of the type. -/
def HasRoom (node : CostedNode) (contextSize : Nat) : Prop :=
  node.type = .llm ∨ node.type = .tool ∨
    (defaultTokenEstimates node.type).avg + contextSize ≤ (defaultTokenEstimates node.type).max

theorem llmPrice_nonneg (node : LLMNodeConfig) (contextSize : Nat) : 0 ≤ llmPrice rt node contextSize :=
  Metering.calculateCost_nonneg _ _ _ _

theorem estimateLlmCost_ordered (node : LLMNodeConfig) (contextSize : Nat) :
    Ordered (estimateLlmCost rt node contextSize) := by
  have nonneg := llmPrice_nonneg rt node contextSize
  simp only [Ordered,estimateLlmCost]
  split
  · exact ⟨by norm_num,by norm_num⟩
  · exact ⟨by linarith,by linarith⟩

theorem defaults_ordered (type : NodeType) : (defaultTokenEstimates type).min ≤ (defaultTokenEstimates type).avg := by
  cases type <;> decide

theorem costPerToken_pos : 0 < costPerToken := by norm_num [costPerToken]

theorem tokens_le (few many : Nat) : (few : Rat) * costPerToken ≤ many * costPerToken ↔ few ≤ many := by
  rw [mul_le_mul_iff_left₀ costPerToken_pos,Nat.cast_le]

theorem genericEstimate_ordered (id : String) (type : NodeType) (contextSize : Nat) :
    Ordered (genericEstimate id type contextSize) ↔
      (defaultTokenEstimates type).avg + contextSize ≤ (defaultTokenEstimates type).max := by
  have low := defaults_ordered type
  simp only [Ordered,genericEstimate,tokens_le]
  omega

theorem estimateNodeCost_generic {node : CostedNode} (llm : node.type ≠ .llm) (tool : node.type ≠ .tool)
    (contextSize : Nat) : estimateNodeCost rt node contextSize = genericEstimate node.id node.type contextSize := by
  cases node with
  | llm => exact absurd rfl llm
  | tool => exact absurd rfl tool
  | condition | loop | parallel | other => rfl

theorem estimateNodeCost_ordered (node : CostedNode) (contextSize : Nat) :
    Ordered (estimateNodeCost rt node contextSize) ↔ HasRoom node contextSize := by
  by_cases llm : node.type = .llm
  · refine iff_of_true ?_ (.inl llm)
    cases node with
    | llm node => exact estimateLlmCost_ordered rt node contextSize
    | other _ _ typed => exact absurd (llm ▸ List.mem_cons_self) typed
    | tool | condition | loop | parallel => cases llm
  by_cases tool : node.type = .tool
  · refine iff_of_true ?_ (.inr (.inl tool))
    cases node with
    | tool => exact ⟨le_refl _,le_refl _⟩
    | other _ _ typed => exact absurd (tool ▸ List.mem_cons_of_mem _ List.mem_cons_self) typed
    | llm | condition | loop | parallel => cases tool
  · rw [estimateNodeCost_generic rt llm tool,genericEstimate_ordered]
    simp only [HasRoom,llm,tool,false_or]

theorem nodeEstimates_get? (nodes : List CostedNode) (contextSize : Nat) (id : String) (e : NodeCostEstimate) :
    (nodeEstimates rt nodes contextSize).get? id = some e ↔
      ∃ node, Counted nodes node ∧ node.id = id ∧ estimateNodeCost rt node contextSize = e := by
  rw [nodeEstimates,OrderedDict.get?_ofList_eq_some]
  constructor
  · rintro ⟨before,after,parts,last⟩
    obtain ⟨first,rest,rfl,rfl,behind⟩ := List.map_eq_append_iff.mp parts
    obtain ⟨node,later,rfl,here,rfl⟩ := List.map_eq_cons_iff.mp behind
    cases here
    exact ⟨node,⟨first,later,rfl,by simpa using last⟩,rfl,rfl⟩
  · rintro ⟨node,⟨before,after,rfl,last⟩,rfl,rfl⟩
    exact ⟨_,_,List.map_append,by simpa using last⟩

theorem total_le {estimates : OrderedDict String NodeCostEstimate} {low high : NodeCostEstimate → Rat}
    (each : ∀ id e, estimates.get? id = some e → low e ≤ high e) : total low estimates ≤ total high estimates :=
  List.sum_le_sum fun item member => each item.1 item.2 ((OrderedDict.get?_eq_some estimates item.1 item.2).mpr member)

theorem coherent_iff (nodes : List CostedNode) (contextSize : Nat) :
    Coherent (estimateWorkflowCost rt nodes contextSize) ↔ ∀ node, Counted nodes node → HasRoom node contextSize := by
  constructor
  · intro coherent node counted
    exact (estimateNodeCost_ordered rt node contextSize).mp
      (coherent.nodes node.id _ ((nodeEstimates_get? rt nodes contextSize _ _).mpr ⟨node,counted,rfl,rfl⟩))
  · intro room
    have ordered : ∀ id e, (nodeEstimates rt nodes contextSize).get? id = some e → Ordered e := by
      intro id e found
      obtain ⟨node,counted,_,rfl⟩ := (nodeEstimates_get? rt nodes contextSize id e).mp found
      exact (estimateNodeCost_ordered rt node contextSize).mpr (room node counted)
    exact ⟨ordered,total_le fun id e found => (ordered id e found).1,total_le fun id e found => (ordered id e found).2⟩

/-! ### Moving a node inward -/

theorem totalAvgCost_middle (node : CostedNode) {left right : List CostedNode}
    (fresh : node.id ∉ (left ++ right).map CostedNode.id) (contextSize : Nat) :
    (estimateWorkflowCost rt (left ++ node :: right) contextSize).totalAvgCost =
      (estimateNodeCost rt node contextSize).avgCost +
        (estimateWorkflowCost rt (left ++ right) contextSize).totalAvgCost := by
  let entry (node : CostedNode) := (node.id,estimateNodeCost rt node contextSize)
  have apart : node.id ∉ (left.map entry ++ right.map entry).map Prod.fst := by
    simpa [entry,Function.comp_def] using fresh
  have perm := OrderedDict.ofList_middle_perm (estimateNodeCost rt node contextSize) apart
  simp only [estimateWorkflowCost,total,nodeEstimates,List.map_append,List.map_cons]
  exact (perm.map fun item => item.2.avgCost).sum_eq

/-- The average depends on the estimates of the nodes only. -/
theorem totalAvgCost_replaced {node filled : CostedNode} (id : filled.id = node.id) (contextSize : Nat)
    (same : estimateNodeCost rt filled contextSize = estimateNodeCost rt node contextSize)
    (before after : List CostedNode) :
    (estimateWorkflowCost rt (before ++ filled :: after) contextSize).totalAvgCost =
      (estimateWorkflowCost rt (before ++ node :: after) contextSize).totalAvgCost := by
  simp only [estimateWorkflowCost,nodeEstimates,List.map_append,List.map_cons,id,same]

theorem container_avgCost {node : CostedNode} (container : node.IsContainer) :
    2 / 1000 ≤ (estimateNodeCost rt node 1000).avgCost := by
  rcases container with is | is | is <;>
    · rw [estimateNodeCost_generic rt (by simp [is]) (by simp [is]),is]
      norm_num [genericEstimate,defaultTokenEstimates,costPerToken]

theorem llm_avgCost_le {node : LLMNodeConfig} {contextSize : Nat} {limit : Rat} (floor : 1 / 1000 ≤ limit) :
    (estimateLlmCost rt node contextSize).avgCost ≤ limit ↔ llmPrice rt node contextSize ≤ limit := by
  simp only [estimateLlmCost]
  split
  · next free =>
    rw [free.1]
    exact iff_of_true floor (by linarith)
  · rfl

theorem llm_avgCost_nonpos (node : LLMNodeConfig) (contextSize : Nat) :
    (estimateLlmCost rt node contextSize).avgCost ≤ 0 ↔
      llmPrice rt node contextSize = 0 ∧ isAllowedModel node.model = false := by
  have nonneg := llmPrice_nonneg rt node contextSize
  simp only [estimateLlmCost]
  split
  · next free => exact iff_of_false (by norm_num) fun unlisted => by simp [free.2] at unlisted
  · next priced =>
    constructor
    · intro none
      have zero : llmPrice rt node contextSize = 0 := le_antisymm none nonneg
      exact ⟨zero,Bool.eq_false_iff.mpr fun allowed => priced ⟨zero,allowed⟩⟩
    · exact fun free => free.1.le

/-- The node costs no more than any node that could hold it, and nothing where one is there to hold it. -/
structure FitsInside (node : LLMNodeConfig) (others : List CostedNode) : Prop where
  wrapped : llmPrice rt node 1000 ≤ 2 / 1000
  put : (∃ container ∈ others, container.IsContainer) → llmPrice rt node 1000 = 0 ∧ isAllowedModel node.model = false

theorem wrapped_le {node : LLMNodeConfig} {container : CostedNode} {left right : List CostedNode}
    (once : node.id ∉ (left ++ right).map CostedNode.id) (fresh : container.id ∉ (left ++ right).map CostedNode.id) :
    (estimateWorkflowCost rt (left ++ .llm node :: right)).totalAvgCost ≤
        (estimateWorkflowCost rt (left ++ container :: right)).totalAvgCost ↔
      (estimateLlmCost rt node 1000).avgCost ≤ (estimateNodeCost rt container 1000).avgCost := by
  rw [totalAvgCost_middle rt (.llm node) once,totalAvgCost_middle rt container fresh,add_le_add_iff_right]
  rfl

theorem put_le {node : LLMNodeConfig} {container filled : CostedNode} {left right before after : List CostedNode}
    (once : node.id ∉ (left ++ right).map CostedNode.id) (others : left ++ right = before ++ container :: after)
    (into : PutInto (.llm node) container filled) :
    (estimateWorkflowCost rt (left ++ .llm node :: right)).totalAvgCost ≤
        (estimateWorkflowCost rt (before ++ filled :: after)).totalAvgCost ↔
      (estimateLlmCost rt node 1000).avgCost ≤ 0 := by
  obtain ⟨id,type,holds⟩ := into.kept
  have same : estimateNodeCost rt filled 1000 = estimateNodeCost rt container 1000 := by
    rw [estimateNodeCost_generic rt holds.not_llm holds.not_tool,
      estimateNodeCost_generic rt (type ▸ holds.not_llm) (type ▸ holds.not_tool),id,type]
  rw [totalAvgCost_middle rt (.llm node) once,totalAvgCost_replaced rt id 1000 same,← others,add_le_iff_nonpos_left]
  rfl

/-- No move makes the average of the preflight smaller exactly if every LLM node that stands once fits inside. -/
theorem moves_keep_iff (nodes : List CostedNode) :
    (∀ moved, Moved nodes moved →
        (estimateWorkflowCost rt nodes).totalAvgCost ≤ (estimateWorkflowCost rt moved).totalAvgCost) ↔
      ∀ left node right, nodes = left ++ .llm node :: right → node.id ∉ (left ++ right).map CostedNode.id →
        FitsInside rt node (left ++ right) := by
  constructor
  · rintro keeps left node right rfl once
    constructor
    · let gate : CostedNode := .condition node.id [.llm node] none
      have fresh : gate.id ∉ (left ++ right).map CostedNode.id := once
      have le := (wrapped_le rt once fresh).mp (keeps _ (.wrapped once fresh rfl))
      have avg : (estimateNodeCost rt gate 1000).avgCost = 2 / 1000 := by
        norm_num [gate,estimateNodeCost,genericEstimate,CostedNode.type,defaultTokenEstimates,costPerToken]
      rw [avg] at le
      exact (llm_avgCost_le rt (by norm_num)).mp le
    · rintro ⟨container,member,holds⟩
      obtain ⟨before,after,others⟩ := List.append_of_mem member
      obtain ⟨filled,into⟩ := holds.putInto (.llm node)
      exact (llm_avgCost_nonpos rt node 1000).mp ((put_le rt once others into).mp (keeps _ (.put left before once others into)))
  · intro fits moved move
    cases move with
    | wrapped once fresh only =>
      have holds := CostedNode.isContainer_of_inner only
      have cheap := (fits _ _ _ rfl once).wrapped
      refine (wrapped_le rt once fresh).mpr ?_
      exact ((llm_avgCost_le rt (by norm_num)).mpr cheap).trans (container_avgCost rt holds)
    | put left before once others into =>
      refine (put_le rt once others into).mpr ((llm_avgCost_nonpos rt _ _).mpr ?_)
      exact (fits _ _ _ rfl once).put ⟨_,by rw [others]; simp,into.kept.2.2⟩

/-- The estimates of a workflow are in order and no LLM node can be moved below its price exactly if every node that
counts has room for the context and every LLM node that stands once fits inside. -/
theorem estimates_hold_iff (nodes : List CostedNode) (contextSize : Nat) :
    (Coherent (estimateWorkflowCost rt nodes contextSize) ∧ ∀ moved, Moved nodes moved →
        (estimateWorkflowCost rt nodes).totalAvgCost ≤ (estimateWorkflowCost rt moved).totalAvgCost) ↔
      (∀ node, Counted nodes node → HasRoom node contextSize) ∧
        ∀ left node right, nodes = left ++ .llm node :: right → node.id ∉ (left ++ right).map CostedNode.id →
          FitsInside rt node (left ++ right) :=
  and_congr (coherent_iff rt nodes contextSize) (moves_keep_iff rt nodes)

/-- What a move takes off the estimate is enough for a run that some budget refuses to be admitted. -/
theorem admitted_after_move (nodes moved : List CostedNode) :
    (∃ limit, exceedsBudget rt nodes (some limit) = true ∧ exceedsBudget rt moved (some limit) = false) ↔
      (estimateWorkflowCost rt moved).totalAvgCost < (estimateWorkflowCost rt nodes).totalAvgCost := by
  simp only [exceedsBudget,Option.any_some,decide_eq_true_eq,decide_eq_false_iff_not,not_lt]
  constructor
  · rintro ⟨limit,refused,admitted⟩
    exact admitted.trans_lt refused
  · intro smaller
    exact ⟨_,smaller,le_refl _⟩

end

def exactProducts : CostRuntime := ⟨fun n => n * 13 / 10,fun n => n * 7 / 10,fun _ => "openai"⟩

def prompt : CostedNode := .llm { id := "ask",model := "gpt-4",prompt := "Hi",provider := .openai }

/-- The average of the condition is above its maximum, and the prompt costs nothing once it is in there. -/
theorem gate_undercuts :
    ¬Coherent (estimateWorkflowCost exactProducts [prompt,.condition "gate" [] none]) ∧
      ∃ moved, Moved [prompt,.condition "gate" [] none] moved ∧
        (estimateWorkflowCost exactProducts moved).totalAvgCost <
          (estimateWorkflowCost exactProducts [prompt,.condition "gate" [] none]).totalAvgCost := by
  constructor
  · rw [coherent_iff]
    intro room
    have gate := room (.condition "gate" [] none) ⟨[prompt],[],rfl,by simp⟩
    simp [HasRoom,CostedNode.type,defaultTokenEstimates] at gate
  · refine ⟨[.condition "gate" [prompt] none],?_,by decide +kernel⟩
    exact .put [] [] (by decide) rfl (.truePath (.here [] []))

end WorkflowCostEstimator

end IceOS
