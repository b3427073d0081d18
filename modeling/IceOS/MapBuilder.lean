import IceOS.ControlFlow
import IceOS.RunTrails
import IceOS.ToolExecutor
import IceOS.WorkflowBuilder

/-! `builder.map(source).with_tool(...)`: one tool node that is a node of the workflow, the body of a loop, and connected
behind the loop. A run calls the tool for the items, and then once more for the node itself. -/
namespace IceOS

variable {ω : Type}

/-! ### The builder -/

/-- What `map` and `with_tool` are given. -/
structure MapCall where
  itemsSource : String
  nodeId : String
  toolName : String
  toolArgs : Context := .empty

namespace MapCall

variable (c : MapCall)

def loopId : String := c.nodeId ++ "_loop"

def withTool (b : WorkflowBuilder) : WorkflowBuilder :=
  ((b.addTool c.nodeId).2.addLoop c.loopId []).2.connect c.loopId c.nodeId

def config (n : BuilderNode) : NodeConfig := { id := n.id,type := n.type,dependencies := n.dependencies }

def nodes (name : String) : List NodeConfig := (c.withTool { name }).toWorkflow.2.map config

/-- The body is the builder's own node of the id, which learns of the connection, too. -/
def inner (name : String) : Inner :=
  { itemsSource := c.itemsSource
    itemVar := "item"
    body := (((c.withTool { name }).nodes.find? (·.id = c.nodeId)).map config).toList }

def toolNode : NodeConfig := { id := c.nodeId,type := .tool,dependencies := [c.loopId] }

def loopNode : NodeConfig := { id := c.loopId,type := .loop }

end MapCall

/-! ### The run -/

/-- A call of the tool: the context that its arguments are made out in, and the arguments. -/
structure ToolCall where
  context : Context
  inputs : Context

/-- The registered tools and the template engine, the validation of the tool's node, and the session. -/
structure MapRuntime (ω : Type) where
  tool : String → Except Exn (Tool ω)
  render : Option (String → Context → Except Exn String)
  validation : Option Exn
  enforcer : Budget
  currentContext : ω → Option GraphContext

namespace MapRuntime

variable (m : MapRuntime ω) (c : MapCall)

def toolRuntime : ToolRuntime ω :=
  { tool := m.tool,render := m.render,settings := fun _ => { toolName := c.toolName,toolArgs := c.toolArgs } }

/-- Where the tool or its arguments cannot be made out, it is not called. -/
def toolCalls (ctx : Context) : List ToolCall :=
  match (m.toolRuntime c).arguments c.toolNode ctx with
  | .ok (_,inputs) => [⟨ctx,inputs⟩]
  | .error _ => []

/-- Only tool nodes and loops are run; the validation of a loop asks for no schemas. -/
def executors (name : String) : ExecutorRuntime (ω × List ToolCall) where
  runtimeValidate node := if node.type = .tool then m.validation else none
  coerce _ v := .ok v
  persist _ _ w := (none,w)
  isOutputValid _ _ := true
  generate _ _ w := (.failed timeoutError,w)
  answer node ctx w :=
    let (r,world) := (m.toolRuntime c).run node ctx w.1
    ((.result { success := r.success,error := r.error,output := r.output },[]),(world,w.2 ++ m.toolCalls c ctx))
  agent _ _ _ w := (({},[]),w)
  evaluate _ _ w := (.error (valueError "Unsafe expression"),w)
  factory _ := none
  workflowInstance reference w := (.error (keyError reference),w)
  inner node := if node.type = .loop then c.inner name else {}
  enforcer := m.enforcer
  currentContext w := m.currentContext w.1
  stalls _ _ := false
  dataModel := wholeNumbers
  parse _ := none
  settings _ := { inner := .workflow "" }

/-- The calls of the tool in a run of the workflow. -/
def calls (name : String) (depth : Nat) (wf : Workflow) (w : ω) : List ToolCall :=
  ((m.executors c name).execute depth wf (w,[])).session.world.world.2

/-! ### A map -/

/-- The outputs of the tool for the items, one after another. -/
def mapItems (ctx : Context) : List Value → ω → List Value × ω
  | [],w => ([],w)
  | item :: rest,w =>
    let (r,world) := (m.toolRuntime c).run c.toolNode (ctx.set "item" item) w
    let (outputs,world) := mapItems ctx rest world
    (r.output :: outputs,world)

/-- The loop depends on nothing. -/
def loopContext (w : ω) : Context := injectMetadata (m.currentContext w) .empty

/-- The tool's own node sees what the loop came to. -/
def toolContext (outputs : List Value) (w : ω) : Context :=
  injectMetadata (m.currentContext w) (OrderedDict.empty.set c.loopId (.list outputs))

def Callable (ctx : Context) : Prop := ∃ tool inputs, (m.toolRuntime c).arguments c.toolNode ctx = .ok (tool,inputs)

/-- One call for each item, in order, with the item bound, and no other. -/
def MapsOnce (ctx : Context) (items : List Value) (made : List ToolCall) : Prop :=
  made.map (·.context) = items.map fun item => ctx.set "item" item

/-- The tool is called for every item, and not for its own node: its validation refuses it, or its arguments cannot be
made out there. -/
structure OnlyInLoop (ctx : Context) (items : List Value) (w : ω) : Prop where
  each : ∀ item ∈ items, m.Callable c (ctx.set "item" item)
  after : m.validation = none → ¬m.Callable c (m.toolContext c (m.mapItems c ctx items w).1 (m.mapItems c ctx items w).2)

end MapRuntime

/-! ### A level with one node -/

namespace Workflow

variable {σ : Type} {wf : Workflow} {eng : Engine σ} {limit index : Nat} {id : String} {node : NodeConfig} {s : RunState σ}
  {cache : ActiveCache}

theorem pendingRecursions_none (steady : ∀ id node, wf.nodes.get? id = some node → node.type ≠ .recursive)
    (items : List (String × NodeExecutionResult)) : wf.pendingRecursions items = [] := by
  rw [pendingRecursions,List.flatMap_eq_nil_iff]
  rintro ⟨id,result⟩ -
  dsimp only
  cases known : wf.nodes.get? id with
  | none => rfl
  | some node => exact if_neg fun both => steady id node known both.1

/-- The node is run and its outcome booked. -/
theorem levelStep_single (shallow : wf.depthStop index = none)
    (active : activeIds wf.graph limit [id] s.activeCache = some ([id],cache)) (known : wf.nodes.get? id = some node)
    (running : eng.stalls [node] s.world = false)
    (steady : ∀ id node, wf.nodes.get? id = some node → node.type ≠ .recursive) :
    wf.levelStep eng limit ⟨index,[id],s⟩ =
      match wf.bookEntries (OrderedDict.ofList [fileOutcome (node.id,(processNode eng node []
        { s with activeCache := cache }).1)]).items (processNode eng node [] { s with activeCache := cache }).2 with
      | .next t | .aborted t => wf.goOn t
      | .raised e t => .raised e t := by
  simp only [levelStep,runLevel,shallow,active,List.filterMap_cons,known,List.filterMap_nil,running,executeLevel,gather,
    handleRecursiveFlows,pendingRecursions_none steady,List.map_cons,List.map_nil,bookLevel,List.foldlM_nil,pure,Except.pure,
    Except.map,Bool.false_eq_true,if_false]
  cases wf.bookEntries (OrderedDict.ofList [fileOutcome (node.id,(processNode eng node []
    { s with activeCache := cache }).1)]).items (processNode eng node [] { s with activeCache := cache }).2 <;> rfl

/-- A result that counts no tokens and decides nothing is recorded. -/
theorem levelStep_single_next {result : NodeExecutionResult} {t : RunState σ} (shallow : wf.depthStop index = none)
    (active : activeIds wf.graph limit [id] s.activeCache = some ([id],cache)) (known : wf.nodes.get? id = some node)
    (running : eng.stalls [node] s.world = false)
    (steady : ∀ id node, wf.nodes.get? id = some node → node.type ≠ .recursive)
    (ran : processNode eng node [] { s with activeCache := cache } = (.ok result,t)) (fine : result.success = true)
    (free : result.usage = none) (plain : node.type ≠ .condition) (clean : t.errors = []) :
    wf.levelStep eng limit ⟨index,[id],s⟩ = .next (t.record id result) := by
  have own := wf.own id node known
  have decided : recordDecision node id result.output (t.record id result) = t.record id result := by
    rw [recordDecision]
    split
    · next type _ => exact absurd type plain
    · rfl
  have booked : wf.bookEntries [(id,result)] t = .next (t.record id result) := by
    simp [bookEntries,bookEntry,metered,fine,free,bookOutcome,known,decided]
  rw [levelStep_single shallow active known running steady,ran,own]
  change (match wf.bookEntries [(id,result)] t with
    | .next t | .aborted t => wf.goOn t
    | .raised e t => .raised e t) = _
  rw [booked]
  exact if_neg fun wrong => wrong.1 clean

theorem levelStep_single_world (shallow : wf.depthStop index = none)
    (active : activeIds wf.graph limit [id] s.activeCache = some ([id],cache)) (known : wf.nodes.get? id = some node)
    (running : eng.stalls [node] s.world = false)
    (steady : ∀ id node, wf.nodes.get? id = some node → node.type ≠ .recursive) :
    (wf.levelStep eng limit ⟨index,[id],s⟩).state.world =
      (processNode eng node [] { s with activeCache := cache }).2.world := by
  have counted (entries : List (String × NodeExecutionResult)) (t : RunState σ) :
      (wf.bookEntries entries t).state.world = t.world := congrArg Prod.snd (bookEntries_counts wf entries t).1
  rw [levelStep_single shallow active known running steady]
  split
  · next t booked =>
    rw [goOn_state]
    exact (congrArg (fun b : Booked σ => b.state.world) booked).symm.trans (counted _ _)
  · next t booked =>
    rw [goOn_state]
    exact (congrArg (fun b : Booked σ => b.state.world) booked).symm.trans (counted _ _)
  · next e t booked => exact (congrArg (fun b : Booked σ => b.state.world) booked).symm.trans (counted _ _)

theorem processNode_ok {ctx : Context} {outcome : Except Exn NodeExecutionResult} {u : σ}
    (built : buildNodeContext (eng.currentContext s.world) node s.results = .ok ctx)
    (ran : eng.executeNode node ctx s.world = (outcome,u)) :
    processNode eng node [] s = (outcome,{ s.log node.id (endingOf outcome) with world := u }) := by
  have whole : ctx.update [] = ctx := rfl
  simp only [processNode,built,whole,ran]

end Workflow

/-! ### A node that is answered with a result -/

namespace ExecutorRuntime

theorem finish_result {σ : Type} (rt : ExecutorRuntime σ) (node : NodeConfig) (r : NodeExecutionResult) (t : Running σ) :
    (rt.finish node (.result r) t).2.world.world = t.world.world ∧
      ((t.budget.register node.type ((r.usage.map (·.cost)).getD 0)).1 = none → (rt.finish node (.result r) t).1 = .ok r) := by
  rcases charged : t.budget.register node.type ((r.usage.map (·.cost)).getD 0) with ⟨violation,budget⟩
  simp only [finish,NodeExecutor.finish,NodeExecutor.chargeFor,charged]
  cases violation with
  | none => exact ⟨rfl,fun _ => rfl⟩
  | some e => exact ⟨rfl,fun none => by cases none⟩

/-- A node that is not tried again, and that is answered with a result. -/
theorem executeNode_result {σ : Type} {rt : ExecutorRuntime σ} {call : Running σ → Reply × Running σ} {s t : Running σ}
    {r : NodeExecutionResult} (id : String) (node : NodeConfig) (once : NodeExecutor.maxRetries node = 0)
    (policy : FailurePolicy) (called : call s = (.result r,t)) :
    (rt.executeNode call id node policy s).2.world.world =
      (if rt.runtimeValidate node = none then t.world.world else s.world.world) ∧
      (rt.runtimeValidate node = none → (t.budget.register node.type ((r.usage.map (·.cost)).getD 0)).1 = none →
        (rt.executeNode call id node policy s).1 = .ok r) := by
  have finished : rt.rounds call id node 0 s = rt.finish node (.result r) t := by
    rw [rounds,once,dispatch,called]
  rw [executeNode]
  cases rt.runtimeValidate node with
  | some e =>
    refine ⟨?_,fun none => by cases none⟩
    dsimp only
    split <;> rfl
  | none =>
    dsimp only
    obtain ⟨left,fine⟩ := finish_result rt node r t
    rw [once,finished]
    rcases finished : rt.finish node (.result r) t with ⟨outcome,u⟩
    rw [finished] at left fine
    cases outcome with
    | ok value =>
      refine ⟨left,fun _ cheap => fine cheap⟩
    | error e =>
      refine ⟨?_,fun _ cheap => by cases fine cheap⟩
      dsimp only
      split <;> exact left

end ExecutorRuntime

/-! ### What is built -/

namespace MapCall

variable (c : MapCall)

theorem loopId_ne : c.loopId ≠ c.nodeId := by
  intro same
  have lengths := congrArg String.length same
  simp [loopId] at lengths

theorem withTool_nodes (name : String) : (c.withTool { name }).nodes =
    [{ id := c.nodeId,type := .tool,dependencies := [c.loopId] },{ id := c.loopId,type := .loop }] := by
  simp [withTool,WorkflowBuilder.addTool,WorkflowBuilder.addLoop,WorkflowBuilder.append,BuilderNode.selfDependent,
    WorkflowBuilder.connect,WorkflowBuilder.depend,c.loopId_ne]

theorem nodes_eq (name : String) : c.nodes name = [c.toolNode,c.loopNode] := by
  rw [nodes,WorkflowBuilder.toWorkflow,c.withTool_nodes]
  rfl

theorem inner_body (name : String) : (c.inner name).body = [c.toolNode] := by
  rw [inner,c.withTool_nodes]
  simp [config,toolNode]

/-- The blueprint has the same nodes. -/
theorem build_nodes (name : String) :
    (c.withTool { name }).build.1 = .ok ⟨(c.withTool { name }).toWorkflow.2,name,"1.1.0"⟩ := by
  have kept : (c.withTool { name }).name = name ∧ (c.withTool { name }).edges = [(c.loopId,c.nodeId)] := by
    simp [withTool,WorkflowBuilder.addTool,WorkflowBuilder.addLoop,WorkflowBuilder.append,BuilderNode.selfDependent,
      WorkflowBuilder.connect]
  have applied : (c.withTool { name }).applyConnections.nodes = (c.withTool { name }).nodes := by
    rw [WorkflowBuilder.applyConnections,kept.2,c.withTool_nodes]
    simp [WorkflowBuilder.depend,c.loopId_ne]
  have whole : WorkflowBuilder.missing (c.withTool { name }).nodes = none := by
    rw [c.withTool_nodes]
    simp [WorkflowBuilder.missing]
  have named : (c.withTool { name }).applyConnections.name = name := kept.1
  simp only [WorkflowBuilder.build,applied,whole,named,WorkflowBuilder.toWorkflow]

variable {c}

/-- The loop is on a level of its own before the tool. -/
theorem levels_eq {nx : Networkx} {checks : List NodeConfig → Except Exn Unit} {settings : Settings} {name : String}
    {wf : Workflow} (made : Workflow.new nx checks settings (c.nodes name) = .ok wf) :
    wf.levels = [[c.loopId],[c.nodeId]] ∧ wf.graph.graph.Acyclic ∧ wf.graph.graph.edges.length ≤ 1 := by
  rw [c.nodes_eq,Workflow.new] at made
  split at made
  · cases made
  · cases made
  · next _ graph built _ =>
    cases made
    obtain ⟨drawn,leveled⟩ := DependencyGraph.new_eq_ok built
    have edge (u v : String) : graph.graph.Edge u v ↔ u = c.loopId ∧ v = c.nodeId := by
      rw [DependencyGraph.buildGraph_edge_iff drawn]
      constructor
      · rintro ⟨node,member,rfl,depends⟩
        simp only [List.mem_cons,List.not_mem_nil,or_false] at member
        rcases member with rfl | rfl
        · exact ⟨List.mem_singleton.mp depends,rfl⟩
        · cases depends
      · rintro ⟨rfl,rfl⟩
        exact ⟨c.toolNode,List.mem_cons_self,rfl,List.mem_singleton.mpr rfl⟩
    have acyclic : graph.graph.Acyclic := by
      refine graph.graph.acyclic_of_numbering (fun id => if id = c.nodeId then 1 else 0) fun e member => ?_
      obtain ⟨source,target⟩ := (edge e.1 e.2).mp member
      rw [if_neg (source ▸ c.loopId_ne),if_pos target]
      exact Nat.zero_lt_one
    refine ⟨?_,acyclic,?_⟩
    · have distinct : [c.nodeId,c.loopId].Nodup := by simp [c.loopId_ne.symm]
      obtain ⟨a,b,items⟩ : ∃ a b, graph.nodeLevels.items = [(c.nodeId,a),(c.loopId,b)] := by
        rw [leveled,DependencyGraph.assignLevels]
        refine ⟨_,_,OrderedDict.ofList_items _ ?_⟩
        exact distinct
      have tool : graph.level c.nodeId = a := by
        rw [DependencyGraph.level,(graph.nodeLevels.get?_eq_some _ a).mpr (by simp [items])]
        rfl
      have loop : graph.level c.loopId = b := by
        rw [DependencyGraph.level,(graph.nodeLevels.get?_eq_some _ b).mpr (by simp [items])]
        rfl
      have found : (OrderedDict.ofList ([c.toolNode,c.loopNode].map fun node => (node.id,node))).get? c.nodeId =
          some c.toolNode := by
        rw [OrderedDict.get?_eq_some,OrderedDict.ofList_items]
        · exact List.mem_cons_self
        · exact distinct
      have rising : b < a := by
        rw [← tool,← loop]
        exact DependencyGraph.level_rising built acyclic found (List.mem_singleton.mpr rfl)
      change graph.sortedLevels = _
      rw [DependencyGraph.sortedLevels,DependencyGraph.getLevelNodes,items]
      have filed : ([(c.nodeId,a),(c.loopId,b)].foldl DependencyGraph.fileNode .empty).items =
          [(a,[c.nodeId]),(b,[c.loopId])] := by
        simp [DependencyGraph.fileNode,OrderedDict.set,OrderedDict.insert,OrderedDict.empty,OrderedDict.get?,rising.ne',
          OrderedDict.lookup_cons_other [c.nodeId] [] rising.ne]
      rw [filed]
      simp [not_le.mpr rising]
    · have nodup := DependencyGraph.buildGraph_edges_nodup drawn
      have subset : graph.graph.edges ⊆ [(c.loopId,c.nodeId)] := fun e member =>
        List.mem_singleton.mpr (Prod.ext_iff.mpr ((edge e.1 e.2).mp member))
      exact (nodup.subperm subset).length_le

end MapCall

namespace MapRuntime

variable {m : MapRuntime ω} {c : MapCall} {name : String}

theorem toolCalls_eq (ctx : Context) :
    (m.Callable c ctx ∧ (m.toolCalls c ctx).map (·.context) = [ctx]) ∨ ¬m.Callable c ctx ∧ m.toolCalls c ctx = [] := by
  rw [Callable,toolCalls]
  cases made : (m.toolRuntime c).arguments c.toolNode ctx with
  | error e =>
    refine .inr ⟨?_,rfl⟩
    rintro ⟨tool,inputs,other⟩
    cases other
  | ok arguments => exact .inl ⟨⟨arguments.1,arguments.2,rfl⟩,rfl⟩

/-- What the calls for the items are. -/
def itemCalls (m : MapRuntime ω) (c : MapCall) (ctx : Context) (items : List Value) : List ToolCall :=
  items.flatMap fun item => m.toolCalls c (ctx.set "item" item)

variable (m c name) in
/-- The body runs the tool. -/
theorem runBody_tool (depth : Nat) (wf : Workflow) (ctx : Context) (s : Running (ω × List ToolCall)) :
    let ran := (m.toolRuntime c).run c.toolNode ctx s.world.world.1
    let ended := ExecutorRuntime.runBody ((m.executors c name).invoke (depth + 1) wf) [c.toolNode] ctx .none s
    ended.1 = .ok ran.1.output ∧ ended.2.world.world = (ran.2,s.world.world.2 ++ m.toolCalls c ctx) := ⟨rfl,rfl⟩

variable (m c name) in
/-- The loop maps the items. -/
theorem iterate_maps (depth : Nat) (wf : Workflow) (ctx : Context) (items : List Value) (s : Running (ω × List ToolCall)) :
    let ended := ExecutorRuntime.iterate ((m.executors c name).invoke (depth + 1) wf) (c.inner name) ctx items s
    ended.1 = .ok (m.mapItems c ctx items s.world.world.1).1 ∧ ended.2.world.world =
      ((m.mapItems c ctx items s.world.world.1).2,s.world.world.2 ++ m.itemCalls c ctx items) := by
  induction items generalizing s with
  | nil => exact ⟨rfl,by simp [ExecutorRuntime.iterate,mapItems,itemCalls]⟩
  | cons item rest ih =>
    obtain ⟨returned,left⟩ := runBody_tool m c name depth wf (ctx.set "item" item) s
    simp only [ExecutorRuntime.iterate,c.inner_body]
    rw [show ExecutorRuntime.itemName (c.inner name) = "item" from rfl]
    rcases ran : ExecutorRuntime.runBody ((m.executors c name).invoke (depth + 1) wf) [c.toolNode] (ctx.set "item" item)
      .none s with ⟨outcome,t⟩
    rw [ran] at returned left
    dsimp only at returned left
    rw [returned]
    obtain ⟨outputs,after⟩ := ih t
    rw [left] at outputs after
    dsimp only
    rcases went : ExecutorRuntime.iterate ((m.executors c name).invoke (depth + 1) wf) (c.inner name) ctx rest t with
      ⟨later,u⟩
    rw [went] at outputs after
    dsimp only at outputs after
    rw [outputs]
    refine ⟨rfl,after.trans ?_⟩
    simp [mapItems,itemCalls]

variable {w : ω} {items : List Value} {depth : Nat} {wf : Workflow}

variable (m c name depth wf) in
/-- The loop's node: what it comes to, and what it leaves behind. -/
theorem execute_loop (policy : FailurePolicy) (s : Running (ω × List ToolCall)) {ctx : Context}
    (found : ContextBuilder.resolveNestedPath (.dict ctx.items) c.itemsSource = .ok (.list items)) :
    let ended := (m.executors c name).executeNode ((m.executors c name).invoke (depth + 2) wf c.loopNode ctx) c.loopId
      c.loopNode policy s
    ended.1 = .ok (ExecutorRuntime.resultOf (.list (m.mapItems c ctx items s.world.world.1).1)) ∧ ended.2.world.world =
      ((m.mapItems c ctx items s.world.world.1).2,s.world.world.2 ++ m.itemCalls c ctx items) := by
  have named : c.itemsSource ≠ "" := by
    intro empty
    rw [empty,ContextBuilder.resolveNestedPath,if_pos (.inl rfl)] at found
    cases found
  have listed : ExecutorRuntime.loopItems (c.inner name) ctx = .ok items := by
    simp only [ExecutorRuntime.loopItems,MapCall.inner,if_neg named,found]
  obtain ⟨outputs,after⟩ := iterate_maps m c name depth wf ctx items s
  rcases went : ExecutorRuntime.iterate ((m.executors c name).invoke (depth + 1) wf) (c.inner name) ctx items s with
    ⟨outcome,t⟩
  rw [went] at outputs after
  dsimp only at outputs after
  have called : (m.executors c name).invoke (depth + 2) wf c.loopNode ctx s =
      (.result (ExecutorRuntime.resultOf (.list (m.mapItems c ctx items s.world.world.1).1)),t) := by
    have loops : (m.executors c name).invoke (depth + 2) wf c.loopNode ctx s =
        (m.executors c name).loopOverItems ((m.executors c name).invoke (depth + 1) wf) c.loopNode ctx s := rfl
    rw [loops,ExecutorRuntime.loopOverItems,show (m.executors c name).inner c.loopNode = c.inner name from rfl,listed]
    dsimp only
    rw [went,outputs]
  obtain ⟨left,fine⟩ := ExecutorRuntime.executeNode_result c.loopId c.loopNode rfl policy called
  exact ⟨fine rfl rfl,left.trans after⟩

/-- The tool's own node: the call that it adds. -/
theorem execute_tool (policy : FailurePolicy) (ctx : Context) (s : Running (ω × List ToolCall)) :
    ((m.executors c name).executeNode ((m.executors c name).invoke (depth + 2) wf c.toolNode ctx) c.nodeId c.toolNode policy
      s).2.world.world.2 = s.world.world.2 ++ if m.validation = none then m.toolCalls c ctx else [] := by
  obtain ⟨r,t,called,left⟩ : ∃ r t, (m.executors c name).invoke (depth + 2) wf c.toolNode ctx s = (.result r,t) ∧
      t.world.world.2 = s.world.world.2 ++ m.toolCalls c ctx := ⟨_,_,rfl,rfl⟩
  have validated : (m.executors c name).runtimeValidate c.toolNode = m.validation := rfl
  rw [(ExecutorRuntime.executeNode_result c.nodeId c.toolNode rfl policy called).1,validated]
  split
  · exact left
  · exact (List.append_nil _).symm

/-! ### The two levels -/

section

variable {nx : Networkx} {checks : List NodeConfig → Except Exn Unit} {settings : Settings}

theorem nodes_known (made : Workflow.new nx checks settings (c.nodes name) = .ok wf) :
    wf.nodes.get? c.nodeId = some c.toolNode ∧ wf.nodes.get? c.loopId = some c.loopNode ∧
      ∀ id node, wf.nodes.get? id = some node → node.type ≠ .recursive := by
  have nodes := Workflow.new_nodes made
  have distinct : [c.nodeId,c.loopId].Nodup := by simp [c.loopId_ne.symm]
  have entries : wf.nodes.items = [(c.nodeId,c.toolNode),(c.loopId,c.loopNode)] := by
    rw [nodes,c.nodes_eq,nodesById,OrderedDict.ofList_items]
    · rfl
    · exact distinct
  simp only [OrderedDict.get?_eq_some,entries]
  refine ⟨List.mem_cons_self,List.mem_cons_of_mem _ List.mem_cons_self,fun id node member => ?_⟩
  simp only [List.mem_cons,List.not_mem_nil,or_false,Prod.mk.injEq] at member
  rcases member with ⟨-,rfl⟩ | ⟨-,rfl⟩
  · exact fun same => by cases same
  · exact fun same => by cases same

variable (depth) in
/-- The loop's level: its outputs are recorded. -/
theorem loop_level (made : Workflow.new nx checks settings (c.nodes name) = .ok wf) (shallow : wf.depthStop 1 = none)
    (found : ContextBuilder.resolveNestedPath (.dict (m.loopContext w).items) c.itemsSource = .ok (.list items)) :
    let rt := m.executors c name
    ∃ t, wf.levelStep (rt.engine false (rt.invoke (depth + 2)) wf) (depth + 3)
        ⟨1,[c.loopId],Workflow.initialState (rt.beginning (w,[]))⟩ = .next t ∧
      t.results = OrderedDict.empty.set c.loopId
        (ExecutorRuntime.resultOf (.list (m.mapItems c (m.loopContext w) items w).1)) ∧
      t.world.world.world = ((m.mapItems c (m.loopContext w) items w).2,m.itemCalls c (m.loopContext w) items) ∧
      AllActive t.activeCache := by
  intro rt
  obtain ⟨-,acyclic,few⟩ := MapCall.levels_eq made
  obtain ⟨-,known,steady⟩ := nodes_known made
  have deep : wf.graph.graph.edges.length < depth + 3 := by omega
  obtain ⟨cache,active,all⟩ := Workflow.activeIds_acyclic wf.graph acyclic deep [c.loopId] .empty allActive_empty
  obtain ⟨outcome,left⟩ := execute_loop m c name depth wf wf.failurePolicy (rt.beginning (w,[])) found
  let eng := rt.engine false (rt.invoke (depth + 2)) wf
  let result := ExecutorRuntime.resultOf (.list (m.mapItems c (m.loopContext w) items w).1)
  rcases ran : eng.executeNode c.loopNode (m.loopContext w) (rt.beginning (w,[])) with ⟨looped,u⟩
  have value : looped = .ok result := (congrArg Prod.fst ran).symm.trans outcome
  have after : u.world.world = ((m.mapItems c (m.loopContext w) items w).2,m.itemCalls c (m.loopContext w) items) :=
    (congrArg (fun ended => ended.2.world.world) ran).symm.trans left
  subst value
  have processed : Workflow.processNode eng c.loopNode []
      { Workflow.initialState (rt.beginning (w,[])) with activeCache := cache } = (.ok result,_) :=
    Workflow.processNode_ok rfl ran
  exact ⟨_,Workflow.levelStep_single_next shallow active known rfl steady processed rfl rfl (fun same => by cases same) rfl,
    rfl,after,all⟩

variable (m depth) in
/-- The tool's level: its call comes on top. -/
theorem tool_level (made : Workflow.new nx checks settings (c.nodes name) = .ok wf) (shallow : wf.depthStop 2 = none)
    {outputs : List Value} {s : RunState (Running (ω × List ToolCall))} (all : AllActive s.activeCache)
    (looped : s.results = OrderedDict.empty.set c.loopId (ExecutorRuntime.resultOf (.list outputs))) :
    let rt := m.executors c name
    (wf.levelStep (rt.engine false (rt.invoke (depth + 2)) wf) (depth + 3) ⟨2,[c.nodeId],s⟩).state.world.world.world.2 =
      s.world.world.world.2 ++
        if m.validation = none then m.toolCalls c (m.toolContext c outputs s.world.world.world.1) else [] := by
  intro rt
  obtain ⟨-,acyclic,few⟩ := MapCall.levels_eq made
  obtain ⟨known,-,steady⟩ := nodes_known made
  have deep : wf.graph.graph.edges.length < depth + 3 := by omega
  obtain ⟨cache,active,-⟩ := Workflow.activeIds_acyclic wf.graph acyclic deep [c.nodeId] s.activeCache all
  rw [Workflow.levelStep_single_world shallow active known rfl steady]
  let eng := rt.engine false (rt.invoke (depth + 2)) wf
  have exposed : exposeDependency s.results .empty c.loopId = OrderedDict.empty.set c.loopId (.list outputs) := by
    rw [looped,exposeDependency,OrderedDict.get?_set_same]
    rfl
  have built : buildNodeContext (eng.currentContext s.world) c.toolNode s.results =
      .ok (m.toolContext c outputs s.world.world.world.1) := by
    change Except.ok (injectMetadata _ (exposeDependency s.results .empty c.loopId)) = _
    rw [exposed]
    rfl
  rcases ran : eng.executeNode c.toolNode (m.toolContext c outputs s.world.world.world.1) s.world with ⟨outcome,u⟩
  rw [Workflow.processNode_ok (s := { s with activeCache := cache }) built ran]
  exact (congrArg (fun ended => ended.2.world.world.2) ran).symm.trans
    (execute_tool wf.failurePolicy (m.toolContext c outputs s.world.world.world.1) s.world)

/-- The calls for the items, and then the one for the tool's own node. -/
theorem run_calls (made : Workflow.new nx checks settings (c.nodes name) = .ok wf)
    (first : wf.depthStop 1 = none) (second : wf.depthStop 2 = none)
    (found : ContextBuilder.resolveNestedPath (.dict (m.loopContext w).items) c.itemsSource = .ok (.list items)) :
    m.calls c name (depth + 2) wf w = m.itemCalls c (m.loopContext w) items ++
      if m.validation = none then
        m.toolCalls c (m.toolContext c (m.mapItems c (m.loopContext w) items w).1 (m.mapItems c (m.loopContext w) items w).2)
      else [] := by
  obtain ⟨t,mapped,looped,left,all⟩ := loop_level depth made first found
  have called := tool_level m depth made second all looped
  rw [left] at called
  refine Eq.trans ?_ called
  change ((wf.runAll ((m.executors c name).engine false ((m.executors c name).invoke (depth + 2)) wf) (depth + 3)
    ((m.executors c name).beginning (w,[]))).state.world.world.world).2 = _
  rw [Workflow.runAll,(MapCall.levels_eq made).1,Workflow.runLevels,mapped]
  dsimp only
  rw [Workflow.runLevels]
  split
  · next u went =>
    rw [went]
    rfl
  · rfl

theorem callable_of_mem {ctx : Context} {call : ToolCall} (member : call ∈ m.toolCalls c ctx) : m.Callable c call.context := by
  have listed := List.mem_map_of_mem (f := (·.context)) member
  rcases toolCalls_eq (m := m) (c := c) ctx with ⟨callable,contexts⟩ | ⟨-,none⟩
  · rw [contexts,List.mem_singleton] at listed
    exact listed ▸ callable
  · rw [none] at member
    cases member

theorem itemCalls_contexts {ctx : Context} (each : ∀ item ∈ items, m.Callable c (ctx.set "item" item)) :
    (m.itemCalls c ctx items).map (·.context) = items.map fun item => ctx.set "item" item := by
  induction items with
  | nil => rfl
  | cons item rest ih =>
    rw [itemCalls,List.flatMap_cons,List.map_append,List.map_cons]
    rcases toolCalls_eq (m := m) (c := c) (ctx.set "item" item) with ⟨-,contexts⟩ | ⟨refused,-⟩
    · rw [contexts]
      exact congrArg _ (ih fun other member => each other (List.mem_cons_of_mem _ member))
    · exact absurd (each item List.mem_cons_self) refused

/-- The tool is called once for each item and no more exactly if it can be called for every item and then not again. -/
theorem mapsOnce_iff (made : Workflow.new nx checks settings (c.nodes name) = .ok wf)
    (first : wf.depthStop 1 = none) (second : wf.depthStop 2 = none)
    (found : ContextBuilder.resolveNestedPath (.dict (m.loopContext w).items) c.itemsSource = .ok (.list items)) :
    MapsOnce (m.loopContext w) items (m.calls c name (depth + 2) wf w) ↔
      m.OnlyInLoop c (m.loopContext w) items w := by
  rw [MapsOnce,run_calls made first second found]
  constructor
  · intro once
    -- Whatever is called can be called, so every item is.
    have each : ∀ item ∈ items, m.Callable c ((m.loopContext w).set "item" item) := by
      intro item member
      have called := List.mem_map_of_mem (f := fun item => (m.loopContext w).set "item" item) member
      rw [← once] at called
      obtain ⟨call,logged,context⟩ := List.mem_map.mp called
      rw [← context]
      rcases List.mem_append.mp logged with inLoop | behind
      · obtain ⟨other,-,logged⟩ := List.mem_flatMap.mp inLoop
        exact callable_of_mem logged
      · split at behind
        · exact callable_of_mem behind
        · cases behind
    refine ⟨each,fun valid callable => ?_⟩
    rw [List.map_append,itemCalls_contexts each,List.append_right_eq_self,List.map_eq_nil_iff,if_pos valid] at once
    rcases toolCalls_eq (m := m) (c := c) (m.toolContext c (m.mapItems c (m.loopContext w) items w).1
      (m.mapItems c (m.loopContext w) items w).2) with ⟨-,contexts⟩ | ⟨refused,-⟩
    · rw [once] at contexts
      cases contexts
    · exact refused callable
  · rintro ⟨each,after⟩
    rw [List.map_append,itemCalls_contexts each]
    split
    · next valid =>
      rcases toolCalls_eq (m := m) (c := c) (m.toolContext c (m.mapItems c (m.loopContext w) items w).1
        (m.mapItems c (m.loopContext w) items w).2) with ⟨callable,-⟩ | ⟨-,none⟩
      · exact absurd callable (after valid)
      · rw [none]
        exact List.append_nil _
    · exact List.append_nil _

end

end MapRuntime

/-! ### Two maps -/

/-- A template engine that knows one template, and no default for what is undefined. -/
def renderItem (template : String) (ctx : Context) : Except Exn String :=
  if template = "\x7b\x7b item \x7d\x7d" then
    match ctx.get? "item" with
    | some (.str text) => .ok text
    | _ => .error ⟨"'item' is undefined","UndefinedError(\"'item' is undefined\")"⟩
  else .ok template

def greeter : MapRuntime Unit where
  tool _ := .ok { parameters := [],execute := fun inputs w => (.value (.dict inputs.items),w) }
  render := some renderItem
  validation := none
  enforcer := { maximum := budgetDefaults,failClosed := true }
  currentContext _ := some { sessionId := "morning",metadata := [("names",.list [.str "Ada",.str "Bo"])] }

/-- The item goes to the tool with the rest of the context. -/
def greeting : MapCall := { itemsSource := "names",nodeId := "greet",toolName := "greeter" }

def namedGreeting : MapCall :=
  { greeting with toolArgs := OrderedDict.ofList [("name",.str "\x7b\x7b item \x7d\x7d")] }

def greetingWorkflow : Workflow := .ofNodes {} (greeting.nodes "greetings") (by decide +kernel)

theorem greetingWorkflow_made :
    Workflow.new .direct (fun _ => .ok ()) {} (greeting.nodes "greetings") = .ok greetingWorkflow :=
  Workflow.ofNodes_made _ _ _

theorem greeter_names : ContextBuilder.resolveNestedPath (.dict (greeter.loopContext ()).items) "names" =
    .ok (.list [.str "Ada",.str "Bo"]) := rfl

/-- Two names, three greetings: the last one for nobody. -/
theorem greeting_repeated :
    Workflow.new .direct (fun _ => .ok ()) {} (greeting.nodes "greetings") = .ok greetingWorkflow ∧
      ContextBuilder.resolveNestedPath (.dict (greeter.loopContext ()).items) greeting.itemsSource =
        .ok (.list [.str "Ada",.str "Bo"]) ∧
      (greeter.calls greeting "greetings" 2 greetingWorkflow ()).map (·.context.get? "item") =
        [some (.str "Ada"),some (.str "Bo"),none] ∧
      ¬MapRuntime.MapsOnce (greeter.loopContext ()) [.str "Ada",.str "Bo"]
        (greeter.calls greeting "greetings" 2 greetingWorkflow ()) := by
  have called : greeter.calls greeting "greetings" 2 greetingWorkflow () = _ :=
    MapRuntime.run_calls greetingWorkflow_made rfl rfl greeter_names
  refine ⟨greetingWorkflow_made,greeter_names,?_,?_⟩
  · rw [called]
    rfl
  · rw [called]
    intro once
    exact absurd (congrArg List.length once) (by decide)

/-- Its template keeps the tool's own node from being called. -/
theorem namedGreeting_once :
    MapRuntime.MapsOnce (greeter.loopContext ()) [.str "Ada",.str "Bo"]
      (greeter.calls namedGreeting "greetings" 2 greetingWorkflow ()) := by
  refine (MapRuntime.mapsOnce_iff (c := namedGreeting) greetingWorkflow_made rfl rfl greeter_names).mpr ⟨?_,fun _ => ?_⟩
  · intro item member
    simp only [List.mem_cons,List.not_mem_nil,or_false] at member
    rcases member with rfl | rfl
    · exact ⟨_,_,rfl⟩
    · exact ⟨_,_,rfl⟩
  · rintro ⟨tool,inputs,ok⟩
    cases ok

end IceOS
