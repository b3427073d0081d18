import IceOS.BranchGating
import IceOS.ChainValidator
import IceOS.NodeExecutor

/-! `Workflow.execute`: levels run one after another, the nodes of a level as gathered
coroutines, recursive flows after them. Everything around it is an engine: executors,
shared state and the schedule. The coroutines of a level all read the results of earlier
levels, so they are run in list order and their interleaving is left to the engine. -/
namespace IceOS

/-- What the workflow runs on. `stalls` says that the coroutines of a level never finish. -/
structure Engine (σ : Type) where
  executeNode : NodeConfig → Context → σ → Except Exn NodeExecutionResult × σ
  currentContext : σ → Option GraphContext
  stalls : List NodeConfig → σ → Bool

/-- The engine in which `execute_node` is the node executor. -/
def NodeExecutor.engine (x : Executors ω) (policy : FailurePolicy) (current : ω → Option GraphContext)
    (stalls : List NodeConfig → ω → Bool) : Engine (Session ω) where
  executeNode := NodeExecutor.executeNode x policy
  currentContext s := current s.world
  stalls nodes s := stalls nodes s.world

/-- The constructor's arguments besides the nodes. -/
structure Settings where
  maxParallel : Nat := 5
  failurePolicy : FailurePolicy := .continuePossible
  tokenCeiling : Option Nat := none
  depthCeiling : Option Nat := none
  tokenGuard : Option (Nat → Option Nat → Bool) := none
  depthGuard : Option (Nat → Option Nat → Bool) := none

/-- A constructed workflow: nodes are filed under their own ids, each in one level, and on an
acyclic graph above the nodes it depends on. -/
structure Workflow extends Settings where
  nodes : OrderedDict String NodeConfig
  graph : DependencyGraph
  levels : List (List String)
  own : ∀ id node, nodes.get? id = some node → node.id = id
  covers : ∀ id, id ∈ levels.flatten ↔ id ∈ nodes.keys
  distinct : levels.flatten.Nodup
  listed : ∀ id, id ∈ graph.graph.nodes ↔ id ∈ nodes.keys
  flat : ∀ ids ∈ levels, ∀ id ∈ ids, ∀ other ∈ ids, graph.level id = graph.level other
  rising : graph.graph.Acyclic → ∀ id node, nodes.get? id = some node → ∀ dep ∈ node.dependencies,
    graph.level dep < graph.level id

def nodesById (nodes : List NodeConfig) : OrderedDict String NodeConfig :=
  .ofList (nodes.map fun node => (node.id,node))

theorem mem_nodesById (nodes : List NodeConfig) (id : String) :
    id ∈ (nodesById nodes).keys ↔ id ∈ nodes.map (·.id) := by
  simp [nodesById]

/-- `checks` are the validations that only accept or refuse the nodes. -/
def Workflow.new (nx : Networkx) (checks : List NodeConfig → Except Exn Unit) (settings : Settings)
    (nodes : List NodeConfig) : Except Exn Workflow :=
  match made : DependencyGraph.new nx nodes,checks nodes with
  | .error e,_ | _,.error e => .error e
  | .ok graph,.ok () => .ok
    { settings with
      nodes := nodesById nodes
      graph
      levels := graph.sortedLevels
      own := fun id node found => by
        obtain ⟨entry,_,same⟩ := List.mem_map.mp (OrderedDict.get?_ofList _ found)
        cases same
        rfl
      covers := fun id => (DependencyGraph.mem_sortedLevels made id).trans (mem_nodesById nodes id).symm
      distinct := graph.sortedLevels_perm.nodup_iff.mpr graph.nodeLevels.keys_nodup
      listed := fun id =>
        (DependencyGraph.buildGraph_nodes (DependencyGraph.new_eq_ok made).1 id).trans
          (mem_nodesById nodes id).symm
      flat := fun _ member _ inside _ inside' => graph.sortedLevels_flat member inside inside'
      rising := fun acyclic _ _ found _ depends =>
        DependencyGraph.level_rising made acyclic found depends }

/-- Every dependency is a node, and the level lists are in order. -/
theorem Workflow.new_order {nx : Networkx} {checks : List NodeConfig → Except Exn Unit} {settings : Settings}
    {nodes : List NodeConfig} {wf : Workflow} (made : Workflow.new nx checks settings nodes = .ok wf) :
    (∀ id node, wf.nodes.get? id = some node → ∀ dep ∈ node.dependencies, dep ∈ wf.levels.flatten) ∧
      wf.levels.Pairwise fun a b => ∀ x ∈ a, ∀ y ∈ b, wf.graph.level x < wf.graph.level y := by
  simp only [Workflow.new] at made
  split at made
  · cases made
  · cases made
  · next _ graph built _ =>
    cases made
    refine ⟨fun id node found dep depends => ?_,graph.sortedLevels_rising⟩
    obtain ⟨entry,inside,same⟩ := List.mem_map.mp (OrderedDict.get?_ofList _ found)
    cases same
    exact (DependencyGraph.mem_sortedLevels built dep).mpr
      (DependencyGraph.buildGraph_edges (DependencyGraph.new_eq_ok built).1 node inside dep depends).1

theorem Workflow.new_nodes {nx : Networkx} {checks : List NodeConfig → Except Exn Unit} {settings : Settings}
    {nodes : List NodeConfig} {wf : Workflow} (made : Workflow.new nx checks settings nodes = .ok wf) :
    wf.nodes = nodesById nodes := by
  simp only [Workflow.new] at made
  split at made
  · cases made
  · cases made
  · cases made
    rfl

/-- Every node has a level. -/
theorem Workflow.new_leveled {nx : Networkx} {checks : List NodeConfig → Except Exn Unit} {settings : Settings}
    {nodes : List NodeConfig} {wf : Workflow} (made : Workflow.new nx checks settings nodes = .ok wf)
    {id : String} (present : id ∈ wf.nodes.keys) : id ∈ wf.graph.nodeLevels.keys := by
  simp only [Workflow.new] at made
  split at made
  · cases made
  · cases made
  · next _ graph built _ =>
    cases made
    apply graph.sortedLevels_perm.mem_iff.mp
    apply (DependencyGraph.mem_sortedLevels built id).mpr
    exact (mem_nodesById nodes id).mp present

/-- The workflow of a node list on which the constructor raises nothing. -/
def Workflow.ofNodes (settings : Settings) (nodes : List NodeConfig)
    (accepted : (Workflow.new .direct (fun _ => .ok ()) settings nodes).toOption.isSome = true) : Workflow :=
  (Workflow.new .direct (fun _ => .ok ()) settings nodes).toOption.get accepted

theorem Workflow.ofNodes_made (settings : Settings) (nodes : List NodeConfig)
    (accepted : (Workflow.new .direct (fun _ => .ok ()) settings nodes).toOption.isSome = true) :
    Workflow.new .direct (fun _ => .ok ()) settings nodes = .ok (.ofNodes settings nodes accepted) := by
  have given (made : Except Exn Workflow) (accepted : made.toOption.isSome = true) :
      made = .ok (made.toOption.get accepted) := by
    cases made with
    | error e => cases accepted
    | ok wf => rfl
  exact given _ accepted

/-- How an attempt to run a node ended: its context could not be built, `execute_node`
raised, or it returned a result. -/
inductive Ending where
  | unbuilt | escaped | failed | succeeded
  deriving DecidableEq, Repr

/-- One attempt to run a node, with the accumulated results it was given. -/
structure Attempt where
  id : String
  seen : Results
  ending : Ending

/-- `execute_node` was called: the node was handed to its executor. -/
def Attempt.Dispatched (a : Attempt) : Prop := a.ending ≠ .unbuilt

structure RunState (σ : Type) where
  results : Results := .empty
  errors : List String := []
  totalTokens : Nat := 0
  branchDecisions : OrderedDict String Bool := .empty
  activeCache : ActiveCache := .empty
  history : List Attempt := []
  world : σ

namespace RunState

variable {σ : Type}

def record (s : RunState σ) (id : String) (result : NodeExecutionResult) : RunState σ :=
  { s with results := s.results.set id result }

def addError (s : RunState σ) (text : String) : RunState σ := { s with errors := s.errors ++ [text] }

def log (s : RunState σ) (id : String) (ending : Ending) : RunState σ :=
  { s with history := s.history ++ [⟨id,s.results,ending⟩] }

@[simp] theorem record_results (s : RunState σ) (id : String) (r : NodeExecutionResult) :
    (s.record id r).results = s.results.set id r := rfl
@[simp] theorem record_history (s : RunState σ) (id : String) (r : NodeExecutionResult) :
    (s.record id r).history = s.history := rfl
@[simp] theorem record_errors (s : RunState σ) (id : String) (r : NodeExecutionResult) :
    (s.record id r).errors = s.errors := rfl
@[simp] theorem record_cache (s : RunState σ) (id : String) (r : NodeExecutionResult) :
    (s.record id r).activeCache = s.activeCache := rfl
@[simp] theorem addError_results (s : RunState σ) (text : String) :
    (s.addError text).results = s.results := rfl
@[simp] theorem addError_history (s : RunState σ) (text : String) :
    (s.addError text).history = s.history := rfl
@[simp] theorem addError_errors (s : RunState σ) (text : String) :
    (s.addError text).errors = s.errors ++ [text] := rfl
@[simp] theorem addError_cache (s : RunState σ) (text : String) :
    (s.addError text).activeCache = s.activeCache := rfl
@[simp] theorem log_results (s : RunState σ) (id : String) (e : Ending) :
    (s.log id e).results = s.results := rfl
@[simp] theorem log_history (s : RunState σ) (id : String) (e : Ending) :
    (s.log id e).history = s.history ++ [⟨id,s.results,e⟩] := rfl
@[simp] theorem log_errors (s : RunState σ) (id : String) (e : Ending) :
    (s.log id e).errors = s.errors := rfl
@[simp] theorem log_cache (s : RunState σ) (id : String) (e : Ending) :
    (s.log id e).activeCache = s.activeCache := rfl

end RunState

def failedResult (e : Exn) : NodeExecutionResult := { success := false,error := some e.text }

def endingOf : Except Exn NodeExecutionResult → Ending
  | .error _ => .escaped
  | .ok result => if result.success then .succeeded else .failed

namespace Workflow

variable {σ : Type}

/-- The body of one coroutine: build the context, then run the node. -/
def processNode (eng : Engine σ) (node : NodeConfig) (extra : List (String × Value)) (s : RunState σ) :
    Except Exn NodeExecutionResult × RunState σ :=
  match buildNodeContext (eng.currentContext s.world) node s.results with
  | .error e => (.error e,s.log node.id .unbuilt)
  | .ok base =>
    let (outcome,world) := eng.executeNode node (base.update extra) s.world
    (outcome,{ s.log node.id (endingOf outcome) with world })

def gather (eng : Engine σ) :
    List NodeConfig → RunState σ → List (String × Except Exn NodeExecutionResult) × RunState σ
  | [],s => ([],s)
  | node :: rest,s =>
    let (outcome,s) := processNode eng node [] s
    let (outcomes,s) := gather eng rest s
    ((node.id,outcome) :: outcomes,s)

/-- An exception comes out of the gather bare, without its node's id, and is filed under
its own text. -/
def fileOutcome : String × Except Exn NodeExecutionResult → String × NodeExecutionResult
  | (id,.ok result) => (id,result)
  | (_,.error e) =>
    (e.text,{ success := false
              error := some ("Unexpected gather payload: " ++ PythonText.reprlib e.shown) })

def canRecurse (output : Value) : Bool :=
  output.isDict && ((output.entries.lookup "_can_recurse").getD (.bool false)).truthy &&
    !((output.entries.lookup "converged").getD (.bool false)).truthy

/-- The re-executions that a batch of results asks for, with the context they pass on. -/
def pendingRecursions (wf : Workflow) (items : List (String × NodeExecutionResult)) :
    List (String × List (String × Value)) :=
  items.flatMap fun (id,result) =>
    match wf.nodes.get? id with
    | none => []
    | some node =>
      if node.type = .recursive ∧ canRecurse result.output then
        (node.recursiveSources.filter (· ∈ wf.nodes.keys)).map (·,result.output.entries)
      else []

/-- `limit` is the number of nested re-executions the interpreter's stack still has room
for; the frame inside which it runs out records the `RecursionError`. -/
def executeRecursiveNode (wf : Workflow) (eng : Engine σ) :
    Nat → RunState σ → String × List (String × Value) → Except Exn (RunState σ)
  | 0,_,_ => .error recursionError
  | limit + 1,s,(id,extra) =>
    match wf.nodes.get? id with
    | none => .ok ((s.log id .unbuilt).record id (failedResult (keyError id)))
    | some node =>
      match processNode eng node extra s with
      | (.error e,s) => .ok (s.record id (failedResult e))
      | (.ok result,s) =>
        let s := s.record id result
        match (wf.pendingRecursions [(id,result)]).foldlM (executeRecursiveNode wf eng limit) s with
        | .ok s => .ok s
        | .error e => .ok ((s.log id .escaped).record id (failedResult e))

def handleRecursiveFlows (wf : Workflow) (eng : Engine σ) (limit : Nat) (levelResults : Results)
    (s : RunState σ) : Except Exn (RunState σ) :=
  (wf.pendingRecursions levelResults.items).foldlM (executeRecursiveNode wf eng limit) s

def executeLevel (wf : Workflow) (eng : Engine σ) (limit : Nat) (levelNodes : List NodeConfig)
    (s : RunState σ) : Except Exn (Results × RunState σ) :=
  let (outcomes,s) := gather eng levelNodes s
  let levelResults := OrderedDict.ofList (outcomes.map fileOutcome)
  (wf.handleRecursiveFlows eng limit levelResults s).map (levelResults,·)

/-! ### Bookkeeping of a level's results -/

def tokenStop (wf : Workflow) (total : Nat) : Option String :=
  if wf.tokenGuard.any fun guard => !guard total wf.tokenCeiling then
    some "Token guard aborted execution"
  else if wf.tokenCeiling.any (· < total) then some "Token ceiling exceeded"
  else none

/-- Only successful results with usage are metered. -/
def metered (result : NodeExecutionResult) : Option Nat :=
  if result.success then result.usage.map (·.totalTokens) else none

/-- The decision of a condition node; recording one forgets the gating memo. -/
def recordDecision (node : NodeConfig) (id : String) (output : Value) (s : RunState σ) : RunState σ :=
  match node.type,output.entries.lookup "result" with
  | .condition,some value =>
    { s with branchDecisions := s.branchDecisions.set id value.truthy,activeCache := .empty }
  | _,_ => s

inductive Booked (σ : Type) where
  | next (s : RunState σ)
  | aborted (s : RunState σ)
  | raised (e : Exn) (s : RunState σ)

/-- What `execute` does with one result once its tokens are counted. -/
def bookOutcome (wf : Workflow) (id : String) (result : NodeExecutionResult) (s : RunState σ) : Booked σ :=
  match wf.nodes.get? id with
  | none => .raised (keyError id) s
  | some node =>
    let s := recordDecision node id result.output s
    .next (if result.success then s else s.addError (failureText id result.error))

def bookEntry (wf : Workflow) (s : RunState σ) (entry : String × NodeExecutionResult) : Booked σ :=
  let s := s.record entry.1 entry.2
  match metered entry.2 with
  | none => wf.bookOutcome entry.1 entry.2 s
  | some tokens =>
    let s := { s with totalTokens := s.totalTokens + tokens }
    match wf.tokenStop s.totalTokens with
    | some text => .aborted (s.addError text)
    | none => wf.bookOutcome entry.1 entry.2 s

/-- A token abort leaves the loop over the level's results, nothing else. -/
def bookEntries (wf : Workflow) : List (String × NodeExecutionResult) → RunState σ → Booked σ
  | [],s => .next s
  | entry :: rest,s =>
    match wf.bookEntry s entry with
    | .next s => wf.bookEntries rest s
    | stopped => stopped

/-! ### The level loop -/

def activeIds (graph : DependencyGraph) (limit : Nat) :
    List String → ActiveCache → Option (List String × ActiveCache)
  | [],cache => some ([],cache)
  | id :: rest,cache =>
    match isNodeActive graph limit id cache with
    | none => none
    | some (active,cache) =>
      (activeIds graph limit rest cache).map fun (ids,cache) => (if active then id :: ids else ids,cache)

def depthStop (wf : Workflow) (index : Nat) : Option String :=
  if wf.depthGuard.any fun guard => !guard index wf.depthCeiling then some "Depth guard aborted execution"
  else if wf.depthCeiling.any (· < index) then some "Depth ceiling reached"
  else none

/-- How one turn of the level loop ends before the failure policy is asked. -/
inductive LevelEnd (σ : Type) where
  | booked (s : RunState σ)
  | aborted (s : RunState σ)
  | tooDeep (s : RunState σ)
  | raised (e : Exn) (s : RunState σ)
  | stalled (s : RunState σ)

def LevelEnd.booked? : LevelEnd σ → Option (RunState σ)
  | .booked s => some s
  | _ => none

def LevelEnd.aborted? : LevelEnd σ → Option (RunState σ)
  | .aborted s => some s
  | _ => none

structure LevelStart (σ : Type) where
  index : Nat
  ids : List String
  state : RunState σ

def LevelStart.nodes (wf : Workflow) (b : LevelStart σ) : List NodeConfig :=
  b.ids.filterMap wf.nodes.get?

def bookLevel (wf : Workflow) (levelResults : Results) (s : RunState σ) : LevelEnd σ :=
  match wf.bookEntries levelResults.items s with
  | .next s => .booked s
  | .aborted s => .aborted s
  | .raised e s => .raised e s

def runLevel (wf : Workflow) (eng : Engine σ) (limit : Nat) (b : LevelStart σ) : LevelEnd σ :=
  match wf.depthStop b.index with
  | some text => .tooDeep (b.state.addError text)
  | none =>
    match activeIds wf.graph limit b.ids b.state.activeCache with
    | none => .raised recursionError b.state
    | some (active,activeCache) =>
      let s := { b.state with activeCache }
      let levelNodes := active.filterMap wf.nodes.get?
      if eng.stalls levelNodes s.world then .stalled s
      else
        match wf.executeLevel eng limit levelNodes s with
        | .error e => .raised e s
        | .ok (levelResults,s) => wf.bookLevel levelResults s

inductive Flow (σ : Type) where
  | next (s : RunState σ)
  | stop (s : RunState σ)
  | raised (e : Exn) (s : RunState σ)
  | stalled (s : RunState σ)

def Flow.state : Flow σ → RunState σ
  | .next s | .stop s | .raised _ s | .stalled s => s

def Flow.stopped? : Flow σ → Option (RunState σ)
  | .stop s => some s
  | _ => none

theorem Flow.stopped?_eq_some {flow : Flow σ} {s : RunState σ} : flow.stopped? = some s ↔ flow = .stop s := by
  cases flow <;> simp [stopped?]

/-- After a level the failure policy decides, if there are errors. -/
def goOn (wf : Workflow) (s : RunState σ) : Flow σ :=
  if s.errors ≠ [] ∧ !shouldContinue wf.failurePolicy wf.levels wf.nodes s.errors then .stop s else .next s

def levelStep (wf : Workflow) (eng : Engine σ) (limit : Nat) (b : LevelStart σ) : Flow σ :=
  match wf.runLevel eng limit b with
  | .booked s | .aborted s => wf.goOn s
  | .tooDeep s => .stop s
  | .raised e s => .raised e s
  | .stalled s => .stalled s

def runLevels (wf : Workflow) (eng : Engine σ) (limit : Nat) :
    Nat → List (List String) → RunState σ → Flow σ
  | _,[],s => .next s
  | index,ids :: rest,s =>
    match wf.levelStep eng limit ⟨index,ids,s⟩ with
    | .next s => wf.runLevels eng limit (index + 1) rest s
    | ended => ended

/-- The level starts of a run, each with the levels still to come after it. -/
def levelStarts (wf : Workflow) (eng : Engine σ) (limit : Nat) :
    Nat → List (List String) → RunState σ → List (LevelStart σ × List (List String))
  | _,[],_ => []
  | index,ids :: rest,s =>
    (⟨index,ids,s⟩,rest) ::
      match wf.levelStep eng limit ⟨index,ids,s⟩ with
      | .next s => wf.levelStarts eng limit (index + 1) rest s
      | _ => []

theorem levelStarts_stopped {wf : Workflow} {eng : Engine σ} {limit index : Nat} {ids : List String}
    {s t : RunState σ} (went : wf.levelStep eng limit ⟨index,ids,s⟩ = .stop t) (rest : List (List String)) :
    wf.levelStarts eng limit index (ids :: rest) s = [(⟨index,ids,s⟩,rest)] := by
  simp only [levelStarts,went]

/-! ### The workflow's own result -/

/-- Failed nodes keep what partial output they had, overlaid with the error. -/
def serialize (result : NodeExecutionResult) : Value :=
  if result.success && !result.output.isNone then result.output
  else
    let message := match result.error with | none | some "" => "Unknown error" | some text => text
    .dict (((OrderedDict.ofList result.output.entries).set "success" (.bool false)).set "error"
      (.str message)).items

def finalResult (s : RunState σ) : NodeExecutionResult :=
  { success := s.errors.isEmpty
    error := if s.errors.isEmpty then none else some ("\n".intercalate s.errors)
    output := .dict (s.results.items.map fun (id,result) => (id,serialize result)) }

inductive Outcome where
  | returned (result : NodeExecutionResult)
  | raised (e : Exn)
  | stalled

def finish (wf : Workflow) (s : RunState σ) : Outcome :=
  match wf.graph.getLeafNodes with
  | [] => .raised indexError
  | _ :: _ => .returned (finalResult s)

def initialState (world : σ) : RunState σ := { world }

def runAll (wf : Workflow) (eng : Engine σ) (limit : Nat) (world : σ) : Flow σ :=
  wf.runLevels eng limit 1 wf.levels (initialState world)

def starts (wf : Workflow) (eng : Engine σ) (limit : Nat) (world : σ) :
    List (LevelStart σ × List (List String)) :=
  wf.levelStarts eng limit 1 wf.levels (initialState world)

def execute (wf : Workflow) (eng : Engine σ) (limit : Nat) (world : σ) : Outcome :=
  match wf.runAll eng limit world with
  | .next s | .stop s => wf.finish s
  | .raised e _ => .raised e
  | .stalled _ => .stalled

/-- A property that every turn of the loop under `Cond` preserves holds at every level start,
and the verdict it leads to holds of the whole run. -/
theorem runLevels_rule {wf : Workflow} {eng : Engine σ} {limit : Nat}
    (Cond : LevelStart σ × List (List String) → Prop)
    (Inv : Nat → List (List String) → RunState σ → Prop) (Verdict : Flow σ → Prop)
    (ended : ∀ index s, Inv index [] s → Verdict (.next s))
    (step : ∀ b rest, Cond (b,rest) → Inv b.index (b.ids :: rest) b.state →
      match wf.levelStep eng limit b with
      | .next s => Inv (b.index + 1) rest s
      | flow => Verdict flow)
    (levels : List (List String)) (index : Nat) (s : RunState σ) (inv : Inv index levels s)
    (conds : ∀ start ∈ wf.levelStarts eng limit index levels s, Cond start) :
    Verdict (wf.runLevels eng limit index levels s) ∧
      ∀ start ∈ wf.levelStarts eng limit index levels s,
        Inv start.1.index (start.1.ids :: start.2) start.1.state := by
  induction levels generalizing index s with
  | nil => exact ⟨ended index s inv,by simp [levelStarts]⟩
  | cons ids rest ih =>
    have turn := step ⟨index,ids,s⟩ rest (conds _ List.mem_cons_self) inv
    have later (t : RunState σ) (went : wf.levelStep eng limit ⟨index,ids,s⟩ = .next t) :
        ∀ start ∈ wf.levelStarts eng limit (index + 1) rest t, Cond start := by
      intro start member
      apply conds
      simp only [levelStarts,went]
      exact List.mem_cons_of_mem _ member
    simp only [runLevels,levelStarts]
    cases went : wf.levelStep eng limit ⟨index,ids,s⟩ with
    | next t =>
      rw [went] at turn
      obtain ⟨verdict,starts⟩ := ih (index + 1) t turn (later t went)
      exact ⟨verdict,List.forall_mem_cons.mpr ⟨inv,starts⟩⟩
    | stop t => exact ⟨by simpa only [went] using turn,by simpa using inv⟩
    | raised e t => exact ⟨by simpa only [went] using turn,by simpa using inv⟩
    | stalled t => exact ⟨by simpa only [went] using turn,by simpa using inv⟩

end Workflow

end IceOS
