import IceOS.ActionRuns
import IceOS.ScopedBindings
import IceOS.Workflow

/-! Nodes inside condition, loop and parallel nodes. `execute_node_config` publishes such a node in
`workflow.nodes` under a temporary id and goes through `execute_node`; the branches of a parallel
node are tasks, and a step of the model runs one task from one suspension to the next. -/
namespace IceOS

open ScopedBindings

/-- A configuration with the ones inside it. -/
inductive NestedConfig where
  | plain (config : NodeConfig) (typed : config.type ∉ [.condition,.loop,.parallel])
  | condition (config : NodeConfig) (typed : config.type = .condition) (truePath falsePath : List NestedConfig)
  | loop (config : NodeConfig) (typed : config.type = .loop) (body : List NestedConfig)
  | parallel (config : NodeConfig) (typed : config.type = .parallel) (branches : List (List NestedConfig))

namespace NestedConfig

def config : NestedConfig → NodeConfig
  | plain config _ | condition config _ _ _ | loop config _ _ | parallel config _ _ => config

def id (node : NestedConfig) : String := node.config.id

def byId (nodes : List NestedConfig) : OrderedDict String NestedConfig :=
  .ofList (nodes.map fun node => (node.id,node))

end NestedConfig

/-- An `execute_node_config` in progress. -/
structure NestedCall where
  tempId : String
  nodeConfig : NestedConfig
  originalNode : Option NestedConfig

def tempId (parentId nodeId : String) : String :=
  if parentId = "" then nodeId else parentId ++ "." ++ nodeId

/-- Conditions and branches go through `execute_node_config`; a loop calls the executor itself. -/
inductive NestedTodo where
  | nested (parentId : String) (node : NestedConfig)
  | direct (node : NestedConfig)

/-- Where a task stands. `running` is an executor that has been called with its configuration,
`starting` a call suspended while `execute_node` emits its events. Of a `body` with `caught` set
the exceptions are turned into a failed result. -/
inductive NestedTask where
  | ended (returned : Bool)
  | running (node : NestedConfig)
  | body (now : NestedTask) (rest : List NestedTodo) (caught : Bool)
  | starting (call : NestedCall)
  | calling (call : NestedCall) (found : NestedConfig) (now : NestedTask)
  | gathered (width : Nat) (branches : Fin width → NestedTask)

/-- What is decided outside: how an executor or a clean-up ends (a cancellation is an ending that
raises), the value of a condition, the number of items, another attempt. -/
inductive NestedChoice where
  | go
  | settle (returned : Bool)
  | branch (result : Bool)
  | items (count : Nat)
  | retry
  deriving DecidableEq, Repr

/-- What became of a nested configuration: an exception, or the executor of `found`'s type was
called with `found`. -/
inductive NestedEvent where
  | keyError (tempId : String) (nodeConfig : NestedConfig)
  | notFound (tempId : String) (nodeConfig : NestedConfig)
  | dispatched (tempId : String) (nodeConfig found : NestedConfig)

def DependencyGraph.getNodeLevel (d : DependencyGraph) (id : String) : Except Exn Int :=
  match d.nodeLevels.get? id with
  | some level => .ok level
  | none => .error (IceOS.keyError id)

abbrev NodeMap := OrderedDict String NestedConfig

namespace NestedCall

/-- The `finally` clause. -/
def restore (call : NestedCall) (nodes : NodeMap) : NodeMap :=
  match call.originalNode with
  | some original => nodes.set call.tempId original
  | none => nodes.erase call.tempId

def lookUp (call : NestedCall) : Option NestedConfig → NestedEvent
  | some found => .dispatched call.tempId call.nodeConfig found
  | none => .notFound call.tempId call.nodeConfig

end NestedCall

namespace NestedTask

def ending : NestedTask → Option Bool
  | ended returned => some returned
  | _ => none

/-- An executor decides how to go on. -/
def proceed : NestedConfig → NestedChoice → Option NestedTask
  | _,.settle returned => some (ended returned)
  | .condition config _ truePath falsePath,.branch result =>
    some (body (ended true) ((if result then truePath else falsePath).map (.nested config.id)) true)
  | .loop _ _ nodes,.items count =>
    some (body (ended true) (List.replicate count (nodes.map .direct)).flatten false)
  | .parallel config _ branches,.go =>
    some (gathered branches.length fun i => body (ended true) ((branches.get i).map (.nested config.id)) false)
  | _,_ => none

/-- Up to the first suspension: the level is looked up before the first event is emitted. -/
def executeNodeConfig (graph : DependencyGraph) (nodes : NodeMap) (parentId : String) (node : NestedConfig) :
    NestedTask × NodeMap × List NestedEvent :=
  let id := tempId parentId node.id
  let call : NestedCall := ⟨id,node,nodes.get? id⟩
  let published := nodes.set id node
  match graph.getNodeLevel id with
  | .ok _ => (starting call,published,[])
  | .error _ => (ended false,call.restore published,[.keyError id node])

def begin (graph : DependencyGraph) (nodes : NodeMap) : NestedTodo → NestedTask × NodeMap × List NestedEvent
  | .nested parentId node => executeNodeConfig graph nodes parentId node
  | .direct node => (running node,nodes,[])

/-- The path names the branches on the way to the task that takes the step. -/
def step (graph : DependencyGraph) (nodes : NodeMap) :
    NestedTask → List Nat → NestedChoice → Option (NestedTask × NodeMap × List NestedEvent)
  | ended _,_,_ => none
  | running node,_,choice => (proceed node choice).map (·,nodes,[])
  | body now rest caught,path,choice =>
    match now.ending,rest,choice with
    | none,_,_ => (now.step graph nodes path choice).map fun (now,effect) => (body now rest caught,effect)
    | some true,[],.go => some (ended true,nodes,[])
    | some true,todo :: rest,.go =>
      let (now,effect) := begin graph nodes todo
      some (body now rest caught,effect)
    | some false,_,.settle returned => if returned && !caught then none else some (ended returned,nodes,[])
    | _,_,_ => none
  | starting call,_,choice =>
    match choice,nodes.get? call.tempId with
    | .go,some found => some (calling call found (running found),nodes,[call.lookUp (some found)])
    | .go,none => some (ended false,call.restore nodes,[call.lookUp none])
    | .settle false,_ => some (ended false,call.restore nodes,[])
    | _,_ => none
  | calling call found now,path,choice =>
    match now.ending,choice with
    | none,_ => (now.step graph nodes path choice).map fun (now,effect) => (calling call found now,effect)
    | some _,.retry => some (calling call found (running found),nodes,[])
    | some _,.settle returned => some (ended returned,call.restore nodes,[])
    | some _,_ => none
  | gathered _ branches,[],choice =>
    match choice with
    | .settle returned => if ∀ i, (branches i).ending.isSome then some (ended returned,nodes,[]) else none
    | _ => none
  | gathered width branches,i :: path,choice =>
    if inside : i < width then
      ((branches ⟨i,inside⟩).step graph nodes path choice).map fun (now,effect) =>
        (gathered width (Function.update branches ⟨i,inside⟩ now),effect)
    else none

/-! ### Temporary ids in use -/

def scopes : NestedTask → Scopes String NestedConfig
  | ended _ | running _ => .idle
  | body now _ _ => now.scopes
  | starting call => .bound call.tempId call.nodeConfig call.originalNode .idle
  | calling call _ now => .bound call.tempId call.nodeConfig call.originalNode now.scopes
  | gathered width branches => .forked width fun i => (branches i).scopes

/-- The temporary ids of the calls in progress. -/
def published (c : NestedTask) : List String := c.scopes.held

/-- The temporary id under which the next step of the task would publish a configuration. -/
def entering : NestedTask → List Nat → Option String
  | body now rest _,path =>
    match now.ending,rest with
    | none,_ => now.entering path
    | some true,.nested parentId node :: _ => some (tempId parentId node.id)
    | some _,_ => none
  | calling _ _ now,path => now.entering path
  | gathered width branches,i :: path =>
    if inside : i < width then (branches ⟨i,inside⟩).entering path else none
  | _,_ => none

/-- The temporary ids of the calls that do not enclose the task. -/
def alongside : NestedTask → List Nat → List String
  | body now _ _,path => now.alongside path
  | calling _ _ now,path => now.alongside path
  | gathered width branches,i :: path =>
    (if inside : i < width then (branches ⟨i,inside⟩).alongside path else []) ++
      (List.finRange width).flatMap fun j => if j.val = i then [] else (branches j).published
  | _,_ => []

end NestedTask

/-- A workflow at work on nested nodes. -/
structure NestedState where
  nodes : NodeMap
  task : NestedTask
  log : List NestedEvent := []

namespace NestedState

/-- The executors of the outer nodes have been called, all of them in one level. -/
def start (nodes outers : List NestedConfig) : NestedState where
  nodes := NestedConfig.byId nodes
  task := .gathered outers.length fun i => .running (outers.get i)

def step (graph : DependencyGraph) (s : NestedState) (action : List Nat × NestedChoice) : Option NestedState :=
  (s.task.step graph s.nodes action.1 action.2).map fun (task,nodes,events) =>
    ⟨nodes,task,s.log ++ events⟩

/-- A call that is about to be made uses the id of a top-level node, and no other call that is in
progress uses it, those around this call aside. -/
def Clear (topLevel : List String) (s : NestedState) (action : List Nat × NestedChoice) : Prop :=
  ∀ id ∈ s.task.entering action.1, id ∈ topLevel ∧ id ∉ s.task.alongside action.1

instance (topLevel : List String) (s : NestedState) (action : List Nat × NestedChoice) :
    Decidable (Clear topLevel s action) :=
  inferInstanceAs (Decidable (∀ id ∈ s.task.entering action.1,
    id ∈ topLevel ∧ id ∉ s.task.alongside action.1))

end NestedState

/-- The configuration itself was run. -/
def NestedEvent.Faithful : NestedEvent → Prop
  | .dispatched _ nodeConfig found => found = nodeConfig
  | _ => False

end IceOS
