import IceOS.LevelScheduling

/-! The semaphore of a level over the level's whole life: what the coroutines take, what
those inside `execute_node` weigh, and what is left when the gather returns. -/
namespace IceOS

open FifoSemaphore

/-- The semaphore of a level, and what the coroutines that are done ended with. -/
structure LevelState (nodes : List NodeConfig) where
  semaphore : State (Fin nodes.length)
  ended : Fin nodes.length → Option (Except Exn NodeExecutionResult)

namespace LevelState

variable {nodes : List NodeConfig}

def initial (maxParallel : Nat) (nodes : List NodeConfig) : LevelState nodes :=
  ⟨State.initial maxParallel,fun _ => none⟩

/-- `process_node` up to its next suspension. One that was inside `execute_node` comes out
with a result or an exception; either way `__aexit__` gives the slots back before it ends. -/
def processNode (i : Fin nodes.length) (outcome : Except Exn NodeExecutionResult)
    (s : LevelState nodes) : Option (LevelState nodes) :=
  (s.semaphore.step (levelWeight nodes) i).map fun semaphore =>
    { semaphore
      ended := if s.semaphore.phase i = .inside then Function.update s.ended i (some outcome) else s.ended }

/-- Any coroutine that can run may be next, and what it comes out with is open. -/
def Reachable (maxParallel : Nat) : LevelState nodes → Prop :=
  Relation.ReflTransGen (fun s t => ∃ i outcome, s.processNode i outcome = some t) (initial maxParallel nodes)

/-- Run the coroutines in some order, each turn with the outcome it would come out with. -/
def turns : List (Fin nodes.length × Except Exn NodeExecutionResult) → LevelState nodes →
    Option (LevelState nodes)
  | [],s => some s
  | (i,outcome) :: rest,s => (s.processNode i outcome).bind (turns rest)

/-- The gather returns when every coroutine has ended, with a result or an exception each. -/
def Returned (s : LevelState nodes) : Prop := ∀ i, (s.ended i).isSome

/-- The nodes that are being executed, by what they weigh together. -/
def running (s : LevelState nodes) : Nat :=
  ∑ i with s.semaphore.phase i = .inside, levelWeight nodes i

/-- Free slots and those in hands add up, and a coroutine is done when it has left. -/
structure Sound (maxParallel : Nat) (s : LevelState nodes) : Prop where
  slots : FifoSemaphore.Invariant (levelWeight nodes) maxParallel s.semaphore
  ended : ∀ i, (s.ended i).isSome → s.semaphore.phase i = .exited

end LevelState

end IceOS
