import IceOS.ControlFlow

/-! The items that a loop node runs its body for, and what the nodes of the body see. -/
namespace IceOS.ExecutorRuntime

/-- A node of a body is executed: the context it sees, and what its executor comes back with. -/
structure BodyCall where
  node : NodeConfig
  ctx : Context
  reply : Reply

/-- What becomes available to the nodes after it. -/
def BodyCall.output (call : BodyCall) : Option Value :=
  match call.reply with
  | .raised _ => none
  | .result r => some r.output
  | .value v => some v

section

variable {ω : Type}

/-- The executors, with a record of their calls kept beside the world. -/
def observed (direct : NodeConfig → Context → Running ω → Reply × Running ω) (node : NodeConfig) (ctx : Context)
    (s : Running (ω × List BodyCall)) : Reply × Running (ω × List BodyCall) :=
  let (reply,t) := direct node ctx { budget := s.budget,world := { s.world with world := s.world.world.1 } }
  (reply,{ budget := t.budget,world := { t.world with world := (t.world.world,s.world.world.2 ++ [⟨node,ctx,reply⟩]) } })

def calls (s : Running (ω × List BodyCall)) : List BodyCall := s.world.world.2

/-- Without the record. -/
def unobserved (s : Running (ω × List BodyCall)) : Running ω :=
  { budget := s.budget,world := { s.world with world := s.world.world.1 } }

end

section

variable {ω : Type} (direct : NodeConfig → Context → Running ω → Reply × Running ω)

theorem observed_unobserved (node : NodeConfig) (ctx : Context) (s : Running (ω × List BodyCall)) :
    (observed direct node ctx s).map id unobserved = direct node ctx (unobserved s) := rfl

/-- The items that the slice leaves. -/
def sliced (items : List Value) : Option Int → List Value
  | none | some 0 => items
  | some n => sliceTo items n

end

end IceOS.ExecutorRuntime
