import IceOS.ContextBuilder
import Mathlib.Logic.Function.Iterate

/-! The graph context manager: one current context for the whole process, and a bounded
record of the contexts of recent sessions. -/
namespace IceOS

/-- Sessions that the default manager remembers. -/
def maxSessions : Nat := 10

structure ContextManager where
  contexts : OrderedDict String GraphContext := .empty
  current : Option GraphContext := none

namespace ContextManager

/-- The oldest session goes, also when it is the current one. -/
def evictOldest (m : ContextManager) : ContextManager where
  contexts := m.contexts.dropFirst
  current := if m.contexts.items.head?.map Prod.fst = m.current.map (·.sessionId) then none else m.current

def registerContext (m : ContextManager) (context : GraphContext) : ContextManager :=
  let contexts := (m.contexts.erase context.sessionId).set context.sessionId context
  evictOldest^[contexts.items.length - maxSessions] { m with contexts }

def setContext (m : ContextManager) (context : GraphContext) : ContextManager :=
  { m with current := some context }.registerContext context

/-- With a session id the current context is replaced unless it is that session's. -/
def getContext (m : ContextManager) (sessionId : Option String := none) :
    Option GraphContext × ContextManager :=
  match sessionId with
  | none => (m.current,m)
  | some id =>
    if m.current.map (·.sessionId) = some id then (m.current,m)
    else
      let m := m.setContext { sessionId := id }
      (m.current,m)

/-- A change to the current context's own object is seen among the recent sessions too. -/
def mapCurrent (m : ContextManager) (f : GraphContext → GraphContext) : ContextManager :=
  match m.current with
  | none => m
  | some context =>
    { contexts :=
        if context.sessionId ∈ m.contexts.keys then m.contexts.set context.sessionId (f context) else m.contexts
      current := some (f context) }

/-- Evictions that stop short of the newest session leave the current context alone. -/
theorem evictions_current (k : Nat) (m : ContextManager) (context : GraphContext)
    (front : List (String × GraphContext)) (items : m.contexts.items = front ++ [(context.sessionId,context)])
    (own : m.current = some context) (short : k ≤ front.length) :
    (evictOldest^[k] m).current = some context := by
  induction k generalizing m front with
  | zero => exact own
  | succ k ih =>
    cases front with
    | nil => simp at short
    | cons oldest front =>
      have other : oldest.1 ≠ context.sessionId := by
        have nodup := m.contexts.nodup
        rw [items,List.cons_append,List.map_cons] at nodup
        intro same
        apply (List.nodup_cons.mp nodup).1
        rw [same]
        simp
      rw [Function.iterate_succ_apply]
      apply ih m.evictOldest front
      · simp [evictOldest,OrderedDict.dropFirst,items]
      · simp [evictOldest,items,own,other]
      · simpa using short

/-- The context that was set last is the current one. -/
theorem setContext_current (m : ContextManager) (context : GraphContext) :
    (m.setContext context).current = some context := by
  have items := m.contexts.set_erase_items context.sessionId context
  apply evictions_current _ _ context _ items rfl
  have length := congrArg List.length items
  simp only [List.length_append,List.length_singleton] at length
  simp only [length,maxSessions]
  omega

/-- After asking for a session, the current context is that session's. -/
theorem getContext_session (m : ContextManager) (id : String) :
    (m.getContext (some id)).2.current.map (·.sessionId) = some id := by
  simp only [getContext]
  split
  · assumption
  · simp [setContext_current]

end ContextManager

end IceOS
