import IceOS.ActionRuns
import IceOS.OrderedDict

/-! Scheduled networks as background tasks: starting, cancelling and shutting them down under one lock,
while the tasks end at any time. -/
namespace IceOS.TaskManager

/-- `returned` covers a network that raised an `Exception`, which the wrapper of the coroutine catches;
`crashed` is the end by any other exception than a cancellation. -/
inductive TaskStatus where
  | live | returned | cancelled | crashed
  deriving DecidableEq, Repr

structure ManagedTask where
  networkId : String
  status : TaskStatus
  deriving DecidableEq, Repr

inductive Operation where
  | start (networkId : String)
  | cancel (networkId : String)
  | shutdown
  deriving DecidableEq, Repr

/-- The operation that holds the lock: the ids it has still to cancel, the task it awaits, whether it took
a task off the registry, and whether the last one it took was live. -/
structure Holder where
  op : Operation
  remaining : List String
  awaiting : Option Nat := none
  took : Bool := false
  hit : Bool := false

/-- Tasks are numbered in the order of their creation. -/
structure Manager where
  registry : OrderedDict String Nat := .empty
  tasks : List ManagedTask := []
  lock : Option Holder := none
  waiting : List Operation := []

/-- What the caller of an operation gets. -/
inductive Outcome where
  | returned
  | answered (cancelled : Bool)
  | raised
  deriving DecidableEq, Repr

inductive ManagerAction where
  | call (op : Operation)
  | acquire
  | advance
  | finish (task : Nat) (status : TaskStatus)
  deriving DecidableEq, Repr

namespace Manager

def idOf (s : Manager) (k : Nat) : Option String := (s.tasks[k]?).map ManagedTask.networkId

def status (s : Manager) (k : Nat) : TaskStatus := ((s.tasks[k]?).map ManagedTask.status).getD .returned

def targets (s : Manager) : Operation → List String
  | .start id | .cancel id => [id]
  | .shutdown => s.registry.keys

/-- The lock goes to the operations in the order of their calls. -/
def acquire (s : Manager) : Manager :=
  match s.lock,s.waiting with
  | none,op :: rest => { s with lock := some ⟨op,s.targets op,none,false,false⟩,waiting := rest }
  | _,_ => s

/-- `await task` inside `except Exception`: a cancelled task raises what that does not catch. -/
def resume (s : Manager) (h : Holder) (k : Nat) : Manager × Option Outcome :=
  match s.status k with
  | .live => (s,none)
  | .returned => ({ s with lock := some { h with awaiting := none } },none)
  | .cancelled | .crashed => ({ s with lock := none },some .raised)

/-- `_cancel_unlocked` up to its await. -/
def take (s : Manager) (h : Holder) (id : String) (rest : List String) : Manager :=
  match s.registry.get? id with
  | none => { s with lock := some { h with remaining := rest } }
  | some k =>
    { s with
      registry := s.registry.erase id
      lock := some { h with remaining := rest,awaiting := some k,took := true,hit := s.status k == .live } }

def conclude (s : Manager) (h : Holder) : Manager × Outcome :=
  match h.op with
  | .start id =>
    ({ s with registry := s.registry.set id s.tasks.length,tasks := s.tasks ++ [⟨id,.live⟩],lock := none },.returned)
  | .cancel _ => ({ s with lock := none },.answered h.took)
  | .shutdown => ({ s with lock := none },.returned)

/-- The operation under the lock goes on. What it does between two awaits may be interleaved with others
here, which adds runs and leaves none out. -/
def advance (s : Manager) : Manager × Option Outcome :=
  match s.lock with
  | none => (s,none)
  | some h =>
    match h.awaiting,h.remaining with
    | some k,_ => s.resume h k
    | none,id :: rest => (s.take h id rest,none)
    | none,[] => ((s.conclude h).1,some (s.conclude h).2)

theorem advance_resume {s : Manager} {h : Holder} {k : Nat} (held : s.lock = some h) (awaits : h.awaiting = some k) :
    s.advance = s.resume h k := by
  simp only [advance,held,awaits]

theorem advance_take {s : Manager} {h : Holder} {id : String} {rest : List String} (held : s.lock = some h)
    (idle : h.awaiting = none) (next : h.remaining = id :: rest) : s.advance = (s.take h id rest,none) := by
  simp only [advance,held,idle,next]

theorem advance_conclude {s : Manager} {h : Holder} (held : s.lock = some h) (idle : h.awaiting = none)
    (done : h.remaining = []) : s.advance = ((s.conclude h).1,some (s.conclude h).2) := by
  simp only [advance,held,idle,done]

/-- A live task ends, cancelled or not. -/
def finish (s : Manager) (k : Nat) (status : TaskStatus) : Manager :=
  match s.tasks[k]? with
  | some ⟨id,.live⟩ => { s with tasks := s.tasks.set k ⟨id,status⟩ }
  | _ => s

def step (s : Manager) : ManagerAction → Option Manager
  | .call op => some { s with waiting := s.waiting ++ [op] }
  | .acquire => some s.acquire
  | .advance => some s.advance.1
  | .finish k status => some (s.finish k status)

end Manager

open Manager

def OneLive (s : Manager) : Prop :=
  ∀ j k id, s.idOf j = some id → s.idOf k = some id → s.status j = .live → s.status k = .live → j = k

/-- How an operation that had `h` before its last step ought to end, in `t`. -/
def EndsWell (h : Holder) (outcome : Outcome) (t : Manager) : Prop :=
  match h.op with
  | .start id => outcome = .returned ∧ ∃ k, t.registry.get? id = some k ∧ t.tasks[k]? = some ⟨id,.live⟩
  | .cancel _ => outcome = .answered h.hit
  | .shutdown => outcome = .returned ∧ ∀ task ∈ t.tasks, task.status ≠ .live

/-- One live task for each id, and an operation that ends does so well. -/
def Kept (s : Manager) (a : ManagerAction) (t : Manager) : Prop :=
  OneLive t ∧ (a = .advance → ∀ h ∈ s.lock, ∀ outcome ∈ s.advance.2, EndsWell h outcome t)

/-- No operation is told of a task that was cancelled or crashed, and no `cancel` took a task that had ended. -/
def Careful (s : Manager) (a : ManagerAction) : Prop :=
  a = .advance → ∀ h ∈ s.lock,
    (∀ k ∈ h.awaiting, s.status k ≠ .cancelled ∧ s.status k ≠ .crashed) ∧
    (∀ id, h.op = .cancel id → h.awaiting = none → h.remaining = [] → h.took = h.hit)

/-- The ids an operation is to free. -/
def Operation.Frees : Operation → String → Prop
  | .start id,other | .cancel id,other => other = id
  | .shutdown,_ => True

/-- A live task is registered, unless it is the one that is awaited, and what an operation went through
is registered no more. -/
structure Registered (s : Manager) : Prop where
  owned : ∀ id k, s.registry.get? id = some k → s.idOf k = some id
  live : ∀ k id, s.idOf k = some id → s.status k = .live →
    s.registry.get? id = some k ∨ ∃ h ∈ s.lock, h.awaiting = some k
  awaited : ∀ h ∈ s.lock, ∀ k ∈ h.awaiting, ∃ id, s.idOf k = some id ∧ s.registry.get? id = none
  freed : ∀ h ∈ s.lock, ∀ id, h.op.Frees id → id ∉ h.remaining → s.registry.get? id = none

theorem registered_start : Registered {} where
  owned := nofun
  live := nofun
  awaited := nofun
  freed := nofun

theorem Registered.oneLive {s : Manager} (inv : Registered s) : OneLive s := by
  intro j k id atJ atK liveJ liveK
  -- an awaited task has left the registry, where any other live one of its id would be
  have waits {j k : Nat} (atJ : s.idOf j = some id) (registered : s.registry.get? id = some k) (h : Holder)
      (held : h ∈ s.lock) (awaits : h.awaiting = some j) : j = k := by
    obtain ⟨other,isOther,gone⟩ := inv.awaited h held j awaits
    cases atJ.symm.trans isOther
    rw [registered] at gone
    contradiction
  rcases inv.live j id atJ liveJ with left | ⟨h,held,left⟩
  · rcases inv.live k id atK liveK with right | ⟨h,held,right⟩
    · exact Option.some.inj (left.symm.trans right)
    · exact (waits atK left h held right).symm
  · rcases inv.live k id atK liveK with right | ⟨h',held',right⟩
    · exact waits atJ right h held left
    · cases held.symm.trans held'
      exact Option.some.inj (left.symm.trans right)

theorem Registered.acquire {s : Manager} (inv : Registered s) : Registered s.acquire := by
  unfold Manager.acquire
  split
  · next op rest free waits =>
    refine ⟨inv.owned,fun k id here alive => ?_,fun h held k awaits => ?_,fun h held id frees other => ?_⟩
    · rcases inv.live k id here alive with known | ⟨h,held,-⟩
      · exact .inl known
      · rw [free] at held
        contradiction
    · cases held
      contradiction
    · cases held
      apply (OrderedDict.get?_eq_none _ _).mpr
      cases op with
      | start i => exact absurd (List.mem_singleton.mpr frees) other
      | cancel i => exact absurd (List.mem_singleton.mpr frees) other
      | shutdown => exact other
  · exact inv

theorem idOf_finish (s : Manager) (k j : Nat) (status : TaskStatus) : (s.finish k status).idOf j = s.idOf j := by
  unfold Manager.finish
  split
  · next id here =>
    simp only [idOf,List.getElem?_set]
    split
    · next same =>
      subst same
      rw [if_pos (List.getElem?_eq_some_iff.mp here).1,here]
      rfl
    · rfl
  · rfl

theorem status_finish {s : Manager} {k j : Nat} {status : TaskStatus} (alive : (s.finish k status).status j = .live) :
    s.status j = .live := by
  unfold Manager.finish at alive
  split at alive
  · next id here =>
    by_cases same : k = j
    · subst same
      rw [Manager.status,here]
      rfl
    · simpa [Manager.status,List.getElem?_set_ne same] using alive
  · exact alive

theorem finish_registry (s : Manager) (k : Nat) (status : TaskStatus) :
    (s.finish k status).registry = s.registry ∧ (s.finish k status).lock = s.lock := by
  unfold Manager.finish
  split <;> exact ⟨rfl,rfl⟩

theorem Registered.finish {s : Manager} (inv : Registered s) (k : Nat) (status : TaskStatus) :
    Registered (s.finish k status) := by
  obtain ⟨registry,lock⟩ := finish_registry s k status
  constructor
  · simpa only [registry,idOf_finish] using inv.owned
  · intro j id here alive
    rw [registry,lock]
    exact inv.live j id ((idOf_finish s k j status).symm.trans here) (status_finish alive)
  · simpa only [registry,lock,idOf_finish] using inv.awaited
  · simpa only [registry,lock] using inv.freed

/-- The awaited task is not live any more when the operation hears of its end. -/
theorem Registered.resume {s : Manager} (inv : Registered s) {h : Holder} (held : s.lock = some h) {k : Nat}
    (awaits : h.awaiting = some k) : Registered (s.resume h k).1 := by
  have ended (settled : s.status k ≠ .live) (lock : Option Holder)
      (same : ∀ h' ∈ lock, h'.awaiting = none ∧ h'.op = h.op ∧ h'.remaining = h.remaining) :
      Registered { s with lock := lock } := by
    refine ⟨inv.owned,fun j id here alive => ?_,fun h' held' j awaits' => ?_,fun h' held' id frees other => ?_⟩
    · rcases inv.live j id here alive with known | ⟨h',held',awaits'⟩
      · exact .inl known
      · cases held.symm.trans held'
        cases awaits.symm.trans awaits'
        exact absurd alive settled
    · rw [(same h' held').1] at awaits'
      contradiction
    · obtain ⟨-,op,remaining⟩ := same h' held'
      rw [op] at frees
      rw [remaining] at other
      exact inv.freed h held id frees other
  unfold Manager.resume
  split
  · exact inv
  · next back =>
    refine ended (by rw [back]; decide) _ fun h' held' => ?_
    cases held'
    exact ⟨rfl,rfl,rfl⟩
  · next gone => exact ended (by rw [gone]; decide) none nofun
  · next gone => exact ended (by rw [gone]; decide) none nofun

/-- While no task is awaited, every live one is registered. -/
theorem Registered.registered_of_idle {s : Manager} (inv : Registered s) {h : Holder} (held : s.lock = some h)
    (idle : h.awaiting = none) {j : Nat} {id : String} (here : s.idOf j = some id) (alive : s.status j = .live) :
    s.registry.get? id = some j := by
  rcases inv.live j id here alive with known | ⟨h',held',awaits'⟩
  · exact known
  · cases held.symm.trans held'
    rw [idle] at awaits'
    contradiction

theorem Registered.take {s : Manager} (inv : Registered s) {h : Holder} (held : s.lock = some h) {id : String}
    {rest : List String} (idle : h.awaiting = none) (next : h.remaining = id :: rest) :
    Registered (s.take h id rest) := by
  have free (other : String) (frees : h.op.Frees other) (later : other ∉ rest) (different : other ≠ id) :
      s.registry.get? other = none :=
    inv.freed h held other frees (by rw [next]; exact List.not_mem_cons_of_ne_of_not_mem different later)
  have known {j : Nat} {other : String} (here : s.idOf j = some other) (alive : s.status j = .live) :
      s.registry.get? other = some j := inv.registered_of_idle held idle here alive
  unfold Manager.take
  split
  · next absent =>
    refine ⟨inv.owned,fun j other here alive => .inl (known here alive),fun h' held' j awaits' => ?_,
      fun h' held' other frees later => ?_⟩
    · cases held'
      rw [idle] at awaits'
      contradiction
    · cases held'
      by_cases same : other = id
      · rw [same]
        exact absent
      · exact free other frees later same
  · next k present =>
    refine ⟨fun other j registered => ?_,fun j other here alive => ?_,fun h' held' j awaits' => ?_,
      fun h' held' other frees later => ?_⟩
    · rw [OrderedDict.get?_erase] at registered
      split at registered
      · contradiction
      · exact inv.owned other j registered
    · by_cases same : id = other
      · subst same
        have registered := known here alive
        cases present.symm.trans registered
        exact .inr ⟨_,rfl,rfl⟩
      · refine .inl ?_
        rw [OrderedDict.get?_erase,if_neg same]
        exact known here alive
    · cases held'
      cases awaits'
      refine ⟨id,inv.owned id k present,?_⟩
      rw [OrderedDict.get?_erase,if_pos rfl]
    · cases held'
      rw [OrderedDict.get?_erase]
      split
      · rfl
      · next different => exact free other frees later (Ne.symm different)

/-- The task that `start` creates is the only live one of its id. -/
theorem Registered.create {s : Manager} (inv : Registered s) {h : Holder} (held : s.lock = some h)
    (idle : h.awaiting = none) {id : String} (free : s.registry.get? id = none) :
    Registered { s with
      registry := s.registry.set id s.tasks.length
      tasks := s.tasks ++ [⟨id,.live⟩]
      lock := none } := by
  have below {k : Nat} (other : String) (here : s.idOf k = some other) : k < s.tasks.length := by
    obtain ⟨task,at_k,-⟩ := Option.map_eq_some_iff.mp here
    exact (List.getElem?_eq_some_iff.mp at_k).1
  constructor
  · intro other k registered
    rw [OrderedDict.get?_set] at registered
    split at registered
    · next same =>
      cases registered
      simp [Manager.idOf,same]
    · have old := inv.owned other k registered
      rwa [Manager.idOf,List.getElem?_append_left (below other old)]
  · intro k other here alive
    refine .inl ?_
    rw [OrderedDict.get?_set]
    by_cases old : k < s.tasks.length
    · rw [Manager.idOf,List.getElem?_append_left old] at here
      rw [Manager.status,List.getElem?_append_left old] at alive
      have known := inv.registered_of_idle held idle here alive
      rw [if_neg fun same => by rw [← same,free] at known; contradiction]
      exact known
    · have last : k = s.tasks.length := by
        obtain ⟨task,at_k,-⟩ := Option.map_eq_some_iff.mp here
        have bound := (List.getElem?_eq_some_iff.mp at_k).1
        rw [List.length_append,List.length_singleton] at bound
        omega
      subst last
      have same : id = other := by simpa [Manager.idOf] using here
      rw [if_pos same]
  · exact nofun
  · exact nofun

theorem Registered.release {s : Manager} (inv : Registered s) {h : Holder} (held : s.lock = some h)
    (idle : h.awaiting = none) : Registered { s with lock := none } :=
  ⟨inv.owned,fun _ _ here alive => .inl (inv.registered_of_idle held idle here alive),nofun,nofun⟩

theorem Registered.conclude {s : Manager} (inv : Registered s) {h : Holder} (held : s.lock = some h)
    (idle : h.awaiting = none) (done : h.remaining = []) : Registered (s.conclude h).1 := by
  unfold Manager.conclude
  cases op : h.op with
  | start id =>
    have free := inv.freed h held id (by rw [op]; rfl) (by rw [done]; exact List.not_mem_nil)
    exact inv.create held idle free
  | cancel id => exact inv.release held idle
  | shutdown => exact inv.release held idle

theorem Registered.advance {s : Manager} (inv : Registered s) : Registered s.advance.1 := by
  cases held : s.lock with
  | none =>
    rw [Manager.advance,held]
    exact inv
  | some h =>
    cases awaits : h.awaiting with
    | some k =>
      rw [advance_resume held awaits]
      exact inv.resume held awaits
    | none =>
      cases next : h.remaining with
      | cons id rest =>
        rw [advance_take held awaits next]
        exact inv.take held awaits next
      | nil =>
        rw [advance_conclude held awaits next]
        exact inv.conclude held awaits next

theorem Registered.step {s t : Manager} (inv : Registered s) {a : ManagerAction} (stepped : s.step a = some t) :
    Registered t := by
  cases a with
  | call op =>
    cases stepped
    exact ⟨inv.owned,inv.live,inv.awaited,inv.freed⟩
  | acquire =>
    cases stepped
    exact inv.acquire
  | advance =>
    cases stepped
    exact inv.advance
  | finish k status =>
    cases stepped
    exact inv.finish k status

/-- An operation that took all its tasks off the registry ends well, but `cancel` counts a task that had ended. -/
theorem Registered.conclude_endsWell_iff {s : Manager} (inv : Registered s) {h : Holder} (held : s.lock = some h)
    (idle : h.awaiting = none) (done : h.remaining = []) :
    EndsWell h (s.conclude h).2 (s.conclude h).1 ↔ ∀ id, h.op = .cancel id → h.took = h.hit := by
  cases op : h.op with
  | start id =>
    simp [Manager.conclude,EndsWell,op]
  | cancel id => simp [Manager.conclude,EndsWell,op]
  | shutdown =>
    have settled (task : ManagedTask) (member : task ∈ s.tasks) : task.status ≠ .live := by
      intro alive
      obtain ⟨k,at_k⟩ := List.mem_iff_getElem?.mp member
      have known : s.registry.get? task.networkId = some k :=
        inv.registered_of_idle held idle (by rw [Manager.idOf,at_k]; rfl) (by rw [Manager.status,at_k]; exact alive)
      have gone := inv.freed h held task.networkId (by rw [op]; trivial) (by rw [done]; exact List.not_mem_nil)
      rw [gone] at known
      contradiction
    simpa [Manager.conclude,EndsWell,op] using settled

theorem endsWell_raised {h : Holder} {t : Manager} : ¬EndsWell h .raised t := by
  unfold EndsWell
  split
  · rintro ⟨raised,-⟩
    contradiction
  · exact nofun
  · rintro ⟨raised,-⟩
    contradiction

/-- Among the steps from a state with every live task on the registry exactly the careful ones keep the promises. -/
theorem kept_iff {s t : Manager} {a : ManagerAction} (inv : Registered s) (stepped : s.step a = some t) :
    Kept s a t ↔ Careful s a := by
  have one := (inv.step stepped).oneLive
  simp only [Kept,one,true_and,Careful]
  refine forall_congr' fun isAdvance => forall₂_congr fun h held => ?_
  subst isAdvance
  cases stepped
  have held : s.lock = some h := held
  cases awaits : h.awaiting with
  | some k =>
    rw [advance_resume held awaits]
    cases status : s.status k <;> simp [resume,status,endsWell_raised]
  | none =>
    cases next : h.remaining with
    | cons id rest =>
      rw [advance_take held awaits next]
      simp
    | nil =>
      rw [advance_conclude held awaits next]
      simpa using inv.conclude_endsWell_iff held awaits next

/-- All steps of a run keep the promises just if they are all careful. -/
theorem kept_throughout_iff (actions : List ManagerAction) :
    (∀ first a rest s t, actions = first ++ a :: rest → ActionRuns.run Manager.step first {} = some s →
      s.step a = some t → Kept s a t) ↔ ActionRuns.Throughout Manager.step Careful actions {} := by
  have enabled (s : Manager) (a : ManagerAction) : ∃ t, s.step a = some t := by cases a <;> exact ⟨_,rfl⟩
  obtain ⟨t,ran⟩ := ActionRuns.run_total enabled actions {}
  have exactly (s : Manager) (a : ManagerAction) (t : Manager) (inv : Registered s) (stepped : s.step a = some t) :
      Kept s a t ↔ Careful s a := kept_iff inv stepped
  have stays (s : Manager) (a : ManagerAction) (t : Manager) (inv : Registered s) (_ : Careful s a)
      (stepped : s.step a = some t) : Registered t := inv.step stepped
  exact ActionRuns.throughout_steps_iff exactly stays ran registered_start

/-- A network is started anew, and the cancellation of its first task comes to the caller instead of the second task. -/
theorem restart_raises : ¬∀ actions first a rest s t, actions = first ++ a :: rest →
    ActionRuns.run Manager.step first {} = some s → s.step a = some t → Kept s a t := by
  intro always
  have kept := always _ [.call (.start "n"),.acquire,.advance,.advance,.call (.start "n"),.acquire,.advance,
    .finish 0 .cancelled] .advance [] _ _ rfl rfl rfl
  exact endsWell_raised (kept.2 rfl _ rfl _ rfl)

end IceOS.TaskManager
