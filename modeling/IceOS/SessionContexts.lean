import IceOS.ActionRuns
import IceOS.ContextManager
import IceOS.Recency

/-! The contexts of recent sessions against the history of their registrations, for any bound on their number. -/
namespace IceOS

open ActionRuns Recency

/-- The whole of a graph context, with its start in microseconds. -/
structure SessionContext extends GraphContext where
  tenant : Option String := none
  startTime : Int

structure SessionContexts where
  contexts : OrderedDict String SessionContext := .empty
  current : Option SessionContext := none

inductive SessionRequest where
  | get (sessionId : Option String) (now : Int)
  | set (context : SessionContext)

namespace SessionContexts

/-- The oldest session goes, also when it is the current one. -/
def evictOldest (m : SessionContexts) : SessionContexts where
  contexts := m.contexts.dropFirst
  current := if m.contexts.items.head?.map Prod.fst = m.current.map (·.sessionId) then none else m.current

/-- Below a negative bound the eviction goes on after the last session. -/
def registerContext (maxSessions : Int) (m : SessionContexts) (context : SessionContext) :
    Except Exn Unit × SessionContexts :=
  let contexts := (m.contexts.erase context.sessionId).set context.sessionId context
  (if maxSessions < 0 then .error (keyError "dictionary is empty") else .ok (),
    evictOldest^[(contexts.items.length - maxSessions).toNat] { m with contexts })

def setContext (maxSessions : Int) (m : SessionContexts) (context : SessionContext) :
    Except Exn Unit × SessionContexts :=
  { m with current := some context }.registerContext maxSessions context

/-- What is made for a session that is not the current one. -/
def freshContext (sessionId : String) (now : Int) : SessionContext := { sessionId,startTime := now }

def getContext (maxSessions : Int) (m : SessionContexts) (sessionId : Option String) (now : Int) :
    Except Exn (Option SessionContext) × SessionContexts :=
  match sessionId with
  | none => (.ok m.current,m)
  | some id =>
    if m.current.map (·.sessionId) = some id then (.ok m.current,m)
    else
      let registered := m.setContext maxSessions (freshContext id now)
      (registered.1.map fun _ => registered.2.current,registered.2)

/-! ### The manager of the runs -/

def forget (m : SessionContexts) : ContextManager where
  contexts := m.contexts.mapValues SessionContext.toGraphContext
  current := m.current.map SessionContext.toGraphContext

theorem forget_evictOldest (m : SessionContexts) : m.evictOldest.forget = m.forget.evictOldest := by
  have oldest : (m.contexts.mapValues SessionContext.toGraphContext).items.head?.map Prod.fst =
      m.contexts.items.head?.map Prod.fst := by
    simp [OrderedDict.mapValues,Function.comp_def]
  have session : (m.current.map SessionContext.toGraphContext).map (·.sessionId) = m.current.map (·.sessionId) := by
    rw [Option.map_map]
    rfl
  simp only [forget,evictOldest,ContextManager.evictOldest,oldest,session,apply_ite (Option.map _),Option.map_none]
  congr 1
  simp only [OrderedDict.mapValues,OrderedDict.dropFirst,List.map_tail]

/-- The manager of the runs is the one that remembers ten sessions. -/
theorem forget_setContext (m : SessionContexts) (context : SessionContext) :
    (m.setContext maxSessions context).2.forget = m.forget.setContext context.toGraphContext := by
  have registered : (m.contexts.mapValues SessionContext.toGraphContext).erase context.sessionId =
      (m.contexts.erase context.sessionId).mapValues SessionContext.toGraphContext := by
    simp only [OrderedDict.mapValues,OrderedDict.erase,List.filter_map,Function.comp_def]
  have stored : ((m.contexts.erase context.sessionId).mapValues SessionContext.toGraphContext).set context.sessionId
      context.toGraphContext =
      ((m.contexts.erase context.sessionId).set context.sessionId context).mapValues SessionContext.toGraphContext := by
    simp only [OrderedDict.mapValues,OrderedDict.set,OrderedDict.insert_map]
  have count : ∀ d : OrderedDict String SessionContext,
      ((d.items.length : Int) - (maxSessions : Int)).toNat =
        (d.mapValues SessionContext.toGraphContext).items.length - maxSessions := by
    intro d
    simp only [OrderedDict.mapValues,List.length_map]
    omega
  have evictions := Function.Semiconj.iterate_right (f := forget) forget_evictOldest
  simp only [setContext,registerContext,ContextManager.setContext,ContextManager.registerContext,count]
  rw [evictions]
  simp only [forget,registered,stored,Option.map_some]

end SessionContexts

/-! ### Histories -/

/-- The sessions that were used and the contexts that were registered, latest first. -/
structure SessionHistory where
  manager : SessionContexts := {}
  uses : List String := []
  registered : List SessionContext := []

namespace SessionHistory

def latest (s : SessionHistory) (id : String) : Option SessionContext := s.registered.find? (·.sessionId = id)

def isCurrent (s : SessionHistory) (id : String) : Prop := s.manager.current.map (·.sessionId) = some id

instance (s : SessionHistory) (id : String) : Decidable (s.isCurrent id) :=
  inferInstanceAs (Decidable (_ = _))

def register (maxSessions : Int) (s : SessionHistory) (context : SessionContext) : SessionHistory where
  manager := (s.manager.setContext maxSessions context).2
  uses := context.sessionId :: s.uses
  registered := context :: s.registered

/-- Asking for the current session uses it without a registration. -/
def step (maxSessions : Int) (s : SessionHistory) : SessionRequest → Option SessionHistory
  | .get none _ => some s
  | .get (some id) now =>
    some (if s.isCurrent id then { s with uses := id :: s.uses }
      else s.register maxSessions (SessionContexts.freshContext id now))
  | .set context => some (s.register maxSessions context)

/-- A session among the last `maxSessions` that were used gets the context that was registered for it last. -/
def Returned (maxSessions : Int) (s : SessionHistory) : SessionRequest → Prop
  | .get (some id) now => ((since s.uses id).card : Int) < maxSessions → ∀ context, s.latest id = some context →
    (s.manager.getContext maxSessions (some id) now).1 = .ok (some context)
  | _ => True

def KeptThroughout (maxSessions : Int) (requests : List SessionRequest) : Prop :=
  (∀ earlier later s, requests = earlier ++ later → run (step maxSessions) earlier {} = some s →
    (s.manager.contexts.items.length : Int) ≤ maxSessions) ∧
  ∀ earlier r later s, requests = earlier ++ r :: later → run (step maxSessions) earlier {} = some s →
    Returned maxSessions s r

/-- A session that is asked for is the current one, or is not remembered, or its context is as good as a new one. -/
def Careful (s : SessionHistory) : SessionRequest → Prop
  | .get (some id) now => s.isCurrent id ∨
    ∀ context, s.manager.contexts.get? id = some context → context = SessionContexts.freshContext id now
  | _ => True

/-- What the manager holds, in terms of the history. -/
structure Mirrors (max : Nat) (s : SessionHistory) : Prop where
  retains : Retains max s.uses s.manager.contexts.keys
  held : ∀ id context, s.manager.contexts.get? id = some context → s.latest id = some context
  used : ∀ id context, s.latest id = some context → id ∈ s.uses
  current : ∀ context, s.manager.current = some context →
    s.uses.head? = some context.sessionId ∧ s.latest context.sessionId = some context

section

variable {max : Nat} {s : SessionHistory}

theorem start_mirrors (max : Nat) : Mirrors max {} where
  retains := retains_nil
  held _ _ there := by cases there
  used _ _ there := by cases there
  current _ there := by cases there

theorem latest_register (maxSessions : Int) (s : SessionHistory) (context : SessionContext) (id : String) :
    (s.register maxSessions context).latest id = if context.sessionId = id then some context else s.latest id := by
  simp only [latest,register,List.find?_cons]
  split <;> simp_all

theorem evictions_contexts (k : Nat) (m : SessionContexts) :
    (SessionContexts.evictOldest^[k] m).contexts.items = m.contexts.items.drop k := by
  have drops : Function.Semiconj SessionContexts.contexts SessionContexts.evictOldest OrderedDict.dropFirst :=
    fun _ => rfl
  rw [Function.Semiconj.iterate_right drops k m,OrderedDict.dropFirst_iterate_items]

/-- An eviction can only take the current context away. -/
theorem evictions_current {k : Nat} {m : SessionContexts} {context : SessionContext}
    (current : (SessionContexts.evictOldest^[k] m).current = some context) : m.current = some context := by
  induction k generalizing m with
  | zero => exact current
  | succ k ih =>
    rw [Function.iterate_succ_apply] at current
    have before := ih current
    simp only [SessionContexts.evictOldest] at before
    split at before
    · cases before
    · exact before

/-- Evictions that stop short of the newest session leave it current. -/
theorem evictions_keep {k : Nat} {m : SessionContexts} {context : SessionContext}
    {front : List (String × SessionContext)} (items : m.contexts.items = front ++ [(context.sessionId,context)])
    (own : m.current = some context) (short : k ≤ front.length) :
    (SessionContexts.evictOldest^[k] m).current = some context := by
  induction k generalizing m front with
  | zero => exact own
  | succ k ih =>
    cases front with
    | nil => simp at short
    | cons oldest front =>
      have nodup := m.contexts.nodup
      rw [items,List.cons_append,List.map_cons] at nodup
      have other : oldest.1 ≠ context.sessionId := by
        intro same
        apply (List.nodup_cons.mp nodup).1
        rw [same]
        simp
      rw [Function.iterate_succ_apply]
      refine @ih m.evictOldest front ?_ ?_ ?_
      · simp [SessionContexts.evictOldest,OrderedDict.dropFirst,items]
      · simp [SessionContexts.evictOldest,items,own,other]
      · simpa using short

/-- The new context goes behind the others, of which the last ones stay. -/
theorem register_items (max : Nat) (s : SessionHistory) (context : SessionContext) :
    ∃ n, n = ((s.manager.contexts.erase context.sessionId).items.length + 1) - max ∧
      (s.register max context).manager.contexts.items =
        ((s.manager.contexts.erase context.sessionId).items ++ [(context.sessionId,context)]).drop n := by
  refine ⟨_,rfl,?_⟩
  simp only [register,SessionContexts.setContext,SessionContexts.registerContext,evictions_contexts,
    OrderedDict.set_erase_items]
  congr 1
  simp only [List.length_append,List.length_singleton]
  omega

theorem register_keys (max : Nat) (s : SessionHistory) (context : SessionContext) :
    (s.register max context).manager.contexts.keys = use max s.manager.contexts.keys context.sessionId := by
  obtain ⟨n,rfl,items⟩ := register_items max s context
  have erased : (s.manager.contexts.erase context.sessionId).items.map Prod.fst =
      s.manager.contexts.keys.filter (· ≠ context.sessionId) := by
    rw [OrderedDict.keys,List.filter_map]
    rfl
  have length := congrArg List.length erased
  rw [List.length_map] at length
  rw [OrderedDict.keys,items,List.map_drop,List.map_append,erased,length,use,List.length_append]
  rfl

theorem register_current (positive : 0 < max) (s : SessionHistory) (context : SessionContext) :
    (s.register max context).manager.current = some context := by
  refine evictions_keep (OrderedDict.set_erase_items _ _ _) rfl ?_
  simp only [OrderedDict.set_erase_items,List.length_append,List.length_singleton]
  omega

theorem Mirrors.register (mirrors : Mirrors max s) (context : SessionContext) :
    Mirrors max (s.register max context) where
  retains := by
    rw [register_keys]
    exact mirrors.retains.use context.sessionId
  held id other there := by
    obtain ⟨n,_,items⟩ := register_items max s context
    rw [OrderedDict.get?_eq_some,items,← OrderedDict.set_erase_items] at there
    have before := (OrderedDict.get?_eq_some _ _ _).mpr (List.mem_of_mem_drop there)
    rw [OrderedDict.get?_set] at before
    rw [latest_register]
    split at before
    · next same => rw [if_pos same,before]
    · next differs =>
      rw [OrderedDict.get?_erase,if_neg differs] at before
      rw [if_neg differs]
      exact mirrors.held id other before
  used id other there := by
    rw [latest_register] at there
    split at there
    · next same => exact List.mem_cons.mpr (.inl same.symm)
    · exact List.mem_cons_of_mem _ (mirrors.used id other there)
  current other there := by
    cases evictions_current there
    refine ⟨rfl,?_⟩
    rw [latest_register,if_pos rfl]

theorem isCurrent_iff {id : String} : s.isCurrent id ↔
    ∃ context, s.manager.current = some context ∧ context.sessionId = id := Option.map_eq_some_iff

theorem Mirrors.again (mirrors : Mirrors max s) {id : String} (current : s.isCurrent id) :
    Mirrors max { s with uses := id :: s.uses } where
  retains := by
    obtain ⟨context,there,rfl⟩ := isCurrent_iff.mp current
    exact mirrors.retains.again (mirrors.current context there).1
  held := mirrors.held
  used other context there := List.mem_cons_of_mem id (mirrors.used other context there)
  current context there := by
    obtain ⟨context',there',rfl⟩ := isCurrent_iff.mp current
    cases there.symm.trans there'
    exact ⟨rfl,(mirrors.current context there).2⟩

theorem Mirrors.step (mirrors : Mirrors max s) {r : SessionRequest} {t : SessionHistory}
    (stepped : SessionHistory.step max s r = some t) : Mirrors max t := by
  cases r with
  | set context =>
    cases stepped
    exact mirrors.register context
  | get sessionId now =>
    cases sessionId with
    | none =>
      cases stepped
      exact mirrors
    | some id =>
      simp only [SessionHistory.step,Option.some.injEq] at stepped
      split at stepped
      · next current =>
        cases stepped
        exact mirrors.again current
      · cases stepped
        exact mirrors.register _

theorem getContext_current {maxSessions : Int} {id : String} (current : s.isCurrent id) (now : Int) :
    s.manager.getContext maxSessions (some id) now = (.ok s.manager.current,s.manager) := if_pos current

theorem getContext_fresh {maxSessions : Int} {id : String} (other : ¬s.isCurrent id) (now : Int) :
    s.manager.getContext maxSessions (some id) now =
      let registered := s.manager.setContext maxSessions (SessionContexts.freshContext id now)
      (registered.1.map fun _ => registered.2.current,registered.2) := if_neg other

/-- The current session's context is the one that was registered last. -/
theorem returned_current (mirrors : Mirrors max s) {id : String} (current : s.isCurrent id) (now : Int) :
    Returned max s (.get (some id) now) := by
  intro _ context known
  obtain ⟨context',there,rfl⟩ := isCurrent_iff.mp current
  cases known.symm.trans (mirrors.current context' there).2
  rw [getContext_current current,there]

theorem returned_fresh (positive : 0 < max) {id : String} (other : ¬s.isCurrent id) (now : Int) :
    (s.manager.getContext max (some id) now).1 = .ok (some (SessionContexts.freshContext id now)) := by
  have current : (s.manager.setContext max (SessionContexts.freshContext id now)).2.current = _ :=
    register_current positive s (SessionContexts.freshContext id now)
  have raises : ¬(max : Int) < 0 := Int.not_lt.mpr (Int.natCast_nonneg max)
  have registered : (s.manager.setContext max (SessionContexts.freshContext id now)).1 = .ok () := by
    simp only [SessionContexts.setContext,SessionContexts.registerContext,if_neg raises]
  simp only [getContext_fresh other,registered,current]
  rfl

theorem returned_iff (mirrors : Mirrors max s) (r : SessionRequest) : Returned max s r ↔ s.Careful r := by
  cases r with
  | set context => exact Iff.rfl
  | get sessionId now =>
    cases sessionId with
    | none => exact Iff.rfl
    | some id =>
      by_cases current : s.isCurrent id
      · exact ⟨fun _ => .inl current,fun _ => returned_current mirrors current now⟩
      · constructor
        · intro returned
          refine .inr fun context held => ?_
          have present : id ∈ s.manager.contexts.keys := (OrderedDict.mem_keys _ _).mpr (by rw [held]; rfl)
          have recent := ((mirrors.retains.mem_iff id).mp present).2
          have answer := returned (Int.ofNat_lt.mpr recent) context (mirrors.held id context held)
          rw [returned_fresh (by omega) current now] at answer
          cases answer
          rfl
        · intro careful recent context known
          have few := Int.ofNat_lt.mp recent
          have present := (mirrors.retains.mem_iff id).mpr ⟨mirrors.used id context known,few⟩
          obtain ⟨held,there⟩ := Option.isSome_iff_exists.mp ((OrderedDict.mem_keys _ _).mp present)
          cases known.symm.trans (mirrors.held id held there)
          rw [returned_fresh (by omega) current now,careful.resolve_left current context there]

theorem enabled (maxSessions : Int) (s : SessionHistory) (r : SessionRequest) :
    ∃ t, SessionHistory.step maxSessions s r = some t := by
  cases r with
  | set context => exact ⟨_,rfl⟩
  | get sessionId now => cases sessionId <;> exact ⟨_,rfl⟩

theorem returned_throughout_iff (max : Nat) (requests : List SessionRequest) :
    (∀ earlier r later s, requests = earlier ++ r :: later → run (SessionHistory.step max) earlier {} = some s →
      Returned max s r) ↔ Throughout (SessionHistory.step max) Careful requests {} := by
  obtain ⟨t,ran⟩ := run_total (enabled max) requests {}
  rw [← @throughout_steps_iff _ _ (SessionHistory.step max) Careful (Mirrors max) (fun s r _ => Returned max s r)
    (fun s r t mirrors _ => returned_iff mirrors r) (fun s r t mirrors _ stepped => Mirrors.step mirrors stepped)
    requests {} t ran (start_mirrors max)]
  constructor
  · intro returned earlier r later s t parts reached _
    exact returned earlier r later s parts reached
  · intro returned earlier r later s parts reached
    obtain ⟨t,stepped⟩ := enabled max s r
    exact returned earlier r later s t parts reached stepped

end

/-- The contexts are kept all along exactly where the bound is not negative and no session is asked for whose context
is remembered but not the current one. -/
theorem sessions_kept_iff (maxSessions : Int) (requests : List SessionRequest) :
    KeptThroughout maxSessions requests ↔ 0 ≤ maxSessions ∧ Throughout (step maxSessions) Careful requests {} := by
  constructor
  · rintro ⟨small,returned⟩
    have positive : 0 ≤ maxSessions := small [] requests {} rfl rfl
    obtain ⟨max,rfl⟩ := Int.eq_ofNat_of_zero_le positive
    exact ⟨positive,(returned_throughout_iff max requests).mp returned⟩
  · rintro ⟨positive,careful⟩
    obtain ⟨max,rfl⟩ := Int.eq_ofNat_of_zero_le positive
    refine ⟨?_,(returned_throughout_iff max requests).mpr careful⟩
    intro earlier later s _ reached
    have mirrors : Mirrors max s := run_always (fun _ _ _ mirrors stepped => Mirrors.step mirrors stepped) reached
      (start_mirrors max)
    have bounded := mirrors.retains.bounded
    rw [OrderedDict.keys,List.length_map] at bounded
    omega

def tagged : SessionContext := { sessionId := "a",metadata := [("k",.str "v")],startTime := 0 }

/-- A session whose context is remembered gets a new one when another session was used in between. -/
theorem session_context_lost : ¬∀ requests, KeptThroughout 10 requests := by
  intro always
  have returned := (always [.set tagged,.get (some "b") 1,.get (some "a") 2]).2 [.set tagged,.get (some "b") 1]
    (.get (some "a") 2) [] _ rfl rfl
  have answer := returned (by decide) tagged rfl
  cases (answer : Except.ok (some (SessionContexts.freshContext "a" 2)) = .ok (some tagged))

end SessionHistory

end IceOS
