import IceOS.McpToolCalls

/-! The loop that runs an agent: it asks for an action, runs the tool that the action names and shows the
agent the result. -/
namespace IceOS.AgentRuntime

open McpToolCalls (Entries dict? asDict)

section

variable {σ : Type}

/-- What a call on the agent or on a tool leaves: what it returns or raises, the context, which it may change,
and the state `σ` of everything else. -/
structure Called (σ : Type) (ρ : Type) where
  result : Except Exn ρ
  context : Entries
  world : σ

/-- The agent, the tools that the registry resolves, and how values print and refuse items. -/
structure Agent (σ : Type) where
  allowedTools : Except Exn (List String)
  decide : Option (σ → Entries → Called σ Value)
  think : σ → Entries → Called σ Value
  observe : Option (σ → Entries → Value → Called σ Unit)
  tool : σ → String → Option (Entries → Entries → Called σ Value)
  missing : String → Exn
  str : Value → String
  noItems : Value → Exn

/-- `executed` lists the tools whose `execute` was called. -/
structure LoopState (σ : Type) where
  world : σ
  context : Entries
  reasoning : List Value := []
  executed : List String := []

/-- How a run ends, and in which state. -/
structure Ended (σ : Type) where
  result : Except Exn Entries
  last : LoopState σ

inductive Turn (σ : Type)
  | finished (ended : Ended σ)
  | again (s : LoopState σ)

/-- The state in which a round leaves the loop. -/
def Turn.state : Turn σ → LoopState σ
  | .finished ended => ended.last
  | .again s => s

namespace Agent

/-- The tools that the agent may run, as the loop reads them: a failing `allowed_tools` lists nothing. -/
def allowed (a : Agent σ) : List String :=
  match a.allowedTools with
  | .ok tools => tools
  | .error _ => []

def field (action : Option Entries) (key : String) : Value := (action.bind (·.get? key)).getD .none

/-- `left or right` -/
def orElse (left right : Value) : Value := if left.truthy then left else right

def isTrue : Value → Bool
  | .bool b => b
  | _ => false

def isText : Value → Bool
  | .str text => text ≠ ""
  | _ => false

/-- `agent_ctx = context.setdefault("agent", {})` and the two items that are set in it. -/
def recordResult (a : Agent σ) (context : Entries) (toolName : String) (result : Value) : Except Exn Entries :=
  let agentCtx := (context.get? "agent").getD (.dict [])
  match dict? agentCtx with
  | none => .error (a.noItems agentCtx)
  | some entries => .ok (context.set "agent" (.dict ((entries.set "last_tool" (.str toolName)).set "last_result" result).items))

/-- The optional callback: whatever it raises is dropped. -/
def observed (a : Agent σ) (s : LoopState σ) (result : Value) : LoopState σ :=
  match a.observe with
  | none => s
  | some observe =>
    let called := observe s.world s.context result
    { s with context := called.context,world := called.world }

/-- The tool call of an action, with `s` as it stands after the action's message was recorded. -/
def callTool (a : Agent σ) (s : LoopState σ) (action : Option Entries) (msg : Value) : Turn σ :=
  let toolName := a.str (field action "tool")
  if a.allowed ≠ [] ∧ toolName ∉ a.allowed then
    .finished ⟨.error (valueError ("Tool '" ++ toolName ++ "' not permitted by agent")),s⟩
  else match dict? (orElse (field action "inputs") (.dict [])) with
    | none => .finished ⟨.error (valueError "Agent 'inputs' must be a mapping"),s⟩
    | some inputs => match a.tool s.world toolName with
      | none => .finished ⟨.error (a.missing toolName),s⟩
      | some execute =>
        let called := execute inputs s.context
        let s := { s with context := called.context,world := called.world,executed := s.executed ++ [toolName] }
        match called.result with
        | .error e => .finished ⟨.error e,s⟩
        | .ok result => match a.recordResult s.context toolName result with
          | .error e => .finished ⟨.error e,s⟩
          | .ok context =>
            let s := a.observed { s with context } result
            if isTrue (field action "done") then
              .finished ⟨.ok (.ofList [("reasoning",.list s.reasoning),("last_tool",.str toolName),("result",result),
                ("message",orElse msg (.str "done"))]),s⟩
            else .again s

/-- What follows an action; `none` is an action without content. -/
def act (a : Agent σ) (s : LoopState σ) (action : Option Entries) : Turn σ :=
  let msg := field action "message"
  let s := if isText msg then { s with reasoning := s.reasoning ++ [msg] } else s
  if isTrue (field action "done") ∧ (field action "tool").truthy = false then
    .finished ⟨.ok (.ofList [("reasoning",.list s.reasoning),("message",orElse msg (.str "done"))]),s⟩
  else if (field action "tool").truthy then a.callTool s action msg
  else .finished ⟨.ok (.ofList [("reasoning",.list s.reasoning),("message",orElse msg (.str ""))]),s⟩

/-- An agent that cannot decide thinks once. -/
def thinkOnce (a : Agent σ) (s : LoopState σ) : Turn σ :=
  let called := a.think s.world s.context
  let s := { s with context := called.context,world := called.world }
  match called.result with
  | .error e => .finished ⟨.error e,s⟩
  | .ok thought =>
    let s := { s with reasoning := s.reasoning ++ [thought] }
    .finished ⟨.ok (.ofList [("reasoning",.list s.reasoning),("message",thought)]),s⟩

/-- One round of the loop. -/
def turn (a : Agent σ) (s : LoopState σ) : Turn σ :=
  match a.decide with
  | none => a.thinkOnce s
  | some decide =>
    let called := decide s.world s.context
    let s := { s with context := called.context,world := called.world }
    match called.result with
    | .error e => .finished ⟨.error e,s⟩
    | .ok action =>
      if action.truthy then
        match asDict action with
        | .error e => .finished ⟨.error e,s⟩
        | .ok entries => a.act s (some entries)
      else a.act s none

def loop (a : Agent σ) : Nat → LoopState σ → Ended σ
  | 0,s => ⟨.ok (.ofList [("reasoning",.list s.reasoning),("message",.str "max_iterations reached")]),s⟩
  | rounds + 1,s =>
    match a.turn s with
    | .finished ended => ended
    | .again t => loop a rounds t

/-- `AgentRuntime.run`. -/
def run (a : Agent σ) (context : Entries) (world : σ) (maxIterations : Int := 5) : Ended σ :=
  a.loop (max 1 maxIterations).toNat { world,context }

/-! ### What a round runs -/

/-- The inputs of the action are a mapping and its tool resolves. -/
def Callable (a : Agent σ) (world : σ) (action : Option Entries) : Prop :=
  ∃ inputs, dict? (orElse (field action "inputs") (.dict [])) = some inputs ∧
    (a.tool world (a.str (field action "tool"))).isSome = true

/-- The agent decides, and its next action names a tool that can be called. -/
def PicksTool (a : Agent σ) (context : Entries) (world : σ) : Prop :=
  ∃ decide, a.decide = some decide ∧ ∃ action entries, (decide world context).result = .ok action ∧
    action.truthy = true ∧ dict? action = some entries ∧ (field (some entries) "tool").truthy = true ∧
      a.Callable (decide world context).world (some entries)

/-- A round that runs nothing is the last. -/
def Idle (t : Turn σ) (executed : List String) : Prop := ∃ ended, t = .finished ended ∧ ended.last.executed = executed

/-- A call runs the tool of the action, or it runs nothing and the loop is over. -/
theorem callTool_cases (a : Agent σ) (s : LoopState σ) (action : Option Entries) (msg : Value) :
    (Idle (a.callTool s action msg) s.executed ∧ (a.allowed = [] → ¬a.Callable s.world action)) ∨
      ((a.callTool s action msg).state.executed = s.executed ++ [a.str (field action "tool")] ∧
        a.Callable s.world action ∧ (a.allowed ≠ [] → a.str (field action "tool") ∈ a.allowed)) := by
  simp only [callTool]
  split
  · next refused => exact .inl ⟨⟨_,rfl,rfl⟩,fun none => absurd none refused.1⟩
  · next permitted =>
    have member : a.allowed ≠ [] → a.str (field action "tool") ∈ a.allowed := fun some => by
      by_contra outside
      exact permitted ⟨some,outside⟩
    cases mapping : dict? (orElse (field action "inputs") (.dict [])) with
    | none =>
      refine .inl ⟨⟨_,rfl,rfl⟩,?_⟩
      rintro - ⟨inputs,found,-⟩
      rw [mapping] at found
      cases found
    | some inputs =>
      cases tool : a.tool s.world (a.str (field action "tool")) with
      | none =>
        refine .inl ⟨⟨_,rfl,rfl⟩,?_⟩
        rintro - ⟨inputs,-,resolved⟩
        rw [tool] at resolved
        cases resolved
      | some execute =>
        refine .inr ⟨?_,⟨inputs,mapping,by rw [tool]; rfl⟩,member⟩
        dsimp only
        cases (execute inputs s.context).result with
        | error e => rfl
        | ok result =>
          dsimp only
          cases a.recordResult (execute inputs s.context).context (a.str (field action "tool")) result with
          | error e => rfl
          | ok context =>
            dsimp only
            have kept (t : LoopState σ) : (a.observed t result).executed = t.executed := by
              simp only [observed]
              split <;> rfl
            split
            · exact kept _
            · exact kept _

/-- What an action leads to: the call of its tool, if it names one, and the end otherwise. -/
theorem act_cases (a : Agent σ) (s : LoopState σ) (action : Option Entries) :
    (Idle (a.act s action) s.executed ∧
      (a.allowed = [] → ¬((field action "tool").truthy = true ∧ a.Callable s.world action))) ∨
      ((a.act s action).state.executed = s.executed ++ [a.str (field action "tool")] ∧
        (field action "tool").truthy = true ∧ a.Callable s.world action ∧
          (a.allowed ≠ [] → a.str (field action "tool") ∈ a.allowed)) := by
  simp only [act]
  generalize told : (if isText (field action "message") then
    { s with reasoning := s.reasoning ++ [field action "message"] } else s) = t
  have same : t.executed = s.executed ∧ t.world = s.world := by
    rw [← told]
    split <;> exact ⟨rfl,rfl⟩
  rw [← same.1,← same.2]
  by_cases picked : (field action "tool").truthy = true
  · rw [if_neg fun h => Bool.noConfusion (picked.symm.trans h.2),if_pos picked]
    rcases a.callTool_cases t action (field action "message") with ⟨idle,barred⟩ | ⟨ran,callable,member⟩
    · exact .inl ⟨idle,fun none both => barred none both.2⟩
    · exact .inr ⟨ran,picked,callable,member⟩
  · left
    refine ⟨?_,fun _ both => picked both.1⟩
    rw [if_neg picked]
    split <;> exact ⟨_,rfl,rfl⟩

theorem picksTool_error {a : Agent σ} {decide : σ → Entries → Called σ Value} (decides : a.decide = some decide)
    {context : Entries} {world : σ} {e : Exn} (raised : (decide world context).result = .error e) :
    ¬a.PicksTool context world := by
  rintro ⟨other,has,action,entries,returned,-⟩
  cases decides.symm.trans has
  cases raised.symm.trans returned

/-- With what `decide` returns, the tool is picked if that is a dictionary that names one. -/
theorem picksTool_ok {a : Agent σ} {decide : σ → Entries → Called σ Value} (decides : a.decide = some decide)
    {context : Entries} {world : σ} {action : Value} (returned : (decide world context).result = .ok action) :
    a.PicksTool context world ↔ action.truthy = true ∧ ∃ entries, dict? action = some entries ∧
      (field (some entries) "tool").truthy = true ∧ a.Callable (decide world context).world (some entries) := by
  constructor
  · rintro ⟨other,has,action',entries,result,content,shape,picked,callable⟩
    cases decides.symm.trans has
    cases returned.symm.trans result
    exact ⟨content,entries,shape,picked,callable⟩
  · rintro ⟨content,entries,shape,picked,callable⟩
    exact ⟨decide,decides,action,entries,returned,content,shape,picked,callable⟩

/-- What a round leads to. -/
theorem turn_cases (a : Agent σ) (s : LoopState σ) :
    (Idle (a.turn s) s.executed ∧ (a.allowed = [] → ¬a.PicksTool s.context s.world)) ∨
      ∃ tool, (a.turn s).state.executed = s.executed ++ [tool] ∧ a.PicksTool s.context s.world ∧
        (a.allowed ≠ [] → tool ∈ a.allowed) := by
  simp only [turn]
  cases decides : a.decide with
  | none =>
    left
    constructor
    · simp only [thinkOnce]
      split <;> exact ⟨_,rfl,rfl⟩
    · rintro - ⟨decide,has,-⟩
      cases decides.symm.trans has
  | some decide =>
    dsimp only
    have acts := a.act_cases
      { s with context := (decide s.world s.context).context,world := (decide s.world s.context).world }
    cases returned : (decide s.world s.context).result with
    | error e => exact .inl ⟨⟨_,rfl,rfl⟩,fun _ => picksTool_error decides returned⟩
    | ok action =>
      rw [picksTool_ok decides returned]
      dsimp only
      by_cases content : action.truthy = true
      · rw [if_pos content]
        cases shape : dict? action with
        | none =>
          simp only [asDict,shape]
          refine .inl ⟨⟨_,rfl,rfl⟩,?_⟩
          rintro - ⟨-,entries,found,-⟩
          cases found
        | some entries =>
          simp only [asDict,shape]
          rcases acts (some entries) with ⟨idle,barred⟩ | ⟨ran,picked,callable,member⟩
          · refine .inl ⟨idle,?_⟩
            rintro none ⟨-,others,found,picked,callable⟩
            cases found
            exact barred none ⟨picked,callable⟩
          · exact .inr ⟨_,ran,⟨content,entries,rfl,picked,callable⟩,member⟩
      · rw [if_neg content]
        left
        constructor
        · rcases acts none with ⟨idle,-⟩ | ⟨-,picked,-⟩
          · exact idle
          · cases picked
        · exact fun _ picks => content picks.1

/-- The tools that the rounds run, one at most a round, and allowed if anything is. -/
theorem loop_ran (a : Agent σ) (rounds : Nat) (s : LoopState σ) : ∃ ran, (a.loop rounds s).last.executed = s.executed ++ ran ∧
    ran.length ≤ rounds ∧ (a.allowed ≠ [] → ∀ tool ∈ ran, tool ∈ a.allowed) := by
  induction rounds generalizing s with
  | zero => exact ⟨[],(List.append_nil _).symm,le_rfl,fun _ tool none => by cases none⟩
  | succ rounds ih =>
    simp only [loop]
    rcases a.turn_cases s with ⟨⟨ended,stopped,same⟩,-⟩ | ⟨tool,ran,-,member⟩
    · rw [stopped]
      exact ⟨[],same.trans (List.append_nil _).symm,Nat.zero_le _,fun _ tool none => by cases none⟩
    · have single : a.allowed ≠ [] → ∀ other ∈ [tool], other ∈ a.allowed := by
        intro some other same
        rw [List.mem_singleton.mp same]
        exact member some
      cases turned : a.turn s with
      | finished ended =>
        rw [turned] at ran
        exact ⟨[tool],ran,by simp,single⟩
      | again t =>
        rw [turned] at ran
        obtain ⟨rest,all,short,inside⟩ := ih t
        refine ⟨tool :: rest,?_,Nat.succ_le_succ short,fun some => ?_⟩
        · change t.executed = _ at ran
          rw [all,ran,List.append_assoc]
          rfl
        · exact List.forall_mem_cons.mpr ⟨member some,inside some⟩

/-- Where nothing is allowed, something runs exactly when the first action picks a tool. -/
theorem loop_first (a : Agent σ) (none : a.allowed = []) (rounds : Nat) (s : LoopState σ) :
    (a.loop (rounds + 1) s).last.executed = s.executed ↔ ¬a.PicksTool s.context s.world := by
  simp only [loop]
  rcases a.turn_cases s with ⟨⟨ended,stopped,same⟩,barred⟩ | ⟨tool,ran,picks,-⟩
  · rw [stopped]
    exact iff_of_true same (barred none)
  · refine iff_of_false (fun same => ?_) (not_not_intro picks)
    cases turned : a.turn s with
    | finished ended =>
      rw [turned] at ran same
      have longer := congrArg List.length (ran.symm.trans same)
      simp at longer
    | again t =>
      rw [turned] at ran same
      obtain ⟨rest,all,-,-⟩ := a.loop_ran rounds t
      change t.executed = _ at ran
      have longer := congrArg List.length (all.symm.trans same)
      rw [ran] at longer
      simp at longer

/-- Every tool that runs is one of those that `allowed_tools` lists, and no more run than there are rounds,
exactly when it lists some, or the agent's first action runs no tool. An empty list and a failing
`allowed_tools` let every tool through. -/
theorem run_confined_iff (a : Agent σ) (context : Entries) (world : σ) (maxIterations : Int) :
    ((∀ tool ∈ (a.run context world maxIterations).last.executed, tool ∈ a.allowed) ∧
      ((a.run context world maxIterations).last.executed.length : Int) ≤ max 1 maxIterations) ↔
    a.allowed ≠ [] ∨ ¬a.PicksTool context world := by
  obtain ⟨rounds,count⟩ : ∃ rounds, (max 1 maxIterations).toNat = rounds + 1 :=
    Nat.exists_eq_add_one.mpr (by omega)
  have ran := a.loop_ran (rounds + 1) { world,context }
  have first := fun none => a.loop_first none rounds { world,context }
  simp only [run,count]
  obtain ⟨ran,all,short,inside⟩ := ran
  rw [List.nil_append] at all
  rw [all] at first ⊢
  constructor
  · rintro ⟨confined,-⟩
    by_cases none : a.allowed = []
    · refine .inr ((first none).mp ?_)
      rw [none] at confined
      exact List.eq_nil_iff_forall_not_mem.mpr fun tool member => by cases confined tool member
    · exact .inl none
  · intro condition
    refine ⟨?_,by omega⟩
    by_cases none : a.allowed = []
    · have quiet := (first none).mpr (condition.resolve_left (not_not_intro none))
      rw [quiet]
      intro tool member
      cases member
    · exact inside none

end Agent

end

/-- An agent that lists no tool and asks for one. -/
def unlisted : Agent Unit where
  allowedTools := .ok []
  decide := some fun world context => ⟨.ok (.dict [("tool",.str "shell"),("done",.bool true)]),context,world⟩
  think world context := ⟨.ok (.str ""),context,world⟩
  observe := none
  tool _ _ := some fun _ context => ⟨.ok (.dict []),context,()⟩
  missing name := ⟨name,name⟩
  str
    | .str text => text
    | v => v.typeText
  noItems v := ⟨v.typeText,v.typeText⟩

theorem empty_list_confines_nothing : ¬∀ (a : Agent Unit) (context : Entries) (world : Unit) (maxIterations : Int),
    (∀ tool ∈ (a.run context world maxIterations).last.executed, tool ∈ a.allowed) ∧
      ((a.run context world maxIterations).last.executed.length : Int) ≤ max 1 maxIterations := by
  intro confined
  have ran : (unlisted.run .empty () 5).last.executed = ["shell"] := rfl
  have listed := (confined unlisted .empty () 5).1 "shell" (by rw [ran]; exact List.mem_singleton_self _)
  cases listed

end IceOS.AgentRuntime
