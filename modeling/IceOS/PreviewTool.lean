import IceOS.PythonText
import IceOS.SaveRestore

/-! Previews of code tools: each switches inline code on in the environment of the process for as long as it is
under way, and forces execution in the WASM sandbox. -/
namespace IceOS.PreviewTool

open SaveRestore (Served)

/-- The fields that decide whether the code is run. -/
structure PreviewToolRequest where
  language : String := "python"
  code : String
  imports : List String := []

/-- `import a, b` and `from a import b`; a relative import may name no module. -/
inductive ImportStatement where
  | names (aliases : List String)
  | fromModule (name : Option String)

def defaultImports : List String :=
  ["json","math","datetime","re","urllib.parse","base64","hashlib","uuid","random","string","time","collections",
    "itertools","functools","operator"]

def base (name : String) : String := (PythonText.split "." name).headD ""

/-- What previews call: the parser with its import statements, the node model, and the orchestrator, which may be
unavailable. -/
structure Services where
  parse : String → Except String (List ImportStatement)
  nodeSpec : PreviewToolRequest → Option String
  orchestrator : Option String

def disallowed (req : PreviewToolRequest) (name : String) : Option String :=
  if base name ≠ "" ∧ base name ∉ (req.imports ++ defaultImports).map base then some (base name) else none

def ImportStatement.disallowed (req : PreviewToolRequest) : ImportStatement → Option String
  | .names aliases => aliases.findSome? (PreviewTool.disallowed req)
  | .fromModule name => PreviewTool.disallowed req (name.getD "")

/-- The status and detail of a request that ends before anything is awaited. -/
def Services.reject (x : Services) (req : PreviewToolRequest) : Option (Nat × String) :=
  let invalid (text : String) := some (400,"Invalid code node: " ++ text)
  match x.parse req.code with
  | .error e => invalid ("Invalid code syntax: " ++ e)
  | .ok statements =>
    match statements.findSome? (·.disallowed req) with
    | some base => invalid s!"Import '{base}' is not allowed in preview sandbox"
    | none =>
      match x.nodeSpec req with
      | some e => invalid e
      | none => x.orchestrator.map fun e => (503,"Orchestrator unavailable: " ++ e)

/-- `ICE_ENABLE_INLINE_CODE`, `ICE_ENABLE_WASM` and `ICE_WASM_FALLBACK_ON_FAILURE`. -/
structure Environment where
  inlineCode : Option String := none
  wasm : Option String := none
  wasmFallback : Option String := none
  deriving DecidableEq, Repr

/-- The environment of the process, and what each request that is executing its code found in `inlineCode`. -/
structure State (ι : Type) where
  environment : Environment
  prev : ι → Option (Option String) := fun _ => none

inductive Action (ι : Type) where
  | start (i : ι) (req : PreviewToolRequest)
  | finish (i : ι)

def forceWasm (e : Environment) : Environment := { e with wasm := some "1",wasmFallback := some "0" }

variable {ι : Type} [DecidableEq ι]

/-- A request runs up to its one await, or ends before it; it goes on when its code has been executed or has
failed, and leaves the context manager in either case. -/
def step (x : Services) (s : State ι) : Action ι → Option (State ι)
  | .start i req =>
    match s.prev i with
    | some _ => some s
    | none =>
      let prev := s.environment.inlineCode
      let forced := forceWasm { s.environment with inlineCode := some "1" }
      match x.reject req with
      | some _ => some { s with environment := { forced with inlineCode := prev } }
      | none => some ⟨forced,Function.update s.prev i (some prev)⟩
  | .finish i =>
    match s.prev i with
    | none => some s
    | some prev => some ⟨{ s.environment with inlineCode := prev },Function.update s.prev i none⟩

/-- The code of the request is being executed. -/
def State.Executing (s : State ι) (i : ι) : Prop := s.prev i ≠ none

/-- Inline code is enabled for every request whose code is being executed, and with none under way the environment
is the first one. -/
def Kept (first : Environment) (s : State ι) : Prop :=
  (∀ i, s.Executing i → s.environment.inlineCode = some "1") ∧ ((∀ i, ¬s.Executing i) → s.environment = first)

/-- The process runs WASM without fallback anyway. -/
def Forced (e : Environment) : Prop := e.wasm = some "1" ∧ e.wasmFallback = some "0"

/-- A request ends while others execute only if it found inline code enabled, and with no other one under way only
in a process that had WASM forced from the start. -/
def Orderly (x : Services) (first : Environment) (s : State ι) : Action ι → Prop
  | .start i req => s.prev i = none → (x.reject req).isSome → (∀ j, ¬s.Executing j) → Forced first
  | .finish i => ∀ prev ∈ s.prev i, (prev = some "1" ∨ ∀ j, j ≠ i → ¬s.Executing j) ∧
    ((∀ j, j ≠ i → ¬s.Executing j) → Forced first)

/-- The variable that is saved and restored. -/
def State.inline (s : State ι) : SaveRestore.State ι (Option String) := ⟨s.environment.inlineCode,s.prev⟩

/-- What the requests under way have found: inline code as it was first, or enabled by another; one of them found
it as it was. -/
structure Opened (first : Environment) (s : State ι) : Prop where
  served : Served (fun _ value => value = some "1") first.inlineCode s.inline
  idle : (∀ i, ¬s.Executing i) → s.environment = first
  forced : ∀ i, s.Executing i → Forced s.environment
  found : ∀ i prev, s.prev i = some prev → prev = first.inlineCode ∨ prev = some "1"
  opener : ∀ i, s.Executing i → ∃ j, s.prev j = some first.inlineCode

theorem step_total (x : Services) (s : State ι) (a : Action ι) : ∃ t, step x s a = some t := by
  cases a with
  | start i req => cases known : s.prev i <;> cases refused : x.reject req <;> simp [step,known,refused]
  | finish i => cases known : s.prev i <;> simp [step,known]

/-- Everything a step can do. -/
inductive Effect (x : Services) (s : State ι) : Action ι → State ι → Prop where
  | busy (i : ι) (req : PreviewToolRequest) (executing : s.Executing i) : Effect x s (.start i req) s
  | rejected (i : ι) (req : PreviewToolRequest) (fresh : s.prev i = none) (refused : (x.reject req).isSome) :
    Effect x s (.start i req) ⟨forceWasm s.environment,s.prev⟩
  | started (i : ι) (req : PreviewToolRequest) (fresh : s.prev i = none) (fine : x.reject req = none) :
    Effect x s (.start i req) ⟨forceWasm { s.environment with inlineCode := some "1" },
      Function.update s.prev i (some s.environment.inlineCode)⟩
  | absent (i : ι) (fresh : s.prev i = none) : Effect x s (.finish i) s
  | finished (i : ι) (prev : Option String) (known : s.prev i = some prev) :
    Effect x s (.finish i) ⟨{ s.environment with inlineCode := prev },Function.update s.prev i none⟩

theorem step_effect {x : Services} {s t : State ι} {a : Action ι} (stepped : step x s a = some t) : Effect x s a t := by
  cases a with
  | start i req =>
    cases known : s.prev i with
    | some prev =>
      simp only [step,known,Option.some.injEq] at stepped
      subst stepped
      exact .busy i req (by simp [State.Executing,known])
    | none =>
      cases refused : x.reject req with
      | some e =>
        simp only [step,known,refused,Option.some.injEq] at stepped
        subst stepped
        exact .rejected i req known (by simp [refused])
      | none =>
        simp only [step,known,refused,Option.some.injEq] at stepped
        subst stepped
        exact .started i req known refused
  | finish i =>
    cases known : s.prev i with
    | none =>
      simp only [step,known,Option.some.injEq] at stepped
      subst stepped
      exact .absent i known
    | some prev =>
      simp only [step,known,Option.some.injEq] at stepped
      subst stepped
      exact .finished i prev known

variable {x : Services} {first : Environment}

omit [DecidableEq ι] in
theorem opened_start : Opened first (⟨first,fun _ => none⟩ : State ι) where
  served := SaveRestore.served_start
  idle := fun _ => rfl
  forced := fun _ executing => absurd rfl executing
  found := fun _ _ known => by contradiction
  opener := fun _ executing => absurd rfl executing

omit [DecidableEq ι] in
theorem Opened.kept {s : State ι} (opened : Opened first s) : Kept first s :=
  ⟨fun i executing => opened.served.fits i executing,opened.idle⟩

omit [DecidableEq ι] in
theorem kept_served {s : State ι} (kept : Kept first s) :
    Served (fun _ value => value = some "1") first.inlineCode s.inline :=
  ⟨kept.1,fun idle => congrArg Environment.inlineCode (kept.2 idle)⟩

theorem executing_start (s : State ι) (environment : Environment) (prev : Option String) (i j : ι) :
    State.Executing ⟨environment,Function.update s.prev i (some prev)⟩ j ↔ j = i ∨ s.Executing j :=
  SaveRestore.active_update_some s.prev none prev i j

theorem executing_finish (s : State ι) (environment : Environment) (i j : ι) :
    State.Executing ⟨environment,Function.update s.prev i none⟩ j ↔ j ≠ i ∧ s.Executing j :=
  SaveRestore.active_update_none s.prev none i j

omit [DecidableEq ι] in
/-- The last request under way is the one that found inline code as it was. -/
theorem Opened.last {s : State ι} (opened : Opened first s) {i : ι} {prev : Option String}
    (known : s.prev i = some prev) (alone : ∀ j, j ≠ i → ¬s.Executing j) : prev = first.inlineCode := by
  have executing : s.Executing i := by simp [State.Executing,known]
  obtain ⟨j,found⟩ := opened.opener i executing
  by_cases same : j = i
  · rw [same,known] at found
    exact Option.some.inj found
  · exact absurd (by simp [State.Executing,found]) (alone j same)

/-- Exactly the orderly steps lead to a state in which all is kept. -/
theorem kept_iff {s t : State ι} {a : Action ι} (opened : Opened first s) (stepped : step x s a = some t) :
    Kept first t ↔ Orderly x first s a := by
  cases step_effect stepped with
  | busy i req executing => exact iff_of_true opened.kept fun fresh => absurd fresh executing
  | absent i fresh =>
    refine iff_of_true opened.kept fun prev known => ?_
    rw [Option.mem_def,fresh] at known
    contradiction
  | started i req fresh fine =>
    refine iff_of_true ⟨fun _ _ => rfl,fun idle => ?_⟩ fun _ refused => ?_
    · exact absurd ((executing_start s _ _ i i).mpr (.inl rfl)) (idle i)
    · rw [fine] at refused
      contradiction
  | rejected i req fresh refused =>
    constructor
    · intro kept _ _ idle
      rw [← kept.2 idle]
      exact ⟨rfl,rfl⟩
    · intro orderly
      refine ⟨fun j executing => opened.served.fits j executing,fun idle => ?_⟩
      obtain ⟨wasm,fallback⟩ := orderly fresh refused idle
      simp only [forceWasm,opened.idle idle,← wasm,← fallback]
  | finished i prev known =>
    have executing : s.Executing i := by simp [State.Executing,known]
    obtain ⟨wasm,fallback⟩ := opened.forced i executing
    have only (prev' : Option String) (same : prev' ∈ s.prev i) : prev' = prev := by
      rw [Option.mem_def,known] at same
      exact (Option.some.inj same).symm
    constructor
    · intro kept prev' same
      rw [only prev' same]
      refine ⟨or_iff_not_imp_right.mpr fun others => ?_,fun alone => ?_⟩
      · obtain ⟨j,other,executing⟩ : ∃ j, j ≠ i ∧ s.Executing j := by simpa using others
        exact kept.1 j ((executing_finish s _ i j).mpr ⟨other,executing⟩)
      · have same := kept.2 fun j executing => by
          obtain ⟨other,executing⟩ := (executing_finish s _ i j).mp executing
          exact alone j other executing
        rw [← same]
        exact ⟨wasm,fallback⟩
    · intro orderly
      obtain ⟨nested,forced⟩ := orderly prev known
      refine ⟨fun j executing => ?_,fun idle => ?_⟩
      · obtain ⟨other,executing⟩ := (executing_finish s _ i j).mp executing
        exact nested.resolve_right fun alone => alone j other executing
      · have alone (j : ι) (other : j ≠ i) (executing : s.Executing j) : False :=
          idle j ((executing_finish s _ i j).mpr ⟨other,executing⟩)
        obtain ⟨wasm',fallback'⟩ := forced alone
        simp only [opened.last known alone,wasm,fallback,← wasm',← fallback']

theorem Opened.step {s t : State ι} {a : Action ι} (opened : Opened first s) (orderly : Orderly x first s a)
    (stepped : step x s a = some t) : Opened first t := by
  have kept := (kept_iff opened stepped).mpr orderly
  cases step_effect stepped with
  | busy i req executing => exact opened
  | absent i fresh => exact opened
  | rejected i req fresh refused =>
    exact ⟨kept_served kept,kept.2,fun _ _ => ⟨rfl,rfl⟩,opened.found,opened.opener⟩
  | started i req fresh fine =>
    have entry : s.environment.inlineCode = first.inlineCode ∨ s.environment.inlineCode = some "1" := by
      by_cases idle : ∀ j, ¬s.Executing j
      · exact .inl (congrArg Environment.inlineCode (opened.idle idle))
      · obtain ⟨j,executing⟩ := not_forall_not.mp idle
        exact .inr (opened.served.fits j executing)
    refine ⟨kept_served kept,kept.2,fun _ _ => ⟨rfl,rfl⟩,fun j prev known => ?_,fun _ _ => ?_⟩
    · by_cases same : j = i
      · obtain rfl : s.environment.inlineCode = prev := by simpa [same] using known
        exact entry
      · exact opened.found j prev (by simpa [same] using known)
    · by_cases idle : ∀ j, ¬s.Executing j
      · exact ⟨i,by simp [opened.idle idle]⟩
      · obtain ⟨j,executing⟩ := not_forall_not.mp idle
        obtain ⟨k,found⟩ := opened.opener j executing
        have other : k ≠ i := fun same => by
          rw [same,fresh] at found
          contradiction
        exact ⟨k,by simpa [other] using found⟩
  | finished i prev known =>
    have executing : s.Executing i := by simp [State.Executing,known]
    refine ⟨kept_served kept,kept.2,fun j _ => opened.forced i executing,fun j prev' known' => ?_,fun j stays => ?_⟩
    · by_cases same : j = i
      · simp [same] at known'
      · exact opened.found j prev' (by simpa [same] using known')
    · obtain ⟨other,executing'⟩ := (executing_finish s _ i j).mp stays
      obtain ⟨k,found⟩ := opened.opener i executing
      by_cases same : k = i
      · -- the opener may go before another one only if inline code was enabled from the start
        have enabled : first.inlineCode = some "1" := by
          rw [same,known] at found
          rw [← Option.some.inj found]
          exact (orderly prev known).1.resolve_right fun alone => alone j other executing'
        obtain ⟨prev',known'⟩ := Option.ne_none_iff_exists'.mp executing'
        refine ⟨j,?_⟩
        rcases opened.found j prev' known' with rfl | rfl
        · simpa [other] using known'
        · simpa [other,enabled] using known'
      · exact ⟨k,by simpa [same] using found⟩

/-- The environment is kept all along the runs of orderly steps and along no others. -/
theorem previews_kept_iff (x : Services) (first : Environment) (actions : List (Action ι)) :
    (∀ begun rest u, actions = begun ++ rest →
      ActionRuns.run (step x) begun ⟨first,fun _ => none⟩ = some u → Kept first u) ↔
      ActionRuns.Throughout (step x) (Orderly x first) actions ⟨first,fun _ => none⟩ := by
  have exactly (s : State ι) (a : Action ι) (t : State ι) (opened : Opened first s) (stepped : step x s a = some t) :
      Kept first t ↔ Orderly x first s a := kept_iff opened stepped
  have stays (s : State ι) (a : Action ι) (t : State ι) (opened : Opened first s) (orderly : Orderly x first s a)
      (stepped : step x s a = some t) : Opened first t := opened.step orderly stepped
  obtain ⟨t,ran⟩ := ActionRuns.run_total (step_total x) actions ⟨first,fun _ => none⟩
  exact ActionRuns.throughout_iff_of_strong exactly stays ran opened_start opened_start.kept

/-- Requests that are all fine. -/
abbrev quietServices : Services := ⟨fun _ => .ok [],fun _ => none,none⟩

/-- One preview leaves WASM forced; and where it was forced from the start, the first of two overlapping previews
takes inline code from the second, which leaves it enabled for good. -/
theorem overlap_leaves_inline_code :
    (¬∀ (actions : List (Action (Fin 1))) begun rest u, actions = begun ++ rest →
      ActionRuns.run (step quietServices) begun ⟨{},fun _ => none⟩ = some u → Kept {} u) ∧
      ¬∀ (actions : List (Action (Fin 2))) begun rest u, actions = begun ++ rest →
        ActionRuns.run (step quietServices) begun ⟨forceWasm {},fun _ => none⟩ = some u → Kept (forceWasm {}) u := by
  constructor
  · intro always
    have kept := always [.start 0 { code := "" },.finish 0] _ [] _ (List.append_nil _).symm rfl
    have same := kept.2 fun i => by
      rw [Subsingleton.elim i 0]
      exact absurd rfl
    exact absurd (congrArg Environment.wasm same) (by decide)
  · intro always
    have kept := always [.start 0 { code := "" },.start 1 { code := "" },.finish 0] _ [] _
      (List.append_nil _).symm rfl
    exact absurd (kept.1 1 (SaveRestore.State.active_of_saved (s := ⟨none,_⟩) rfl)) (by decide)

end IceOS.PreviewTool
