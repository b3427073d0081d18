import IceOS.LostUpdates

/-! Canvases that save the blueprint they are open on: each keeps the nodes and the lock apart, and saves its nodes and
its title by timers of their own. -/
namespace IceOS.CanvasAutosave

/-- What nodes on a canvas come from: a version that was loaded, or what a save of them left. -/
inductive Source where
  | loaded (bp : Blueprint)
  | saved (p : Nat)

/-- The nodes that an autosave sends; nodes that do not validate are `none`. -/
structure Draft where
  nodes : Option (List NodeSpec)
  sources : List Source

/-- What the effect on the blueprint closes over. -/
structure Pending where
  id : Nat
  draft : Draft
  versionLock : String

/-- A canvas; `nodes` is `none` without a blueprint or where its nodes are no list. -/
structure Canvas where
  nodes : Option (Option (List NodeSpec)) := none
  sources : List Source := []
  versionLock : String := ""
  title : String := ""
  timer : Option Pending := none
  titleTimer : Option String := none

inductive Task where
  | load
  | autosave (draft : Draft)
  | titleSave (title : String)

/-- Why a blueprint is asked for: before anything is sent, for the lock to send, for the lock after a save, or after
a failure. -/
inductive Ask where
  | before
  | current
  | after
  | conflict
  deriving DecidableEq

/-- Where a task stands; `read` is the version that a title save has loaded. -/
inductive Stage where
  | asking (why : Ask)
  | answered (why : Ask) (bp : Blueprint)
  | sent (request : Request) (read : Option Blueprint)
  | passed (request : Request) (read : Option Blueprint) (seen : Blueprint) (target : Option Blueprint)

structure Process (ι : Type) where
  canvas : ι
  task : Task
  stage : Stage

/-- The server's row and cache, the canvases and the tasks under way; and what each autosave left, and what each title
save of a canvas made of what. -/
structure System (ι : Type) where
  row : Option Blueprint
  cache : Option Blueprint
  canvas : ι → Canvas
  process : Nat → Option (Process ι) := fun _ => none
  next : Nat := 0
  saved : List (Nat × Blueprint) := []
  titled : ι → List (Blueprint × Blueprint) := fun _ => []

/-- The checks of the server, and the name in a blueprint's metadata. -/
structure Environment extends BlueprintChecks where
  name : Blueprint → String
  rename : Blueprint → String → Blueprint
  rename_nodes : ∀ bp title, (rename bp title).nodes = bp.nodes

inductive Action (ι : Type) where
  | load (c : ι)
  | edit (c : ι) (nodes : Option (Option (List NodeSpec)))
  | fire (c : ι)
  | retitle (c : ι) (title : String)
  | fireTitle (c : ι)
  | answer (p : Nat) (dbOk cacheOk : Bool)
  | resume (p : Nat) (batched : Bool)
  | check (p : Nat) (dbOk cacheOk : Bool)
  | commit (p : Nat) (ok heard : Bool)
  | other (target : Option Blueprint)
  | recache (bp : Option Blueprint)

namespace System

variable {ι : Type} [DecidableEq ι]

/-- `_load_blueprint` -/
def loadBlueprint (s : System ι) (dbOk cacheOk : Bool) : Option Blueprint :=
  (if dbOk then s.row else none).or (if cacheOk then s.cache else none)

def setCanvas (s : System ι) (c : ι) (k : Canvas) : System ι := { s with canvas := Function.update s.canvas c k }

omit [DecidableEq ι] in
def setProcess (s : System ι) (p : Nat) (q : Option (Process ι)) : System ι :=
  { s with process := Function.update s.process p q }

/-- The effect on the blueprint: it takes the place of the last one, and closes over the nodes and the lock. -/
def capture (s : System ι) (c : ι) (k : Canvas) (versionLock : String) : System ι :=
  match k.nodes with
  | none => s.setCanvas c { k with timer := none }
  | some nodes =>
    let sources := k.sources ++ [.saved s.next]
    { s.setCanvas c { k with sources,timer := some ⟨s.next,⟨nodes,sources⟩,versionLock⟩ } with next := s.next + 1 }

/-- A task starts. -/
def spawn (s : System ι) (c : ι) (task : Task) : System ι :=
  { s.setProcess s.next (some ⟨c,task,.asking .before⟩) with next := s.next + 1 }

/-- A request was refused or failed: an autosave asks for the lock. -/
def failed (s : System ι) (p : Nat) (c : ι) (task : Task) (why : Option Ask) : System ι :=
  match task with
  | .autosave _ => s.setProcess p (if why = some .conflict then none else some ⟨c,task,.asking .conflict⟩)
  | .load | .titleSave _ => s.setProcess p none

/-- `setVersionLock` -/
def setVersionLock (s : System ι) (c : ι) (versionLock : String) : System ι :=
  s.setCanvas c { s.canvas c with versionLock }

/-- A task goes on with a blueprint that it asked for. The blueprint and the lock that were loaded are not always
rendered at once. -/
def resume (x : Environment) (s : System ι) (p : Nat) (c : ι) (batched : Bool) (bp : Blueprint) :
    Task → Ask → System ι
  | .load,_ =>
    let k := s.canvas c
    let lock := x.calculateVersionLock bp
    let titleTimer := if x.name bp = k.title then k.titleTimer else some (x.name bp)
    (s.setProcess p none).capture c
      { k with nodes := some (some bp.nodes),sources := [.loaded bp],versionLock := lock,title := x.name bp,titleTimer }
      (if batched then lock else k.versionLock)
  | .autosave draft,.before =>
    (s.setVersionLock c (x.calculateVersionLock bp)).setProcess p (some ⟨c,.autosave draft,.asking .current⟩)
  | .autosave draft,.current =>
    s.setProcess p (some ⟨c,.autosave draft,.sent ⟨.patch draft.nodes,some (x.calculateVersionLock bp)⟩ none⟩)
  | .titleSave title,.before =>
    s.setProcess p (some ⟨c,.titleSave title,
      .sent ⟨.put (some (x.rename bp title)),some (x.calculateVersionLock bp)⟩ (some bp)⟩)
  | _,_ => (s.setVersionLock c (x.calculateVersionLock bp)).setProcess p none

/-- What is kept of a change that the server made. -/
def record (s : System ι) (p : Nat) (c : ι) (task : Task) (read target : Option Blueprint) : System ι :=
  match task,read,target with
  | .autosave _,_,some bp => { s with saved := s.saved ++ [(p,bp)] }
  | .titleSave _,some v,some bp => { s with titled := Function.update s.titled c (s.titled c ++ [(v,bp)]) }
  | _,_,_ => s

def step (x : Environment) (s : System ι) : Action ι → Option (System ι)
  | .load c => some (s.spawn c .load)
  | .edit c nodes => some (s.capture c { s.canvas c with nodes } (s.canvas c).versionLock)
  | .fire c =>
    (s.canvas c).timer.map fun pending =>
      let stage := if pending.versionLock = "" then .asking .before
        else .sent ⟨.patch pending.draft.nodes,some pending.versionLock⟩ none
      (s.setCanvas c { s.canvas c with timer := none }).setProcess pending.id (some ⟨c,.autosave pending.draft,stage⟩)
  | .retitle c title =>
    some (s.setCanvas c { s.canvas c with title,titleTimer := if title = "" then none else some title })
  | .fireTitle c =>
    (s.canvas c).titleTimer.map fun title =>
      (s.setCanvas c { s.canvas c with titleTimer := none }).spawn c (.titleSave title)
  | .answer p dbOk cacheOk =>
    match s.process p with
    | some ⟨c,task,.asking why⟩ =>
      match s.loadBlueprint dbOk cacheOk with
      | some bp => some (s.setProcess p (some ⟨c,task,.answered why bp⟩))
      | none => some (s.failed p c task why)
    | _ => none
  | .resume p batched =>
    match s.process p with
    | some ⟨c,task,.answered why bp⟩ => some (s.resume x p c batched bp task why)
    | _ => none
  | .check p dbOk cacheOk =>
    match s.process p with
    | some ⟨c,task,.sent request read⟩ =>
      match s.loadBlueprint dbOk cacheOk with
      | none => some (s.failed p c task none)
      | some seen =>
        match x.prepare request seen with
        | .error _ => some (s.failed p c task none)
        | .ok target => some (s.setProcess p (some ⟨c,task,.passed request read seen target⟩))
    | _ => none
  | .commit p ok heard =>
    match s.process p with
    | some ⟨c,task,.passed _ read _ target⟩ =>
      if ok then
        let t := { s.record p c task read target with row := target }
        some (if heard then t.setProcess p (some ⟨c,task,.asking .after⟩) else t.failed p c task none)
      else some (s.failed p c task none)
    | _ => none
  | .other target => some { s with row := target }
  | .recache bp => some { s with cache := bp }

end System

/-- The nodes of a version went into what these are the sources of. A title save leaves the nodes as they are. -/
inductive Derives (saved : List (Nat × Blueprint)) (titled : List (Blueprint × Blueprint)) (sources : List Source) :
    Blueprint → Prop where
  | loaded {bp : Blueprint} (source : .loaded bp ∈ sources) : Derives saved titled sources bp
  | saved {p : Nat} {bp : Blueprint} (source : .saved p ∈ sources) (left : (p,bp) ∈ saved) :
    Derives saved titled sources bp
  | titled {bp bp' : Blueprint} (derives : Derives saved titled sources bp) (renamed : (bp,bp') ∈ titled) :
    Derives saved titled sources bp'

section

variable {ι : Type}

/-- The lock is one of a version that is derived from. -/
def Knows (x : Environment) (s : System ι) (c : ι) (sources : List Source) (lock : String) : Prop :=
  ∃ v, Derives s.saved (s.titled c) sources v ∧ lock = x.calculateVersionLock v

/-- A canvas has no lock yet, or one of a version that its nodes derive from. -/
def Holds (x : Environment) (s : System ι) (c : ι) (sources : List Source) (lock : String) : Prop :=
  lock = "" ∨ Knows x s c sources lock

/-- What a task sends: its nodes with a lock of what they derive from, or the nodes that it loaded along with the
lock. -/
def Carries (x : Environment) (s : System ι) (c : ι) (request : Request) (read : Option Blueprint) : Task → Prop
  | .load => False
  | .autosave draft => ∃ lock, request = ⟨.patch draft.nodes,some lock⟩ ∧ Knows x s c draft.sources lock
  | .titleSave title => ∃ v, read = some v ∧
    request = ⟨.put (some (x.rename v title)),some (x.calculateVersionLock v)⟩

/-- The version that the server is about to replace is one that the nodes of the task come from. -/
def Informed (x : Environment) (s : System ι) (p : Nat) : Prop :=
  ∀ c task request read seen target, s.process p = some ⟨c,task,.passed request read seen target⟩ →
    ∃ v, request.versionLock = some (x.calculateVersionLock v) ∧
      s.row.map x.calculateVersionLock = some (x.calculateVersionLock v) ∧
      match task with
      | .load => False
      | .autosave draft => request.method = .patch draft.nodes ∧ Derives s.saved (s.titled c) draft.sources v
      | .titleSave _ => ∃ payload, request.method = .put (some payload) ∧ payload.nodes = v.nodes

/-- A lock that is read apart from the nodes is of a version that they derive from; the lock of a load is rendered
along with its nodes, or is the first one; and nothing is stored between the check of a save and its commit. -/
def Good (s : System ι) : Action ι → Prop
  | .resume p batched => ∀ c task why bp, s.process p = some ⟨c,task,.answered why bp⟩ →
    match task,why with
    | .load,_ => batched = true ∨ (s.canvas c).versionLock = ""
    | .titleSave _,.before => True
    | .autosave draft,.current => Derives s.saved (s.titled c) draft.sources bp
    | _,_ => Derives s.saved (s.titled c) (s.canvas c).sources bp
  | .commit p ok _ => ok = true → ∀ c task request read seen target,
    s.process p = some ⟨c,task,.passed request read seen target⟩ → s.row = some seen
  | _ => True

structure ProcessSound (x : Environment) (s : System ι) (q : Process ι) : Prop where
  sent : ∀ request read, q.stage = .sent request read → Carries x s q.canvas request read q.task
  passed : ∀ request read seen target, q.stage = .passed request read seen target →
    Carries x s q.canvas request read q.task ∧ request.versionLock = some (x.calculateVersionLock seen)

structure Sound (x : Environment) (s : System ι) : Prop where
  canvas : ∀ c, Holds x s c (s.canvas c).sources (s.canvas c).versionLock
  timer : ∀ c pending, (s.canvas c).timer = some pending → Holds x s c pending.draft.sources pending.versionLock
  process : ∀ p q, s.process p = some q → ProcessSound x s q

theorem Derives.mono {saved saved' : List (Nat × Blueprint)} {titled titled' : List (Blueprint × Blueprint)}
    {sources sources' : List Source} {bp : Blueprint} (derives : Derives saved titled sources bp)
    (more : saved ⊆ saved') (more' : titled ⊆ titled') (wider : sources ⊆ sources') :
    Derives saved' titled' sources' bp := by
  induction derives with
  | loaded source => exact .loaded (wider source)
  | saved source left => exact .saved (wider source) (more left)
  | titled _ renamed ih => exact .titled ih (more' renamed)

variable {x : Environment} {s t : System ι} {c : ι} {sources sources' : List Source} {lock : String}

/-- More is known of what saves left. -/
structure Grows (s t : System ι) : Prop where
  saved : s.saved ⊆ t.saved
  titled : ∀ c, s.titled c ⊆ t.titled c

theorem Knows.mono (knows : Knows x s c sources lock) (grows : Grows s t) (wider : sources ⊆ sources') :
    Knows x t c sources' lock := by
  obtain ⟨v,derives,same⟩ := knows
  exact ⟨v,derives.mono grows.saved (grows.titled c) wider,same⟩

theorem Holds.mono (holds : Holds x s c sources lock) (grows : Grows s t) (wider : sources ⊆ sources') :
    Holds x t c sources' lock :=
  holds.imp_right fun knows => knows.mono grows wider

theorem Carries.mono {request : Request} {read : Option Blueprint} {task : Task}
    (carries : Carries x s c request read task) (grows : Grows s t) : Carries x t c request read task := by
  cases task with
  | load => exact carries
  | autosave draft =>
    obtain ⟨lock,same,knows⟩ := carries
    exact ⟨lock,same,knows.mono grows (List.Subset.refl _)⟩
  | titleSave title => exact carries

theorem ProcessSound.mono {q : Process ι} (sound : ProcessSound x s q) (grows : Grows s t) : ProcessSound x t q where
  sent request read stands := (sound.sent request read stands).mono grows
  passed request read seen target stands :=
    ⟨(sound.passed request read seen target stands).1.mono grows,(sound.passed request read seen target stands).2⟩

/-- A task that has sent nothing. -/
theorem ProcessSound.unsent {q : Process ι} (sent : ∀ request read, q.stage ≠ .sent request read)
    (passed : ∀ request read seen target, q.stage ≠ .passed request read seen target) : ProcessSound x s q :=
  ⟨fun request read stands => absurd stands (sent request read),
    fun request read seen target stands => absurd stands (passed request read seen target)⟩

theorem Sound.grow (sound : Sound x s) (grows : Grows s t) (canvas : t.canvas = s.canvas)
    (process : t.process = s.process) : Sound x t where
  canvas c := by
    rw [canvas]
    exact (sound.canvas c).mono grows (List.Subset.refl _)
  timer c pending waits := by
    rw [canvas] at waits
    exact (sound.timer c pending waits).mono grows (List.Subset.refl _)
  process p q there := by
    rw [process] at there
    exact (sound.process p q there).mono grows

theorem Grows.of_eq (saved : t.saved = s.saved) (titled : t.titled = s.titled) : Grows s t where
  saved := saved ▸ List.Subset.refl _
  titled _ := titled ▸ List.Subset.refl _

theorem Sound.setProcess (sound : Sound x s) (p : Nat) {q : Option (Process ι)}
    (fine : ∀ q' ∈ q, ProcessSound x s q') : Sound x (s.setProcess p q) where
  canvas := sound.canvas
  timer := sound.timer
  process p' q' there := by
    simp only [System.setProcess,Function.update_apply] at there
    split at there
    · exact (fine q' there).mono (.of_eq rfl rfl)
    · exact (sound.process p' q' there).mono (.of_eq rfl rfl)

theorem Sound.endProcess (sound : Sound x s) (p : Nat) : Sound x (s.setProcess p none) :=
  sound.setProcess p fun _ there => by contradiction

/-- A task asks or was answered. -/
theorem Sound.goOn (sound : Sound x s) (p : Nat) {task : Task} {stage : Stage}
    (unsent : (∃ why, stage = .asking why) ∨ ∃ why bp, stage = .answered why bp) :
    Sound x (s.setProcess p (some ⟨c,task,stage⟩)) := by
  refine sound.setProcess p fun q there => ?_
  cases there
  rcases unsent with ⟨why,rfl⟩ | ⟨why,bp,rfl⟩
  · exact .unsent (fun _ _ same => by contradiction) fun _ _ _ _ same => by contradiction
  · exact .unsent (fun _ _ same => by contradiction) fun _ _ _ _ same => by contradiction

theorem Sound.send (sound : Sound x s) (p : Nat) {task : Task} {request : Request} {read : Option Blueprint}
    (carries : Carries x s c request read task) : Sound x (s.setProcess p (some ⟨c,task,.sent request read⟩)) := by
  refine sound.setProcess p fun q there => ?_
  cases there
  constructor
  · rintro _ _ ⟨⟩
    exact carries
  · rintro _ _ _ _ ⟨⟩

theorem Sound.pass (sound : Sound x s) (p : Nat) {task : Task} {request : Request} {read target : Option Blueprint}
    {seen : Blueprint} (carries : Carries x s c request read task)
    (current : request.versionLock = some (x.calculateVersionLock seen)) :
    Sound x (s.setProcess p (some ⟨c,task,.passed request read seen target⟩)) := by
  refine sound.setProcess p fun q there => ?_
  cases there
  constructor
  · rintro _ _ ⟨⟩
  · rintro _ _ _ _ ⟨⟩
    exact ⟨carries,current⟩

theorem Sound.spawn (sound : Sound x s) (task : Task) : Sound x (s.spawn c task) :=
  (sound.goOn s.next (.inl ⟨.before,rfl⟩)).grow (.of_eq rfl rfl) rfl rfl

theorem Sound.failed (sound : Sound x s) (p : Nat) (task : Task) (why : Option Ask) : Sound x (s.failed p c task why) := by
  cases task with
  | load => exact sound.endProcess p
  | titleSave title => exact sound.endProcess p
  | autosave draft =>
    simp only [System.failed]
    split
    · exact sound.endProcess p
    · exact sound.goOn p (.inl ⟨.conflict,rfl⟩)

variable [DecidableEq ι]

theorem Sound.setCanvas (sound : Sound x s) {k : Canvas} (lock : Holds x s c k.sources k.versionLock)
    (timer : ∀ pending, k.timer = some pending → Holds x s c pending.draft.sources pending.versionLock) :
    Sound x (s.setCanvas c k) where
  canvas c' := by
    simp only [System.setCanvas,Function.update_apply]
    split
    · next same =>
      subst same
      exact lock
    · exact sound.canvas c'
  timer c' pending waits := by
    simp only [System.setCanvas,Function.update_apply] at waits
    split at waits
    · next same =>
      subst same
      exact timer pending waits
    · exact sound.timer c' pending waits
  process p q there := (sound.process p q there).mono (.of_eq rfl rfl)

theorem Sound.capture (sound : Sound x s) {k : Canvas} {captured : String} (own : Holds x s c k.sources k.versionLock)
    (closed : Holds x s c k.sources captured) : Sound x (s.capture c k captured) := by
  have same : Grows s s := .of_eq rfl rfl
  rw [System.capture]
  split
  · exact sound.setCanvas own fun _ waits => by contradiction
  · next nodes there =>
    have wider : k.sources ⊆ k.sources ++ [.saved s.next] := List.subset_append_left _ _
    have kept : Sound x (s.setCanvas c { k with
        sources := k.sources ++ [.saved s.next]
        timer := some ⟨s.next,⟨nodes,k.sources ++ [.saved s.next]⟩,captured⟩ }) := by
      refine sound.setCanvas (own.mono same wider) fun pending waits => ?_
      cases waits
      exact closed.mono same wider
    exact kept.grow (.of_eq rfl rfl) rfl rfl

theorem Sound.setVersionLock (sound : Sound x s) {bp : Blueprint}
    (derives : Derives s.saved (s.titled c) (s.canvas c).sources bp) :
    Sound x (s.setVersionLock c (x.calculateVersionLock bp)) :=
  sound.setCanvas (.inr ⟨bp,derives,rfl⟩) fun pending waits => sound.timer c pending waits

theorem Sound.record (sound : Sound x s) (p : Nat) (task : Task) (read target row : Option Blueprint) :
    Sound x { s.record p c task read target with row } := by
  refine sound.grow ?_ ?_ ?_
  · simp only [System.record]
    split
    · exact ⟨List.subset_append_left _ _,fun _ => List.Subset.refl _⟩
    · refine ⟨List.Subset.refl _,fun c' => ?_⟩
      simp only [Function.update_apply]
      split
      · next same =>
        subst same
        exact List.subset_append_left _ _
      · exact List.Subset.refl _
    · exact .of_eq rfl rfl
  · simp only [System.record]
    split <;> rfl
  · simp only [System.record]
    split <;> rfl

/-- A good step of a task that has got its blueprint. -/
theorem Sound.resume (sound : Sound x s) {p : Nat} {batched : Bool} {bp : Blueprint} {task : Task} {why : Ask}
    (good : Good s (.resume p batched)) (there : s.process p = some ⟨c,task,.answered why bp⟩) :
    Sound x (s.resume x p c batched bp task why) := by
  have fine := good c task why bp there
  have refreshed (derives : Derives s.saved (s.titled c) (s.canvas c).sources bp) (p : Nat) :
      Sound x ((s.setVersionLock c (x.calculateVersionLock bp)).setProcess p none) :=
    (sound.setVersionLock derives).endProcess p
  cases task with
  | load =>
    have loaded : Knows x (s.setProcess p none) c [.loaded bp] (x.calculateVersionLock bp) :=
      ⟨bp,.loaded (List.mem_singleton_self _),rfl⟩
    simp only [System.resume]
    refine (sound.endProcess p).capture ?_ ?_
    · exact .inr loaded
    rcases fine with rfl | first
    · exact .inr loaded
    · cases batched with
      | true => exact .inr loaded
      | false => exact .inl first
  | autosave draft =>
    cases why with
    | before => exact (sound.setVersionLock fine).goOn p (.inl ⟨.current,rfl⟩)
    | current => exact sound.send p ⟨_,rfl,bp,fine,rfl⟩
    | after => exact refreshed fine p
    | conflict => exact refreshed fine p
  | titleSave title =>
    cases why with
    | before => exact sound.send p ⟨bp,rfl,rfl⟩
    | current => exact refreshed fine p
    | after => exact refreshed fine p
    | conflict => exact refreshed fine p

theorem Sound.step {a : Action ι} (sound : Sound x s) (good : Good s a) (stepped : s.step x a = some t) :
    Sound x t := by
  cases a with
  | load c =>
    cases stepped
    exact sound.spawn .load
  | edit c nodes =>
    cases stepped
    exact sound.capture (sound.canvas c) (sound.canvas c)
  | fire c =>
    obtain ⟨pending,waits,rfl⟩ := Option.map_eq_some_iff.mp stepped
    have held := sound.timer c pending waits
    have idle : Sound x (s.setCanvas c { s.canvas c with timer := none }) :=
      sound.setCanvas (sound.canvas c) fun _ waits => by contradiction
    split
    · exact idle.goOn pending.id (.inl ⟨.before,rfl⟩)
    · next locked => exact idle.send pending.id ⟨pending.versionLock,rfl,held.resolve_left locked⟩
  | retitle c title =>
    cases stepped
    exact sound.setCanvas (sound.canvas c) (sound.timer c)
  | fireTitle c =>
    obtain ⟨title,waits,rfl⟩ := Option.map_eq_some_iff.mp stepped
    have idle : Sound x (s.setCanvas c { s.canvas c with titleTimer := none }) :=
      sound.setCanvas (sound.canvas c) (sound.timer c)
    exact idle.spawn (.titleSave title)
  | answer p dbOk cacheOk =>
    simp only [System.step] at stepped
    split at stepped
    · split at stepped
      · next bp loaded =>
        cases stepped
        exact sound.goOn p (.inr ⟨_,bp,rfl⟩)
      · cases stepped
        exact sound.failed p _ _
    · contradiction
  | resume p batched =>
    simp only [System.step] at stepped
    split at stepped
    · next c task why bp there =>
      cases stepped
      exact sound.resume good there
    · contradiction
  | check p dbOk cacheOk =>
    simp only [System.step] at stepped
    split at stepped
    · next c task request read there =>
      split at stepped
      · cases stepped
        exact sound.failed p _ _
      · next seen loaded =>
        split at stepped
        · cases stepped
          exact sound.failed p _ _
        · next target ready =>
          cases stepped
          exact sound.pass p ((sound.process p _ there).sent request read rfl) (prepare_lock ready)
    · contradiction
  | commit p ok heard =>
    simp only [System.step] at stepped
    split at stepped
    · next c task request read seen target there =>
      split at stepped
      · have recorded := sound.record (c := c) p task read target target
        cases stepped
        split
        · exact recorded.goOn p (.inl ⟨.after,rfl⟩)
        · exact recorded.failed p task none
      · cases stepped
        exact sound.failed p _ _
    · contradiction
  | other target =>
    cases stepped
    exact sound.grow (.of_eq rfl rfl) rfl rfl
  | recache bp =>
    cases stepped
    exact sound.grow (.of_eq rfl rfl) rfl rfl

omit [DecidableEq ι] in
/-- A save that is committed unhindered. -/
theorem Sound.informed (sound : Sound x s) {p : Nat} {heard : Bool} (good : Good s (.commit p true heard)) :
    Informed x s p := by
  intro c task request read seen target there
  have stored := good rfl c task request read seen target there
  obtain ⟨carries,lock⟩ := (sound.process p _ there).passed request read seen target rfl
  cases task with
  | load => exact carries.elim
  | autosave draft =>
    obtain ⟨own,rfl,v,derives,rfl⟩ := carries
    refine ⟨v,rfl,?_,rfl,derives⟩
    rw [stored,Option.map_some]
    exact lock.symm
  | titleSave title =>
    obtain ⟨v,_,rfl⟩ := carries
    refine ⟨v,rfl,?_,x.rename v title,rfl,x.rename_nodes v title⟩
    rw [stored,Option.map_some]
    exact lock.symm

end

/-- Canvases that are opened, with what was on them before. -/
def opened {ι : Type} (row cache : Option Blueprint) (nodes : ι → Option (Option (List NodeSpec))) : System ι where
  row
  cache
  canvas c := { nodes := nodes c }

theorem sound_opened {ι : Type} (x : Environment) (row cache : Option Blueprint)
    (nodes : ι → Option (Option (List NodeSpec))) : Sound x (opened row cache nodes) where
  canvas _ := .inl rfl
  timer _ _ waits := by contradiction
  process _ _ there := by contradiction

/-- In runs of good steps every save that the server accepts replaces a version that what it sends comes from. -/
theorem saves_informed {ι : Type} [DecidableEq ι] {x : Environment} {row cache : Option Blueprint}
    {nodes : ι → Option (Option (List NodeSpec))} {actions : List (Action ι)} {s : System ι}
    (good : ActionRuns.Throughout (System.step x) Good actions (opened row cache nodes))
    (ran : ActionRuns.run (System.step x) actions (opened row cache nodes) = some s) {p : Nat} {heard : Bool}
    (alone : Good s (.commit p true heard)) : Informed x s p := by
  have stays (s : System ι) (a : Action ι) (t : System ι) (sound : Sound x s) (fine : Good s a)
      (stepped : s.step x a = some t) : Sound x t := sound.step fine stepped
  exact (ActionRuns.run_invariant stays ran (sound_opened x row cache nodes) good).informed alone

/-- Locks that tell the nodes' ids, and a title for metadata. -/
abbrev plainEnvironment : Environment where
  calculateVersionLock bp := String.intercalate "," (bp.nodes.map (·.id))
  refuses _ := none
  name bp := bp.metadata
  rename bp title := { bp with metadata := title }
  rename_nodes _ _ := rfl

abbrev draftOnly : Blueprint := { blueprintId := "bp",nodes := [{ id := "draft",type := "tool" }] }

abbrev withMail : Blueprint := { draftOnly with nodes := draftOnly.nodes ++ [{ id := "mail",type := "tool" }] }

abbrev edited (id : String) : Option (Option (List NodeSpec)) := some (some [{ id,type := "llm" }])

abbrev oneCanvas : System (Fin 1) := opened (some draftOnly) none fun _ => none

abbrev oneSave : List (Action (Fin 1)) :=
  [.load 0,.answer 0 true true,.resume 0 true,.fire 0,.check 1 true true]

/-- A canvas that loads and saves with no other writer. -/
theorem oneSave_informed : ∃ s t, ActionRuns.run (System.step plainEnvironment) oneSave oneCanvas = some s ∧
    s.step plainEnvironment (.commit 1 true true) = some t ∧ Informed plainEnvironment s 1 := by
  have good : ActionRuns.Throughout (System.step plainEnvironment) Good (oneSave ++ [.commit 1 true true]) oneCanvas := by
    refine ⟨trivial,?_⟩
    rintro _ ⟨⟩
    refine ⟨trivial,?_⟩
    rintro _ ⟨⟩
    refine ⟨?_,?_⟩
    · rintro c task why bp ⟨⟩
      exact .inl rfl
    rintro _ ⟨⟩
    refine ⟨trivial,?_⟩
    rintro _ ⟨⟩
    refine ⟨trivial,?_⟩
    rintro _ ⟨⟩
    refine ⟨?_,fun _ _ => trivial⟩
    rintro _ c task request read seen target ⟨⟩
    rfl
  have saves : ((ActionRuns.run (System.step plainEnvironment) oneSave oneCanvas).bind
      (System.step plainEnvironment · (.commit 1 true true))).isSome = true := rfl
  obtain ⟨t,both⟩ := Option.isSome_iff_exists.mp saves
  obtain ⟨s,ran,stepped⟩ := Option.bind_eq_some_iff.mp both
  obtain ⟨before,last⟩ := ActionRuns.throughout_append ran good
  exact ⟨s,t,ran,stepped,saves_informed before ran last.1⟩

/-- A conflict brings the lock of a version that the canvas has not loaded, and the next save puts it aside. -/
theorem refreshed_lock_overwrites : ¬∀ (actions : List (Action (Fin 1))) s p t,
    ActionRuns.run (System.step plainEnvironment) actions oneCanvas = some s →
      s.step plainEnvironment (.commit p true true) = some t → Informed plainEnvironment s p := by
  intro always
  have informed := always [.load 0,.answer 0 true true,.resume 0 true,.other (some withMail),.edit 0 (edited "first"),
    .fire 0,.check 2 true true,.answer 2 true true,.resume 2 true,.edit 0 (edited "second"),.fire 0,
    .check 3 true true] _ 3 _ rfl rfl
  obtain ⟨v,_,stored,_,derives⟩ := informed _ _ _ _ _ _ rfl
  have loaded : v = draftOnly := by
    cases derives with
    | loaded source =>
      have listed : Source.loaded v ∈ [.loaded draftOnly,.saved 1,.saved 2,.saved 3] := source
      simpa using listed
    | saved source left => contradiction
    | titled derives renamed => contradiction
  rw [loaded] at stored
  exact absurd stored (by decide)

end IceOS.CanvasAutosave
