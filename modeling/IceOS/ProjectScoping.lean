import Mathlib.Data.List.Induction
import Mathlib.Logic.Function.Basic

/-! The blueprints of a project: two routes attach and detach them, and starting an execution for the project looks them
up. They are in Redis, or in the memory of the process if Redis does not answer. -/
namespace IceOS.ProjectScoping

/-- A segment of a path is not empty. -/
abbrev PathId := {id : String // id ≠ ""}

/-- Redis answers or not; the projects of the database, the blueprints that attaching loads, and those that are found
when an execution starts. -/
structure Environment where
  redisAnswers : Bool
  projectExists : String → Bool
  loads : String → Bool
  stored : String → Bool

/-- The lists in Redis and in memory. -/
structure Lists where
  redis : String → List String := fun _ => []
  kv : String → List String := fun _ => []

inductive Request where
  | attach (project : PathId) (blueprintId : String)
  | detach (project : PathId) (blueprintId : String)

abbrev HttpError := Nat × String

def projectBlueprintsKey (projectId : String) : String := "pr:" ++ projectId ++ ":blueprints"

variable (e : Environment)

/-- Changes a list where it is kept. -/
def Lists.modify (s : Lists) (key : String) (f : List String → List String) : Lists :=
  if e.redisAnswers then { s with redis := Function.update s.redis key (f (s.redis key)) }
  else { s with kv := Function.update s.kv key (f (s.kv key)) }

def appendProjectBlueprint (s : Lists) (projectId blueprintId : String) : Lists :=
  s.modify e (projectBlueprintsKey projectId) (· ++ [blueprintId])

/-- All occurrences are removed. -/
def removeProjectBlueprint (s : Lists) (projectId blueprintId : String) : Lists :=
  s.modify e (projectBlueprintsKey projectId) (·.filter (· ≠ blueprintId))

def attachProjectBlueprint (s : Lists) (projectId blueprintId : String) : Except HttpError Lists :=
  if !e.projectExists projectId then .error (404,"project not found")
  else if !e.loads blueprintId then .error (404,"blueprint not found")
  else .ok (appendProjectBlueprint e s projectId blueprintId)

def detachProjectBlueprint (s : Lists) (projectId blueprintId : String) : Except HttpError Lists :=
  if !e.projectExists projectId then .error (404,"project not found")
  else .ok (removeProjectBlueprint e s projectId blueprintId)

def handle (s : Lists) : Request → Except HttpError Lists
  | .attach project blueprintId => attachProjectBlueprint e s project blueprintId
  | .detach project blueprintId => detachProjectBlueprint e s project blueprintId

/-- A request that is refused changes nothing. -/
def step (s : Lists) (r : Request) : Lists := (handle e s r).toOption.getD s

/-- The list in memory counts if the one in Redis is empty. -/
def allowedIds (s : Lists) (projectId : String) : List String :=
  let ids := if e.redisAnswers then s.redis (projectBlueprintsKey projectId) else []
  if ids.isEmpty then s.kv (projectBlueprintsKey projectId) else ids

def getBlueprint (blueprintId : String) : Except HttpError Unit :=
  if e.stored blueprintId then .ok () else .error (404,"Blueprint not found")

/-- The checks with which an execution starts; an empty project id counts as none. -/
def startExecution (s : Lists) (xProjectId : Option String) (blueprintId : String) : Except HttpError Unit :=
  match xProjectId.filter (· ≠ "") with
  | some projectId =>
    let allowed := allowedIds e s projectId
    if !allowed.isEmpty && !allowed.contains blueprintId then .error (403,"blueprint not associated with project")
    else getBlueprint e blueprintId
  | none => getBlueprint e blueprintId

/-! ### What is attached -/

def run (history : List Request) : Lists := history.foldl (step e) {}

def Accepted (project : PathId) (blueprintId : String) : Prop :=
  e.projectExists project = true ∧ e.loads blueprintId = true

/-- The blueprint has been attached, and the last time is not followed by a detach. -/
def Attached (history : List Request) (project : PathId) (blueprintId : String) : Prop :=
  ∃ before later, history = before ++ .attach project blueprintId :: later ∧ Accepted e project blueprintId ∧
    .detach project blueprintId ∉ later

/-- An execution of a stored blueprint starts exactly if the blueprint is attached. -/
def Scoped (history : List Request) (project : PathId) (blueprintId : String) : Prop :=
  startExecution e (run e history) (some project) blueprintId = .ok () ↔ Attached e history project blueprintId

/-- The list that is kept. -/
def listed (s : Lists) (project : PathId) : List String :=
  if e.redisAnswers then s.redis (projectBlueprintsKey project) else s.kv (projectBlueprintsKey project)

/-- The list holds what is attached, and nothing is in memory if Redis answers. -/
structure Mirrored (history : List Request) (s : Lists) : Prop where
  listed : ∀ project blueprintId, blueprintId ∈ listed e s project ↔ Attached e history project blueprintId
  spare : e.redisAnswers = true → ∀ key, s.kv key = []

theorem key_injective {p q : String} (same : projectBlueprintsKey p = projectBlueprintsKey q) : p = q := by
  have chars := congrArg String.toList same
  simp only [projectBlueprintsKey,String.toList_append,List.append_assoc] at chars
  exact String.toList_injective (List.append_cancel_right (List.append_cancel_left chars))

theorem listed_modify (s : Lists) (own project : PathId) (f : List String → List String) :
    listed e (s.modify e (projectBlueprintsKey own) f) project =
      if own = project then f (listed e s project) else listed e s project := by
  split
  · next same =>
    subst same
    cases answers : e.redisAnswers <;> simp [listed,Lists.modify,answers]
  · next apart =>
    have keys : projectBlueprintsKey project ≠ projectBlueprintsKey own := fun same =>
      apart (Subtype.ext (key_injective same).symm)
    cases answers : e.redisAnswers <;> simp [listed,Lists.modify,answers,Function.update_of_ne keys]

theorem modify_spare {s : Lists} (spare : e.redisAnswers = true → ∀ key, s.kv key = []) (key : String)
    (f : List String → List String) (answers : e.redisAnswers = true) (other : String) :
    (s.modify e key f).kv other = [] := by
  rw [Lists.modify,if_pos answers]
  exact spare answers other

theorem attached_snoc (history : List Request) (r : Request) (project : PathId) (blueprintId : String) :
    Attached e (history ++ [r]) project blueprintId ↔
      (r = .attach project blueprintId ∧ Accepted e project blueprintId) ∨
        (r ≠ .detach project blueprintId ∧ Attached e history project blueprintId) := by
  constructor
  · rintro ⟨before,later,parts,accepted,kept⟩
    rcases List.eq_nil_or_concat later with rfl | ⟨rest,last,rfl⟩
    · have ⟨_,same⟩ := List.append_inj' parts rfl
      exact .inl ⟨List.singleton_inj.mp same,accepted⟩
    · rw [List.concat_eq_append,← List.cons_append,← List.append_assoc] at parts
      obtain ⟨rfl,same⟩ := List.append_inj' parts rfl
      obtain rfl : r = last := List.singleton_inj.mp same
      rw [List.concat_eq_append,List.mem_append,List.mem_singleton,not_or] at kept
      exact .inr ⟨Ne.symm kept.2,before,rest,rfl,accepted,kept.1⟩
  · rintro (⟨rfl,accepted⟩ | ⟨other,before,later,rfl,accepted,kept⟩)
    · exact ⟨history,[],rfl,accepted,List.not_mem_nil⟩
    · refine ⟨before,later ++ [r],by simp,accepted,?_⟩
      simp [kept,Ne.symm other]

theorem attached_attach (history : List Request) (own project : PathId) (added blueprintId : String) :
    Attached e (history ++ [.attach own added]) project blueprintId ↔
      (own = project ∧ added = blueprintId ∧ Accepted e project blueprintId) ∨ Attached e history project blueprintId := by
  rw [attached_snoc]
  simp [and_assoc]

theorem attached_detach (history : List Request) (own project : PathId) (removed blueprintId : String) :
    Attached e (history ++ [.detach own removed]) project blueprintId ↔
      ¬(own = project ∧ removed = blueprintId) ∧ Attached e history project blueprintId := by
  rw [attached_snoc]
  simp

theorem attached_accepted {history : List Request} {project : PathId} {blueprintId : String}
    (attached : Attached e history project blueprintId) : Accepted e project blueprintId := by
  obtain ⟨_,_,_,accepted,_⟩ := attached
  exact accepted

theorem step_attach (s : Lists) (project : PathId) (blueprintId : String) (accepted : Accepted e project blueprintId) :
    step e s (.attach project blueprintId) = appendProjectBlueprint e s project blueprintId := by
  simp [step,handle,attachProjectBlueprint,accepted.1,accepted.2,Except.toOption]

theorem step_attach_refused (s : Lists) (project : PathId) (blueprintId : String)
    (refused : ¬Accepted e project blueprintId) : step e s (.attach project blueprintId) = s := by
  cases known : e.projectExists project <;> cases loads : e.loads blueprintId <;>
    simp_all [step,handle,attachProjectBlueprint,Accepted,Except.toOption]

theorem step_detach (s : Lists) (project : PathId) (blueprintId : String) :
    step e s (.detach project blueprintId) =
      if e.projectExists project then removeProjectBlueprint e s project blueprintId else s := by
  cases known : e.projectExists project <;> simp [step,handle,detachProjectBlueprint,known,Except.toOption]

theorem Mirrored.attach {history : List Request} {s : Lists} (mirrored : Mirrored e history s) (project : PathId)
    (blueprintId : String) :
    Mirrored e (history ++ [.attach project blueprintId]) (step e s (.attach project blueprintId)) := by
  by_cases accepted : Accepted e project blueprintId
  · rw [step_attach e s project blueprintId accepted]
    refine ⟨fun p b => ?_,modify_spare e mirrored.spare _ _⟩
    rw [appendProjectBlueprint,listed_modify,attached_attach]
    split
    · next same =>
      subst same
      rw [List.mem_append,List.mem_singleton,mirrored.listed]
      constructor
      · rintro (old | rfl)
        · exact .inr old
        · exact .inl ⟨rfl,rfl,accepted⟩
      · rintro (⟨_,same,_⟩ | old)
        · exact .inr same.symm
        · exact .inl old
    · next apart =>
      rw [mirrored.listed]
      exact ⟨.inr,fun new => new.resolve_left fun added => apart added.1⟩
  · rw [step_attach_refused e s project blueprintId accepted]
    refine ⟨fun p b => ?_,mirrored.spare⟩
    rw [mirrored.listed,attached_attach]
    refine ⟨.inr,fun new => new.resolve_left ?_⟩
    rintro ⟨rfl,rfl,other⟩
    exact accepted other

theorem Mirrored.detach {history : List Request} {s : Lists} (mirrored : Mirrored e history s) (project : PathId)
    (blueprintId : String) :
    Mirrored e (history ++ [.detach project blueprintId]) (step e s (.detach project blueprintId)) := by
  rw [step_detach]
  split
  · refine ⟨fun p b => ?_,modify_spare e mirrored.spare _ _⟩
    rw [removeProjectBlueprint,listed_modify,attached_detach]
    split
    · next same =>
      subst same
      rw [List.mem_filter,mirrored.listed,decide_eq_true_eq,and_comm]
      simp [eq_comm]
    · next apart =>
      rw [mirrored.listed]
      simp [apart]
  · next unknown =>
    refine ⟨fun p b => ?_,mirrored.spare⟩
    rw [mirrored.listed,attached_detach]
    refine ⟨fun old => ⟨?_,old⟩,fun kept => kept.2⟩
    rintro ⟨rfl,rfl⟩
    exact unknown (attached_accepted e old).1

/-- After every history. -/
theorem run_mirrored (history : List Request) : Mirrored e history (run e history) := by
  induction history using List.reverseRecOn with
  | nil =>
    refine ⟨fun project blueprintId => ?_,fun _ _ => rfl⟩
    have none : listed e (run e []) project = [] := ite_self _
    rw [none]
    refine ⟨fun member => (by cases member),?_⟩
    rintro ⟨before,later,parts,_⟩
    cases before <;> cases parts
  | append_singleton history r ih =>
    rw [run,List.foldl_append]
    cases r with
    | attach project blueprintId => exact ih.attach e project blueprintId
    | detach project blueprintId => exact ih.detach e project blueprintId

theorem allowedIds_eq {history : List Request} {s : Lists} (mirrored : Mirrored e history s) (project : PathId) :
    allowedIds e s project = listed e s project := by
  cases answers : e.redisAnswers with
  | false => simp [allowedIds,listed,answers]
  | true =>
    have empty := mirrored.spare answers (projectBlueprintsKey project)
    by_cases none : s.redis (projectBlueprintsKey project) = [] <;> simp [allowedIds,listed,answers,empty,none]

/-- A stored blueprint is started if it is listed or nothing is. -/
theorem started_iff {history : List Request} {s : Lists} (mirrored : Mirrored e history s) (project : PathId)
    {blueprintId : String} (stored : e.stored blueprintId = true) :
    startExecution e s (some project) blueprintId = .ok () ↔
      listed e s project = [] ∨ blueprintId ∈ listed e s project := by
  have named : (some project.val).filter (· ≠ "") = some project.val :=
    Option.filter_eq_some_iff.mpr ⟨rfl,decide_eq_true project.property⟩
  have found : getBlueprint e blueprintId = .ok () := if_pos stored
  simp only [startExecution,named,allowedIds_eq e mirrored project,found]
  by_cases none : listed e s project = [] <;> by_cases member : blueprintId ∈ listed e s project <;> simp [none,member]

theorem scoped_iff (history : List Request) (project : PathId) {blueprintId : String}
    (stored : e.stored blueprintId = true) :
    Scoped e history project blueprintId ↔ ∃ attached, Attached e history project attached := by
  have mirrored := run_mirrored e history
  rw [Scoped,started_iff e mirrored project stored,← mirrored.listed]
  constructor
  · intro exact
    cases content : listed e (run e history) project with
    | nil => simp [content] at exact
    | cons attached rest => exact ⟨attached,(mirrored.listed ..).mp (content ▸ List.mem_cons_self)⟩
  · rintro ⟨attached,known⟩
    have some := List.ne_nil_of_mem ((mirrored.listed ..).mpr known)
    simp [some]

/-- A blueprint is attached to the one project of this environment and detached again. -/
def lone : Environment := ⟨true,(· = "p"),(· = "a"),(["a","b"].contains ·)⟩

def loneProject : PathId := ⟨"p",by decide⟩

theorem scoped_lone : Scoped lone [.attach loneProject "a"] loneProject "b" ↔
    ∃ attached, Attached lone [.attach loneProject "a"] loneProject attached :=
  scoped_iff lone [.attach loneProject "a"] loneProject (by decide)

theorem last_detach_admits :
    startExecution lone (run lone [.attach loneProject "a",.detach loneProject "a"]) (some "p") "b" = .ok () ∧
      ¬Attached lone [.attach loneProject "a",.detach loneProject "a"] loneProject "b" := by
  refine ⟨by decide +kernel,?_⟩
  rintro ⟨before,later,parts,accepted,_⟩
  exact absurd accepted.2 (by decide)

end IceOS.ProjectScoping
