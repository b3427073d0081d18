import IceOS.PartialBlueprints
import IceOS.StackSearch

/-! The run plan of a blueprint. For a selected node it lists what the node depends on; a stack holds the ids that are
still to be looked at. -/
namespace IceOS.FrostyActions

open Incremental

inductive Scope where
  | graph
  | selection
  deriving DecidableEq

structure RunPlanRequest where
  blueprint : Incremental.PartialBlueprint
  selection : Option String := none

structure RunPlanResponse where
  scope : Scope
  expectedNodes : List String
  deriving DecidableEq

/-- Later nodes override, and an unknown id has no dependencies. -/
def depsOf (nodes : List PartialNodeSpec) (id : String) : List String :=
  ((OrderedDict.ofList (nodes.map fun n => (n.id,n.dependencies))).get? id).getD []

/-- An empty selection counts as none. Without fuel there is no answer. -/
def runPlan (fuel : Nat) (req : RunPlanRequest) : Option RunPlanResponse :=
  let nodes := req.blueprint.nodes
  match req.selection.filter (· ≠ "") with
  | some selection => do
    let included ← StackSearch.collect (depsOf nodes) fuel [selection] []
    return ⟨.selection,(nodes.map (·.id)).filter (· ∈ included)⟩
  | none => some ⟨.graph,nodes.map (·.id)⟩

/-! ### What is planned -/

/-- Some node with the id has the dependency. -/
def Depends (nodes : List PartialNodeSpec) (id dep : String) : Prop := ∃ n ∈ nodes, n.id = id ∧ dep ∈ n.dependencies

/-- The nodes that the selected one depends on and itself, each once and in the order of the blueprint. -/
structure Planned (nodes : List PartialNodeSpec) (selection : String) (plan : List String) : Prop where
  reached : ∀ id, id ∈ plan ↔ id ∈ nodes.map (·.id) ∧ Relation.ReflTransGen (Depends nodes) selection id
  once : plan.Nodup
  order : plan.Sublist (nodes.map (·.id))
  closed : ∀ n ∈ nodes, n.id ∈ plan → ∀ dep ∈ n.dependencies, dep ∈ nodes.map (·.id) → dep ∈ plan

theorem depsOf_outside (nodes : List PartialNodeSpec) (id : String) (outside : id ∉ nodes.map (·.id)) :
    depsOf nodes id = [] :=
  OrderedDict.getD_ofList_absent (fun n : PartialNodeSpec => n.id) (fun n => n.dependencies) outside

theorem mem_depsOf_iff {nodes : List PartialNodeSpec} (distinct : (nodes.map (·.id)).Nodup) (id dep : String) :
    dep ∈ depsOf nodes id ↔ Depends nodes id dep :=
  OrderedDict.mem_getD_ofList (fun n : PartialNodeSpec => n.id) (fun n => n.dependencies) distinct id dep

/-- What is collected is what the selected node depends on. -/
theorem leads_iff {nodes : List PartialNodeSpec} (distinct : (nodes.map (·.id)).Nodup) (selection id : String) :
    StackSearch.Leads (depsOf nodes) selection id ↔ Relation.ReflTransGen (Depends nodes) selection id := by
  have same : (fun a b => b ∈ depsOf nodes a) = Depends nodes :=
    funext fun a => funext fun b => propext (mem_depsOf_iff distinct a b)
  rw [StackSearch.Leads,same]

theorem filter_planned {nodes : List PartialNodeSpec} (distinct : (nodes.map (·.id)).Nodup) {selection : String}
    {included : List String} (exact : ∀ id, id ∈ included ↔ StackSearch.Leads (depsOf nodes) selection id) :
    Planned nodes selection ((nodes.map (·.id)).filter (· ∈ included)) where
  reached id := by simp only [List.mem_filter,decide_eq_true_eq,exact,leads_iff distinct]
  once := distinct.filter _
  order := List.filter_sublist
  closed n inside member dep depends known := by
    simp only [List.mem_filter,decide_eq_true_eq,exact,leads_iff distinct] at member ⊢
    exact ⟨known,member.2.tail ⟨n,inside,rfl,depends⟩⟩

/-- With fuel for every dependency of every node there is an answer, and it is the plan of the selected node. -/
theorem runPlan_closure (blueprint : Incremental.PartialBlueprint) (distinct : (blueprint.nodes.map (·.id)).Nodup)
    (selection : String) (named : selection ≠ "") :
    ∃ plan, Planned blueprint.nodes selection plan ∧
      ∀ fuel, StackSearch.work (depsOf blueprint.nodes) (blueprint.nodes.map (·.id)) [selection] [] ≤ fuel →
        runPlan fuel ⟨blueprint,some selection⟩ = some ⟨.selection,plan⟩ := by
  have outside := depsOf_outside blueprint.nodes
  obtain ⟨included,_,exact⟩ := StackSearch.collect_iff outside
    (Nat.le_refl (StackSearch.work (depsOf blueprint.nodes) (blueprint.nodes.map (·.id)) [selection] []))
  refine ⟨_,filter_planned distinct exact,fun fuel enough => ?_⟩
  obtain ⟨found,ended,same⟩ := StackSearch.collect_iff outside enough
  have planned : (blueprint.nodes.map (·.id)).filter (· ∈ found) = (blueprint.nodes.map (·.id)).filter (· ∈ included) :=
    List.filter_congr fun id _ => decide_eq_decide.mpr ((same id).trans (exact id).symm)
  have given : (some selection).filter (· ≠ "") = some selection :=
    Option.filter_eq_some_iff.mpr ⟨rfl,by simpa using named⟩
  simp only [runPlan,given,ended,bind,Option.bind]
  rw [planned]
  rfl

/-- A cycle, a dangling dependency and a node apart. -/
def linked : Incremental.PartialBlueprint where
  blueprintId := "partial_bp_0"
  nodes :=
    [{ id := "a",type := "tool",dependencies := ["b","gone"] },{ id := "c",type := "tool" },
      { id := "b",type := "llm",dependencies := ["a","a"] }]

theorem runPlan_linked : ∃ plan, Planned linked.nodes "b" plan ∧
    ∀ fuel, StackSearch.work (depsOf linked.nodes) (linked.nodes.map (·.id)) ["b"] [] ≤ fuel →
      runPlan fuel ⟨linked,some "b"⟩ = some ⟨.selection,plan⟩ :=
  runPlan_closure linked (by decide) "b" (by decide)

example : runPlan 9 ⟨linked,some "b"⟩ = some ⟨.selection,["a","b"]⟩ := by decide

/-- A node and one that it does not depend on. -/
def unnamed : Incremental.PartialBlueprint where
  blueprintId := "partial_bp_0"
  nodes := [{ id := "",type := "tool" },{ id := "b",type := "tool" }]

/-- An empty id cannot be selected. -/
theorem empty_selection : (unnamed.nodes.map (·.id)).Nodup ∧ runPlan 9 ⟨unnamed,some ""⟩ = some ⟨.graph,["","b"]⟩ ∧
    ¬Planned unnamed.nodes "" ["","b"] := by
  refine ⟨by decide,by decide,fun planned => ?_⟩
  obtain ⟨_,path⟩ := (planned.reached "b").mp (by decide)
  rcases path.cases_head with same | ⟨dep,⟨n,inside,_,depends⟩,_⟩
  · exact absurd same (by decide)
  · have none : ∀ n ∈ unnamed.nodes, n.dependencies = [] := by decide
    rw [none n inside] at depends
    cases depends

end IceOS.FrostyActions
