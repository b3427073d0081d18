import IceOS.PartialBlueprints
import Mathlib.Data.List.Dedup
import Mathlib.Logic.Function.Basic

/-! The structural checks of a blueprint that two routes make in the same way, and what their violations say about its
ids and dependencies. -/
namespace IceOS.StructuralDiagnostics

open Incremental

inductive ActionKind where
  | addNode
  | editNode
  | link
  | run
  | validate
  deriving DecidableEq

structure ValidateRequest where
  blueprint : Incremental.PartialBlueprint
  actions : List ActionKind

structure Violation where
  code : String
  message : String
  nodeId : Option String := none
  deriving DecidableEq

structure ValidateResponse where
  ok : Bool
  violations : List Violation
  deriving DecidableEq

/-! ### The checks -/

def ids (nodes : List PartialNodeSpec) : List String := nodes.map (·.id)

def actionViolations (actions : List ActionKind) : List Violation :=
  (if actions.isEmpty then [⟨"empty","No actions to validate",none⟩] else []) ++
    if 1 < actions.countP (· = .addNode) then [⟨"too_many_adds","Only one node addition at a time",none⟩] else []

def dupId (nodes : List PartialNodeSpec) : List Violation :=
  if (ids nodes).length ≠ (ids nodes).dedup.length then [⟨"dup_id","Duplicate node id in blueprint",none⟩] else []

def missingDep (n : PartialNodeSpec) (dep : String) : Violation :=
  ⟨"missing_dep","Dependency '" ++ dep ++ "' not found",some n.id⟩

def missingDeps (nodes : List PartialNodeSpec) : List Violation :=
  nodes.flatMap fun n => (n.dependencies.filter (· ∉ ids nodes)).map (missingDep n)

def selfDep (n : PartialNodeSpec) : Violation := ⟨"self_dep","Node depends on itself",some n.id⟩

def selfDeps (nodes : List PartialNodeSpec) : List Violation :=
  (nodes.filter fun n => n.id ∈ n.dependencies).map selfDep

/-- For every id the number of dependencies that name it. -/
def incoming (nodes : List PartialNodeSpec) : String → Nat :=
  (nodes.flatMap (·.dependencies)).foldl
    (fun counts dep => if dep ∈ ids nodes then Function.update counts dep (counts dep + 1) else counts) fun _ => 0

def portsInOne (n : PartialNodeSpec) : Violation :=
  ⟨"ports_in_one",n.type ++ " allows only one incoming edge",some n.id⟩

def ports (nodes : List PartialNodeSpec) : List Violation :=
  (nodes.filter fun n => (n.type = "condition" ∨ n.type = "loop") ∧ 1 < incoming nodes n.id).map portsInOne

def structureViolations (nodes : List PartialNodeSpec) : List Violation :=
  dupId nodes ++ missingDeps nodes ++ selfDeps nodes ++ ports nodes

def validate (req : ValidateRequest) : ValidateResponse :=
  let violations := actionViolations req.actions ++ structureViolations req.blueprint.nodes
  ⟨violations.isEmpty,violations⟩

def frostyValidate (req : ValidateRequest) : ValidateResponse := validate req

def copilotValidate (req : ValidateRequest) : ValidateResponse := validate req

/-! ### What is reported -/

/-- The other nodes that a node depends on. -/
def others (nodes : List PartialNodeSpec) (n : PartialNodeSpec) : List PartialNodeSpec :=
  nodes.filter fun m => m.id ≠ n.id ∧ m.id ∈ n.dependencies

/-- The nodes with one port for what comes in. -/
def OnePort (n : PartialNodeSpec) : Prop := n.type = "condition" ∨ n.type = "loop"

/-- The violations name just what is wrong. -/
structure Exact (nodes : List PartialNodeSpec) (violations : List Violation) : Prop where
  dup : (∃ v ∈ violations, v.code = "dup_id") ↔ ¬(ids nodes).Nodup
  missing : ∀ v, v.code = "missing_dep" →
    (v ∈ violations ↔ ∃ n ∈ nodes, ∃ dep ∈ n.dependencies, (∀ m ∈ nodes, m.id ≠ dep) ∧ v = missingDep n dep)
  self : ∀ v, v.code = "self_dep" → (v ∈ violations ↔ ∃ n ∈ nodes, n.id ∈ n.dependencies ∧ v = selfDep n)
  ports : (ids nodes).Nodup → ∀ n ∈ nodes,
    ((∃ v ∈ violations, v.code = "ports_in_one" ∧ v.nodeId = some n.id) ↔ OnePort n ∧ 1 < (others nodes n).length)

theorem incoming_count (nodes : List PartialNodeSpec) {id : String} (member : id ∈ ids nodes) :
    incoming nodes id = (nodes.flatMap (·.dependencies)).count id := by
  have counted (deps : List String) (counts : String → Nat) :
      deps.foldl (fun counts dep => if dep ∈ ids nodes then Function.update counts dep (counts dep + 1) else counts) counts
        id = counts id + deps.count id := by
    induction deps generalizing counts with
    | nil => rfl
    | cons dep rest ih =>
      rw [List.foldl_cons,ih]
      by_cases own : dep = id
      · subst own
        rw [if_pos member,Function.update_self,List.count_cons_self]
        omega
      · have same : (if dep ∈ ids nodes then Function.update counts dep (counts dep + 1) else counts) id = counts id := by
          split
          · exact Function.update_of_ne (Ne.symm own) ..
          · rfl
        rw [same,List.count_cons_of_ne own]
  rw [incoming,counted,Nat.zero_add]

theorem actionViolations_code {actions : List ActionKind} {v : Violation} (member : v ∈ actionViolations actions) :
    v.code = "empty" ∨ v.code = "too_many_adds" := by
  rcases List.mem_append.mp member with inside | inside <;> split at inside
  · exact .inl (List.mem_singleton.mp inside ▸ rfl)
  · cases inside
  · exact .inr (List.mem_singleton.mp inside ▸ rfl)
  · cases inside

theorem dupId_code {nodes : List PartialNodeSpec} {v : Violation} (member : v ∈ dupId nodes) : v.code = "dup_id" := by
  unfold dupId at member
  split at member
  · exact List.mem_singleton.mp member ▸ rfl
  · cases member

theorem dupId_iff (nodes : List PartialNodeSpec) : (∃ v, v ∈ dupId nodes) ↔ ¬(ids nodes).Nodup := by
  have same : (ids nodes).length = (ids nodes).dedup.length ↔ (ids nodes).Nodup := by
    rw [← List.dedup_eq_self]
    exact ⟨fun lengths => (List.dedup_sublist _).eq_of_length lengths.symm,fun whole => by rw [whole]⟩
  rw [dupId,← same]
  split <;> simp_all

theorem mem_missingDeps (nodes : List PartialNodeSpec) (v : Violation) : v ∈ missingDeps nodes ↔
    ∃ n ∈ nodes, ∃ dep ∈ n.dependencies, (∀ m ∈ nodes, m.id ≠ dep) ∧ v = missingDep n dep := by
  simp only [missingDeps,List.mem_flatMap,List.mem_map,List.mem_filter,decide_eq_true_eq,ids,not_exists,not_and,and_assoc,
    eq_comm (a := v)]

theorem mem_selfDeps (nodes : List PartialNodeSpec) (v : Violation) :
    v ∈ selfDeps nodes ↔ ∃ n ∈ nodes, n.id ∈ n.dependencies ∧ v = selfDep n := by
  simp only [selfDeps,List.mem_map,List.mem_filter,decide_eq_true_eq,and_assoc,eq_comm (a := v)]

theorem mem_ports (nodes : List PartialNodeSpec) (v : Violation) :
    v ∈ ports nodes ↔ ∃ n ∈ nodes, OnePort n ∧ 1 < incoming nodes n.id ∧ v = portsInOne n := by
  simp only [ports,List.mem_map,List.mem_filter,decide_eq_true_eq,and_assoc,OnePort,eq_comm (a := v)]

theorem mem_validate (req : ValidateRequest) (v : Violation) : v ∈ (validate req).violations ↔
    v ∈ actionViolations req.actions ∨ v ∈ dupId req.blueprint.nodes ∨ v ∈ missingDeps req.blueprint.nodes ∨
      v ∈ selfDeps req.blueprint.nodes ∨ v ∈ ports req.blueprint.nodes := by
  simp only [validate,structureViolations,List.mem_append,or_assoc]

/-- The check that a violation comes from, by its code. -/
structure FromCheck (req : ValidateRequest) (v : Violation) : Prop where
  dup : v.code = "dup_id" → (v ∈ (validate req).violations ↔ v ∈ dupId req.blueprint.nodes)
  missing : v.code = "missing_dep" → (v ∈ (validate req).violations ↔ v ∈ missingDeps req.blueprint.nodes)
  self : v.code = "self_dep" → (v ∈ (validate req).violations ↔ v ∈ selfDeps req.blueprint.nodes)
  ports : v.code = "ports_in_one" → (v ∈ (validate req).violations ↔ v ∈ ports req.blueprint.nodes)

theorem validate_fromCheck (req : ValidateRequest) (v : Violation) : FromCheck req v := by
  have action : v ∈ actionViolations req.actions → v.code = "empty" ∨ v.code = "too_many_adds" := actionViolations_code
  have dup : v ∈ dupId req.blueprint.nodes → v.code = "dup_id" := dupId_code
  have missing : v ∈ missingDeps req.blueprint.nodes → v.code = "missing_dep" := fun member => by
    obtain ⟨n,_,dep,_,_,rfl⟩ := (mem_missingDeps _ v).mp member
    rfl
  have self : v ∈ selfDeps req.blueprint.nodes → v.code = "self_dep" := fun member => by
    obtain ⟨n,_,_,rfl⟩ := (mem_selfDeps _ v).mp member
    rfl
  have port : v ∈ ports req.blueprint.nodes → v.code = "ports_in_one" := fun member => by
    obtain ⟨n,_,_,_,rfl⟩ := (mem_ports _ v).mp member
    rfl
  constructor
  all_goals
    intro code
    rw [mem_validate]
    simp_all

/-- All but the ports are exact. -/
theorem exact_iff_ports (req : ValidateRequest) : Exact req.blueprint.nodes (validate req).violations ↔
    ((ids req.blueprint.nodes).Nodup → ∀ n ∈ req.blueprint.nodes,
      ((∃ v ∈ (validate req).violations, v.code = "ports_in_one" ∧ v.nodeId = some n.id) ↔
        OnePort n ∧ 1 < (others req.blueprint.nodes n).length)) := by
  refine ⟨Exact.ports,fun exact => ⟨?_,fun v code => ?_,fun v code => ?_,exact⟩⟩
  · rw [← dupId_iff]
    constructor
    · rintro ⟨v,member,code⟩
      exact ⟨v,((validate_fromCheck req v).dup code).mp member⟩
    · rintro ⟨v,member⟩
      exact ⟨v,((validate_fromCheck req v).dup (dupId_code member)).mpr member,dupId_code member⟩
  · rw [(validate_fromCheck req v).missing code,mem_missingDeps]
  · rw [(validate_fromCheck req v).self code,mem_selfDeps]

/-- The nodes that the ports check names. -/
theorem ports_reported_iff (req : ValidateRequest) (distinct : (ids req.blueprint.nodes).Nodup) {n : PartialNodeSpec}
    (inside : n ∈ req.blueprint.nodes) :
    (∃ v ∈ (validate req).violations, v.code = "ports_in_one" ∧ v.nodeId = some n.id) ↔
      OnePort n ∧ 1 < (req.blueprint.nodes.flatMap (·.dependencies)).count n.id := by
  rw [← incoming_count _ (List.mem_map_of_mem inside)]
  constructor
  · rintro ⟨v,member,code,named⟩
    obtain ⟨m,known,port,more,rfl⟩ := (mem_ports _ v).mp (((validate_fromCheck req v).ports code).mp member)
    obtain rfl : m = n := List.inj_on_of_nodup_map distinct known inside (Option.some.inj named)
    exact ⟨port,more⟩
  · rintro ⟨port,more⟩
    have member : portsInOne n ∈ ports req.blueprint.nodes := (mem_ports _ _).mpr ⟨n,inside,port,more,rfl⟩
    exact ⟨portsInOne n,((validate_fromCheck req _).ports rfl).mpr member,rfl,rfl⟩

/-- Named by more than one dependency exactly if it depends on more than one other node. -/
def Balanced (nodes : List PartialNodeSpec) (n : PartialNodeSpec) : Prop :=
  1 < (nodes.flatMap (·.dependencies)).count n.id ↔ 1 < (others nodes n).length

theorem validate_exact_iff (req : ValidateRequest) : Exact req.blueprint.nodes (validate req).violations ↔
    ¬(ids req.blueprint.nodes).Nodup ∨ ∀ n ∈ req.blueprint.nodes, OnePort n → Balanced req.blueprint.nodes n := by
  rw [exact_iff_ports,imp_iff_not_or]
  by_cases distinct : (ids req.blueprint.nodes).Nodup
  · refine or_congr_right (forall₂_congr fun n inside => ?_)
    rw [ports_reported_iff req distinct inside,and_congr_right_iff]
    rfl
  · simp only [distinct,not_false_eq_true,true_or]

/-- Both routes find the ports of a node by what comes out of it. -/
theorem routes_exact_iff (req : ValidateRequest) :
    (Exact req.blueprint.nodes (frostyValidate req).violations ∧
        Exact req.blueprint.nodes (copilotValidate req).violations) ↔
      ¬(ids req.blueprint.nodes).Nodup ∨ ∀ n ∈ req.blueprint.nodes, OnePort n → Balanced req.blueprint.nodes n := by
  rw [← validate_exact_iff]
  exact and_self_iff

/-- A condition that waits for two nodes. -/
def joined : ValidateRequest where
  blueprint :=
    { blueprintId := "partial_bp_0"
      nodes :=
        [{ id := "a",type := "tool" },{ id := "b",type := "tool" },
          { id := "c",type := "condition",dependencies := ["a","b"] }] }
  actions := [.link]

theorem joined_unreported : (frostyValidate joined).violations = [] ∧
    ¬Exact joined.blueprint.nodes (frostyValidate joined).violations := by
  have none : (frostyValidate joined).violations = [] := by decide
  refine ⟨none,fun exact => ?_⟩
  have reported := exact.ports (by decide) { id := "c",type := "condition",dependencies := ["a","b"] } (by decide)
  obtain ⟨v,member,_⟩ := reported.mpr ⟨.inl rfl,by decide⟩
  rw [none] at member
  cases member

end IceOS.StructuralDiagnostics
