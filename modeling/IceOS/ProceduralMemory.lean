import IceOS.NestedIndex
import IceOS.NodeModels

/-! The procedural memory: procedures by key, indexed by category and by context, with counts and scores of
their executions by domain. -/
namespace IceOS

/-- The metadata that come with a procedure. -/
structure ProcedureMetadata (ρ : Type) where
  category : Option String := none
  type : Option String := none
  domain : Option String := none
  contexts : Option (List String) := none
  prerequisites : Option (List String) := none
  outcomes : Option (List String) := none
  successRate : Option ρ := none

structure Procedure (ρ : Type) where
  content : Value
  category : String
  type : String
  domain : String
  contexts : List String
  prerequisites : List String
  outcomes : List String
  successRate : ρ
  usageCount : Nat := 0
  lastUsed : Option Int := none

structure ExecutionOutcome (ρ δ : Type) where
  successScore : Option ρ := none
  learnedAdjustments : Option δ := none

/-- One half, the average that weighs recent scores more heavily, and what adjustments make of a content. -/
structure ProceduralRules (ρ δ : Type) where
  half : ρ
  weightedAverage : List ρ → ρ
  applyLearnedAdjustments : Value → δ → Value

structure ProceduralMemory (ρ : Type) where
  procedures : OrderedDict String (Procedure ρ) := .empty
  successMetrics : NestedIndex String String ρ := .empty
  usageCounts : OrderedDict String (OrderedDict String Nat) := .empty
  categoryIndex : NestedIndex String String String := .empty
  contextIndex : NestedIndex String String String := .empty

inductive ProceduralRequest (ρ δ : Type) where
  | store (key : String) (content : Value) (metadata : ProcedureMetadata ρ)
  | delete (key : String)
  | recordExecution (key : String) (outcome : ExecutionOutcome ρ δ) (now : Int)

/-- A dictionary with a name. -/
def Value.isProcedure (content : Value) : Bool :=
  content.isDict && content.entries.any fun entry => entry.1 = "name"

def ProcedureMetadata.complete (m : ProcedureMetadata ρ) (half : ρ) (content : Value) : Procedure ρ where
  content := content
  category := m.category.getD "general"
  type := m.type.getD "generic"
  domain := m.domain.getD "general"
  contexts := m.contexts.getD []
  prerequisites := m.prerequisites.getD []
  outcomes := m.outcomes.getD []
  successRate := m.successRate.getD half

namespace ProceduralMemory

variable {ρ δ : Type}

/-- `_usage_counts[domain][key]` -/
def usage (s : ProceduralMemory ρ) (domain key : String) : Nat :=
  ((s.usageCounts.get? domain).bind fun counts => counts.get? key).getD 0

/-- A content that is no procedure is refused. -/
def store (rules : ProceduralRules ρ δ) (key : String) (content : Value) (metadata : ProcedureMetadata ρ)
    (s : ProceduralMemory ρ) : ProceduralMemory ρ :=
  if !content.isProcedure then s
  else
    let p := metadata.complete rules.half content
    { s with
      procedures := s.procedures.set key p
      categoryIndex := s.categoryIndex.append p.category p.type key
      contextIndex := p.contexts.foldl (fun idx context => idx.append p.domain context key) s.contextIndex }

/-- The usage counts are searched for a domain of the key's name. -/
def delete (key : String) (s : ProceduralMemory ρ) : ProceduralMemory ρ :=
  match s.procedures.get? key with
  | none => s
  | some p =>
    { procedures := s.procedures.erase key
      successMetrics := s.successMetrics.mapValues fun metrics => metrics.erase key
      usageCounts := s.usageCounts.erase key
      categoryIndex := s.categoryIndex.removeIfListed p.category p.type key
      contextIndex := p.contexts.foldl (fun idx context => idx.removeIfListed p.domain context key) s.contextIndex }

def recordExecution (rules : ProceduralRules ρ δ) (key : String) (outcome : ExecutionOutcome ρ δ) (now : Int)
    (s : ProceduralMemory ρ) : ProceduralMemory ρ :=
  match s.procedures.get? key with
  | none => s
  | some p =>
    let count := s.usage p.domain key + 1
    let metrics := s.successMetrics.append p.domain key (outcome.successScore.getD rules.half)
    let scores := metrics.list p.domain key
    let p := { p with
      usageCount := count
      lastUsed := some now
      successRate := if 1 < scores.length then rules.weightedAverage scores else p.successRate
      content := outcome.learnedAdjustments.elim p.content (rules.applyLearnedAdjustments p.content) }
    { s with
      procedures := s.procedures.set key p
      usageCounts := s.usageCounts.set p.domain (((s.usageCounts.get? p.domain).getD .empty).set key count)
      successMetrics := metrics }

def step (rules : ProceduralRules ρ δ) (s : ProceduralMemory ρ) : ProceduralRequest ρ δ → Option (ProceduralMemory ρ)
  | .store key content metadata => some (s.store rules key content metadata)
  | .delete key => some (s.delete key)
  | .recordExecution key outcome now => some (s.recordExecution rules key outcome now)

end ProceduralMemory

end IceOS
