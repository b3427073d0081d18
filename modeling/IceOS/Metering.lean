import IceOS.NestedLedgers
import Mathlib.Algebra.Order.BigOperators.Group.List
import Mathlib.Algebra.Order.Ring.Rat
import Mathlib.Data.Nat.Cast.Order.Ring

/-! What the metrics and the budget of a run say of its LLM invocations, whose prices are in the table of `costs.py`.
The two are complete exactly if every invocation is free and no usage is left behind on the way to the metrics. -/
namespace IceOS

namespace Metering

open Workflow

/-! ### Prices -/

/-- Prices per token of the prompt and of the completion, in dollars. -/
def openaiPrices : List (String × Rat × Rat) :=
  [("gpt-4o",5 / 1000000,15 / 1000000),("gpt-4o-mini",3 / 1000000,9 / 1000000),
    ("gpt-4-turbo",10 / 1000000,30 / 1000000),("gpt-4",30 / 1000000,60 / 1000000),
    ("gpt-3.5-turbo",5 / 10000000,15 / 10000000),("gpt-4-turbo-2024-04-09",10 / 1000000,30 / 1000000)]

def pricingTable : ModelProvider → Option (List (String × Rat × Rat))
  | .openai => some openaiPrices
  | _ => none

/-- Unknown models cost nothing. -/
def getPricePerToken (provider : ModelProvider) (model : String) : Rat × Rat :=
  ((pricingTable provider).bind fun table => table.lookup model).getD (0,0)

def calculateCost (provider : ModelProvider) (model : String) (promptTokens completionTokens : Nat) : Rat :=
  let (promptPrice,completionPrice) := getPricePerToken provider model
  promptPrice * promptTokens + completionPrice * completionTokens

theorem prices_nonneg (provider : ModelProvider) (model : String) :
    0 ≤ (getPricePerToken provider model).1 ∧ 0 ≤ (getPricePerToken provider model).2 := by
  simp only [getPricePerToken]
  cases found : (pricingTable provider).bind fun table => table.lookup model with
  | none => exact ⟨le_refl _,le_refl _⟩
  | some price =>
    obtain ⟨table,priced,listed⟩ := Option.bind_eq_some_iff.mp found
    have all : ∀ entry ∈ openaiPrices, 0 ≤ entry.2.1 ∧ 0 ≤ entry.2.2 := by decide +kernel
    cases provider with
    | openai =>
      cases priced
      obtain ⟨_,_,parts,_⟩ := List.lookup_eq_some_iff.mp listed
      exact all (model,price) (by rw [parts]; simp)
    | anthropic | google | deepseek | custom => cases priced

theorem calculateCost_nonneg (provider : ModelProvider) (model : String) (promptTokens completionTokens : Nat) :
    0 ≤ calculateCost provider model promptTokens completionTokens := by
  obtain ⟨prompt,completion⟩ := prices_nonneg provider model
  exact add_nonneg (mul_nonneg prompt (Nat.cast_nonneg _)) (mul_nonneg completion (Nat.cast_nonneg _))

/-- The price of a model applied to what was reported. -/
def cost (call : LlmCall) : Rat :=
  (call.usage.map fun u => calculateCost call.provider call.model u.promptTokens u.completionTokens).getD 0

def Note.call? : Note → Option LlmCall
  | .invoked call => some call
  | _ => none

def invocations (notes : List Note) : List LlmCall := notes.filterMap Note.call?

/-- The tokens that come back with the executions of a level and are not counted: those of results that are replaced
under their key, those of recursive flows, and those of results that a token abort leaves unbooked. -/
def unbooked {ω : Type} (wf : Workflow) (eng : Engine (Running ω)) (limit : Nat) (b : LevelStart (Running ω)) : Nat :=
  match wf.phasesRun eng limit b with
  | none => 0
  | some (levelResults,gathered,flowed) =>
    (handed (gathered.world.notes.drop b.state.world.notes.length) - meteredSum levelResults.items) +
      handed (flowed.world.notes.drop gathered.world.notes.length) + meteredSum (wf.dropped levelResults.items flowed)

section

variable {ω : Type} (rt : ExecutorRuntime ω) {call : Workflow → NodeConfig → Context → Running ω → Reply × Running ω}
  (replied : ∀ wf node ctx s, Replied s (call wf node ctx s))

include replied

end

/-! ### Whole runs -/

/-- Every invocation is free, and the tokens of each come out of an execution of one of the run's own nodes in the
usage of a result that is booked. -/
structure Complete {ω : Type} (rt : ExecutorRuntime ω) (depth : Nat) (wf : Workflow) (w : ω) : Prop where
  free : ∀ call ∈ invocations (rt.execute depth wf w).session.notes, cost call = 0
  handedOn : ∀ tokens, .dropped tokens ∈ (rt.execute depth wf w).session.notes → tokens = 0
  booked : ∀ start ∈ wf.starts (rt.engine false (rt.invoke depth) wf) (depth + 1) (rt.beginning w),
    unbooked wf (rt.engine false (rt.invoke depth) wf) (depth + 1) start.1 = 0

end Metering

end IceOS
