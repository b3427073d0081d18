import IceOS.NodeModels
import IceOS.SlotStarvation
import Mathlib.Algebra.BigOperators.Fin

/-! The coroutines of one workflow level share a semaphore with `max_parallel` slots; each
takes as many as its node weighs before it runs the node and returns them afterwards. -/
namespace IceOS

open FifoSemaphore

/-- `LLMNodeConfig` is the only class the heuristic knows. -/
def estimateComplexity (node : NodeConfig) : Nat := if node.type = .llm then 2 else 1

/-- The weight `process_node` asks the level's `WeightedSemaphore` for. -/
def levelWeight (nodes : List NodeConfig) (i : Fin nodes.length) : Nat :=
  max 1 (estimateComplexity nodes[i])

def llmCount (nodes : List NodeConfig) : Nat := nodes.countP (·.type = .llm)

/-- No schedule of the level's coroutines ends with all unfinished ones waiting for slots. -/
def LevelDeadlockFree (maxParallel : Nat) (nodes : List NodeConfig) : Prop :=
  ∀ s, Reachable (levelWeight nodes) maxParallel s → ¬Deadlock s

theorem levelWeight_eq (nodes : List NodeConfig) (i : Fin nodes.length) :
    levelWeight nodes i = 1 + if nodes[i].type = .llm then 1 else 0 := by
  simp only [levelWeight,estimateComplexity]
  split <;> rfl

theorem levelWeight_light (nodes : List NodeConfig) (i : Fin nodes.length) :
    levelWeight nodes i = 1 ∨ levelWeight nodes i = 2 := by
  rw [levelWeight_eq]
  split <;> simp

theorem llmCount_eq_sum (nodes : List NodeConfig) :
    llmCount nodes = ∑ i : Fin nodes.length, if nodes[i].type = .llm then 1 else 0 := by
  induction nodes with
  | nil => rfl
  | cons node rest ih =>
    have split := Fin.sum_univ_succ (n := rest.length)
      fun i => if (node :: rest)[i].type = .llm then 1 else 0
    simp only [llmCount,List.countP_cons,decide_eq_true_eq] at ih ⊢
    rw [ih,Nat.add_comm]
    exact split.symm

theorem card_heavy (nodes : List NodeConfig) : (heavy (levelWeight nodes)).card = llmCount nodes := by
  rw [heavy,Finset.card_filter,llmCount_eq_sum]
  refine Finset.sum_congr rfl fun i _ => ?_
  rw [levelWeight_eq]
  split <;> simp

theorem sum_levelWeight (nodes : List NodeConfig) :
    ∑ i, levelWeight nodes i = nodes.length + llmCount nodes := by
  simp only [levelWeight_eq,Finset.sum_add_distrib,← llmCount_eq_sum]
  simp

/-- A level is safe exactly when it has no LLM node, or more than one slot and either fewer
LLM nodes than slots or less than three times the slots in total weight. -/
theorem levelDeadlockFree_iff (maxParallel : Nat) (nodes : List NodeConfig)
    (positive : 1 ≤ maxParallel) :
    LevelDeadlockFree maxParallel nodes ↔
      llmCount nodes = 0 ∨ (2 ≤ maxParallel ∧
        (llmCount nodes < maxParallel ∨ nodes.length + llmCount nodes < 3 * maxParallel)) := by
  have exact := deadlock_iff (levelWeight_light nodes) positive
  rw [Starvable,card_heavy,sum_levelWeight] at exact
  have : LevelDeadlockFree maxParallel nodes ↔
      ¬∃ s, Reachable (levelWeight nodes) maxParallel s ∧ Deadlock s := by
    simp [LevelDeadlockFree]
  rw [this,exact]
  omega

abbrev threeLlmNodes : List NodeConfig :=
  [{ id := "a",type := .llm },{ id := "b",type := .llm },{ id := "c",type := .llm }]

theorem three_llm_nodes_fit_three_slots : LevelDeadlockFree 3 threeLlmNodes :=
  (levelDeadlockFree_iff 3 threeLlmNodes (by decide)).mpr (by decide)

/-- With two slots the first node runs while the others queue; its two slots go to one
each of them, and each then queues for a second one. -/
theorem three_llm_nodes_starve_two_slots :
    ¬∀ (maxParallel : Nat) (nodes : List NodeConfig), 1 ≤ maxParallel →
      LevelDeadlockFree maxParallel nodes := by
  intro free
  let weight : Fin 3 → Nat := levelWeight threeLlmNodes
  have phases : (run weight [0,1,2,0,1,2] (State.initial 2)).map
      (fun s => (s.phase 0,s.phase 1,s.phase 2)) = some (.exited,.queued 1,.queued 1) := by decide
  obtain ⟨s,ran,ends⟩ := Option.map_eq_some_iff.mp phases
  simp only [Prod.mk.injEq] at ends
  obtain ⟨first,second,third⟩ := ends
  refine free 2 threeLlmNodes (by decide) s (steps_of_run ran) ⟨⟨(1 : Fin 3),by simp [second]⟩,?_⟩
  intro (i : Fin 3) live
  match i with
  | 0 => exact absurd first live
  | 1 => simp [Blocked,second,Phase.pending]
  | 2 => simp [Blocked,third,Phase.pending]

end IceOS
