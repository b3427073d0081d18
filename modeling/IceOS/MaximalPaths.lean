import IceOS.DirectedPaths
import Mathlib.Data.List.Permutation
import Mathlib.Data.List.Sublists
import Mathlib.Order.Lattice

/-! Paths of greatest value. A graph without cycles has finitely many paths, so it has one, however they are valued. -/
namespace DirectedGraph

variable {κ δ : Type}

/-- Only a graph without nodes has the empty path. -/
structure IsPath (g : DirectedGraph κ) (p : List κ) : Prop where
  inside : ∀ n ∈ p, n ∈ g.nodes
  chain : p.IsChain g.Edge
  some : p = [] → g.nodes = []

/-- No path has a greater value. -/
structure Maximal [LE δ] (g : DirectedGraph κ) (value : List κ → δ) (p : List κ) : Prop where
  isPath : g.IsPath p
  greatest : ∀ q, g.IsPath q → value q ≤ value p

theorem IsPath.nodup {g : DirectedGraph κ} (acyclic : g.Acyclic) {p : List κ} (path : g.IsPath p) : p.Nodup := by
  have related := List.isChain_iff_pairwise.mp (path.chain.imp fun _ _ edge => Relation.TransGen.single edge)
  refine List.Pairwise.imp (fun {u v} reaches => ?_) related
  rintro rfl
  exact acyclic u reaches

/-- All lists of nodes without repetition. -/
def arrangements (g : DirectedGraph κ) : List (List κ) := g.nodes.sublists.flatMap List.permutations

theorem mem_arrangements {g : DirectedGraph κ} {p : List κ} (nodup : p.Nodup) (inside : ∀ n ∈ p, n ∈ g.nodes) :
    p ∈ g.arrangements := by
  obtain ⟨listed,same,part⟩ := nodup.subperm inside
  exact List.mem_flatMap.mpr ⟨listed,List.mem_sublists.mpr part,List.mem_permutations.mpr same.symm⟩

theorem exists_isPath (g : DirectedGraph κ) : ∃ p, g.IsPath p := by
  cases nodes : g.nodes with
  | nil => exact ⟨[],by simp,.nil,fun _ => nodes⟩
  | cons n rest => exact ⟨[n],by simp [nodes],.singleton n,by simp⟩

theorem exists_maximal [LinearOrder δ] (g : DirectedGraph κ) (acyclic : g.Acyclic) (value : List κ → δ) :
    ∃ p, g.Maximal value p := by
  classical
  obtain ⟨first,path⟩ := g.exists_isPath
  have listed (p : List κ) (path : g.IsPath p) : p ∈ (g.arrangements.filter g.IsPath).toFinset := by
    rw [List.mem_toFinset,List.mem_filter]
    exact ⟨mem_arrangements (path.nodup acyclic) path.inside,decide_eq_true path⟩
  obtain ⟨p,member,greatest⟩ := Finset.exists_max_image _ value ⟨first,listed first path⟩
  rw [List.mem_toFinset,List.mem_filter] at member
  exact ⟨p,of_decide_eq_true member.2,fun q path => greatest q (listed q path)⟩

end DirectedGraph
