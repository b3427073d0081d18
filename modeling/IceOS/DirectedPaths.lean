import IceOS.DirectedGraph
import Mathlib.Data.List.Chain
import Mathlib.Data.List.Rotate

/-! Paths and simple cycles of a relation as lists without repetition, and how cycles survive when
the relation is restricted. -/
namespace DirectedGraph

open Relation (TransGen ReflTransGen)

section

variable {α : Type} {r : α → α → Prop}

/-- A path without repetition leads wherever a path leads. -/
theorem exists_simplePath {u v : α} (path : ReflTransGen r u v) :
    ∃ p, (u :: p).IsChain r ∧ (u :: p).Nodup ∧ (u :: p).getLast? = some v := by
  induction path using ReflTransGen.head_induction_on with
  | refl => exact ⟨[],.singleton v,List.nodup_singleton v,rfl⟩
  | @head a b edge _ ih =>
    obtain ⟨p,chain,nodup,last⟩ := ih
    by_cases again : a ∈ b :: p
    · obtain ⟨front,back,parts⟩ := List.append_of_mem again
      rw [parts] at chain nodup last
      refine ⟨back,chain.right_of_append,(List.nodup_append.mp nodup).2.1,?_⟩
      rw [← last,List.getLast?_append_of_ne_nil _ (List.cons_ne_nil a back)]
    · exact ⟨b :: p,.cons_cons edge chain,List.nodup_cons.mpr ⟨again,nodup⟩,by
        rw [List.getLast?_cons_cons,last]⟩

/-- A closed walk that visits no node twice, without its last step back to the first node. -/
structure SimpleCycle (r : α → α → Prop) (c : List α) : Prop where
  some : c ≠ []
  nodup : c.Nodup
  chain : c.IsChain r
  closes : ∀ u ∈ c.getLast?, ∀ v ∈ c.head?, r u v

theorem exists_simpleCycle {n : α} (cycle : TransGen r n n) : ∃ c, SimpleCycle r c ∧ n ∈ c := by
  obtain ⟨m,first,path⟩ := TransGen.head'_iff.mp cycle
  obtain ⟨p,chain,nodup,last⟩ := exists_simplePath path
  refine ⟨m :: p,⟨List.cons_ne_nil m p,nodup,chain,fun u ends v starts => ?_⟩,List.mem_of_mem_getLast? last⟩
  rw [last] at ends
  cases ends
  cases starts
  exact first

theorem chain_reaches {u v : α} {p : List α} (chain : (u :: p).IsChain r) (member : v ∈ u :: p) :
    ReflTransGen r u v :=
  chain.induction (ReflTransGen r u ·) _ (fun _ _ edge before => before.tail edge) (fun _ => .refl) v member

theorem chain_ends {v w : α} {p : List α} (chain : p.IsChain r) (member : v ∈ p) (last : w ∈ p.getLast?) :
    ReflTransGen r v w :=
  chain.backwards_induction (ReflTransGen r · w) _ (fun _ _ edge after => after.head edge)
    (fun some => by rw [List.getLast?_eq_some_getLast some] at last; cases last; exact .refl) v member

/-- Every node of a cycle comes back to itself. -/
theorem SimpleCycle.reaches {c : List α} (cycle : SimpleCycle r c) {n : α} (member : n ∈ c) : TransGen r n n := by
  cases c with
  | nil => cases member
  | cons first rest =>
    have ends : (first :: rest).getLast (List.cons_ne_nil _ _) ∈ (first :: rest).getLast? :=
      List.getLast?_eq_some_getLast _
    have back := cycle.closes _ ends first rfl
    exact (TransGen.tail' (chain_ends cycle.chain member ends) back).trans_left (chain_reaches cycle.chain member)

theorem acyclic_iff : (∀ n, ¬TransGen r n n) ↔ ∀ c, ¬SimpleCycle r c := by
  constructor
  · intro acyclic c cycle
    obtain ⟨n,member⟩ := List.exists_mem_of_ne_nil c cycle.some
    exact acyclic n (cycle.reaches member)
  · intro none n cycle
    obtain ⟨c,simple,_⟩ := exists_simpleCycle cycle
    exact none c simple

theorem SimpleCycle.mono {s : α → α → Prop} {c : List α} (cycle : SimpleCycle r c)
    (weaker : ∀ u v, r u v → s u v) : SimpleCycle s c :=
  ⟨cycle.some,cycle.nodup,cycle.chain.imp weaker,fun u ends v starts => weaker u v (cycle.closes u ends v starts)⟩

/-- A cycle may be entered anywhere. -/
theorem SimpleCycle.rotate {front back : List α} (cycle : SimpleCycle r (front ++ back)) :
    SimpleCycle r (back ++ front) := by
  obtain ⟨chain,chain',meet⟩ := List.isChain_append.mp cycle.chain
  refine ⟨fun none => cycle.some ?_,?_,?_,?_⟩
  · rw [List.append_eq_nil_iff] at none ⊢
    exact none.symm
  · exact List.nodup_append_comm.mp cycle.nodup
  · refine chain'.append chain fun u ends v starts => cycle.closes u ?_ v ?_
    · rw [List.getLast?_append,Option.mem_def.mp ends]
      rfl
    · rw [List.head?_append,Option.mem_def.mp starts]
      rfl
  · intro u ends v starts
    rw [List.getLast?_append] at ends
    rw [List.head?_append] at starts
    cases front with
    | nil =>
      refine cycle.closes u ?_ v ?_
      · simpa using ends
      · simpa using starts
    | cons a front =>
      cases back with
      | nil =>
        refine cycle.closes u ?_ v ?_
        · simpa using ends
        · simpa using starts
      | cons b back =>
        refine meet u ?_ v ?_
        · rw [List.getLast?_eq_some_getLast (List.cons_ne_nil a front)] at ends ⊢
          simpa using ends
        · simpa using starts

/-- A cycle meets a set of nodes or stays away from it altogether. -/
theorem meets_or_avoids (p : α → Prop) {n : α} (cycle : TransGen r n n) :
    (∃ m, p m ∧ TransGen r m m) ∨ TransGen (fun u v => r u v ∧ ¬p u ∧ ¬p v) n n := by
  obtain ⟨c,simple,member⟩ := exists_simpleCycle cycle
  by_cases meets : ∃ m ∈ c, p m
  · obtain ⟨m,inside,holds⟩ := meets
    exact .inl ⟨m,holds,simple.reaches inside⟩
  · right
    have away : ∀ m ∈ c, ¬p m := fun m inside holds => meets ⟨m,inside,holds⟩
    have restricted : SimpleCycle (fun u v => r u v ∧ ¬p u ∧ ¬p v) c := by
      refine ⟨simple.some,simple.nodup,?_,?_⟩
      · exact simple.chain.imp_of_mem_imp fun u v first second edge => ⟨edge,away u first,away v second⟩
      · intro u ends v starts
        exact ⟨simple.closes u ends v starts,away u (List.mem_of_mem_getLast? ends),away v (List.mem_of_mem_head? starts)⟩
    exact restricted.reaches member

/-- A path to `s` need not leave `s` before its end. -/
theorem path_avoids {u s : α} (path : ReflTransGen r u s) : ReflTransGen (fun a b => r a b ∧ a ≠ s) u s := by
  induction path using ReflTransGen.head_induction_on with
  | refl => exact .refl
  | @head a b edge _ ih =>
    by_cases here : a = s
    · rw [here]
    · exact .head ⟨edge,here⟩ ih

end

variable {κ : Type} [DecidableEq κ]

omit [DecidableEq κ] in
/-- A path without repetition is no longer than the graph has nodes. -/
theorem path_length (g : DirectedGraph κ) {u : κ} {p : List κ} (inside : u ∈ g.nodes) (chain : (u :: p).IsChain g.Edge)
    (nodup : (u :: p).Nodup) : (u :: p).length ≤ g.nodes.length := by
  have nodes : ∀ n ∈ u :: p, n ∈ g.nodes :=
    chain.induction (· ∈ g.nodes) _ (fun _ _ edge _ => (g.closed _ edge).2) fun _ => inside
  exact (nodup.subperm nodes).length_le

/-- A graph can be ranked along its edges when it has no cycle. -/
theorem ranked_iff (g : DirectedGraph κ) :
    (∃ rank : κ → Nat, ∀ u v, g.Edge u v → rank u < rank v) ↔ ∀ c, ¬SimpleCycle g.Edge c := by
  rw [← acyclic_iff]
  constructor
  · rintro ⟨rank,rising⟩
    exact g.acyclic_of_numbering rank fun e edge => rising e.1 e.2 edge
  · intro acyclic
    exact ⟨g.rank,fun u v edge => g.rank_lt acyclic edge⟩

theorem spread_keeps (g : DirectedGraph κ) (fuel : Nat) (found : List κ) {v : κ} (member : v ∈ found) :
    v ∈ g.spread fuel found := by
  induction fuel generalizing found with
  | zero => exact member
  | succ fuel ih =>
    apply ih
    rw [List.mem_dedup]
    exact List.mem_append_left _ member

/-- The search finds the end of every path that is not longer than its fuel. -/
theorem spread_complete (g : DirectedGraph κ) {u v : κ} {p : List κ} (chain : (u :: p).IsChain g.Edge)
    (last : (u :: p).getLast? = some v) {fuel : Nat} (enough : p.length ≤ fuel) {found : List κ} (start : u ∈ found) :
    v ∈ g.spread fuel found := by
  induction p generalizing u fuel found with
  | nil =>
    cases last
    exact g.spread_keeps fuel found start
  | cons w p ih =>
    cases fuel with
    | zero => simp at enough
    | succ fuel =>
      have edge := (List.isChain_cons_cons.mp chain).1
      change v ∈ g.spread fuel ((found ++ found.flatMap g.successors).dedup)
      refine ih (List.isChain_cons_cons.mp chain).2 (by rwa [List.getLast?_cons_cons] at last)
        (by simpa using enough) ?_
      rw [List.mem_dedup,List.mem_append,List.mem_flatMap]
      exact .inr ⟨u,start,(g.mem_successors u w).mpr edge⟩

theorem generations_inside (g : DirectedGraph κ) (fuel : Nat) (placed : List κ) (inside : ∀ n ∈ placed, n ∈ g.nodes) :
    ∀ n ∈ g.generations fuel placed, n ∈ g.nodes := by
  induction fuel generalizing placed with
  | zero => exact inside
  | succ fuel ih =>
    apply ih
    intro n member
    rcases List.mem_append.mp member with old | new
    · exact inside n old
    · exact List.mem_of_mem_filter new

theorem generations_sound (g : DirectedGraph κ) (fuel : Nat) (placed : List κ) (inv : g.Placed placed) :
    g.Placed (g.generations fuel placed) := by
  induction fuel generalizing placed with
  | zero => exact inv
  | succ fuel ih => exact ih _ inv.generation

/-- Only an acyclic graph has a topological order. -/
theorem TopologicalOrder.acyclic {g : DirectedGraph κ} {order : List κ} (sorted : g.TopologicalOrder order) :
    g.Acyclic := by
  refine g.acyclic_of_numbering (order.idxOf ·) fun e edge => ?_
  obtain ⟨before,after,parts⟩ := List.append_of_mem (sorted.complete e.2 (g.closed e edge).2)
  have placed := sorted.sorted before e.2 after parts e.1 edge
  have nodup := sorted.nodup
  rw [parts] at nodup ⊢
  have new : e.2 ∉ before := fun old => (List.nodup_append.mp nodup).2.2 _ old _ List.mem_cons_self rfl
  rw [List.idxOf_append_of_mem placed,List.idxOf_append_of_notMem new,List.idxOf_cons_self]
  exact Nat.lt_of_lt_of_le (List.idxOf_lt_length_of_mem placed) (Nat.le_add_right _ _)

/-- Sorting by generations places every node exactly on acyclic graphs. -/
theorem generations_length (g : DirectedGraph κ) :
    (g.generations g.nodes.length []).length = g.nodes.length ↔ g.Acyclic := by
  have inside := g.generations_inside g.nodes.length [] (by simp)
  constructor
  · intro whole
    have placed := g.generations_sound g.nodes.length [] ⟨by simp,by simp⟩
    have all := (placed.nodup.subperm inside).perm_of_length_le whole.ge
    exact TopologicalOrder.acyclic ⟨placed.nodup,fun n member => all.mem_iff.mpr member,placed.sorted⟩
  · intro acyclic
    have order := g.generations_order acyclic
    exact Nat.le_antisymm (order.nodup.subperm inside).length_le (g.nodup.subperm order.complete).length_le

/-! ### Heights -/

/-- The number of edges on a longest path to a node. -/
def height (g : DirectedGraph κ) (acyclic : g.Acyclic) (n : κ) : Int :=
  ((g.predecessors n).attach.map fun u => g.height acyclic u.1).foldl max (-1) + 1
termination_by g.rank n
decreasing_by exact g.rank_lt acyclic ((g.mem_predecessors _ _).mp u.2)

theorem height_eq (g : DirectedGraph κ) (acyclic : g.Acyclic) (n : κ) :
    g.height acyclic n = ((g.predecessors n).map (g.height acyclic)).foldl max (-1) + 1 := by
  rw [height,List.attach_map_val (l := g.predecessors n) (f := g.height acyclic)]

/-- Only the heights obey their equation. -/
theorem eq_height (g : DirectedGraph κ) (acyclic : g.Acyclic) {L : κ → Int}
    (exact : ∀ n ∈ g.nodes, L n = ((g.predecessors n).map L).foldl max (-1) + 1) {n : κ} (member : n ∈ g.nodes) :
    L n = g.height acyclic n := by
  induction lower : g.rank n using Nat.strong_induction_on generalizing n with
  | _ rank ih =>
    rw [exact n member,height_eq]
    congr 2
    refine List.map_congr_left fun u before => ?_
    have edge := (g.mem_predecessors u n).mp before
    exact ih (g.rank u) (lower ▸ g.rank_lt acyclic edge) (g.closed (u,n) edge).1 rfl

end DirectedGraph
