import Mathlib.Data.Finset.Card
import Mathlib.Data.Finset.Max
import Mathlib.Logic.Relation

/-! Finite directed graphs as insertion-ordered node and edge lists. In an acyclic graph
the number of ancestors is a rank that grows along every edge. -/

structure DirectedGraph (κ : Type) where
  nodes : List κ
  edges : List (κ × κ)
  nodup : nodes.Nodup
  closed : ∀ e ∈ edges, e.1 ∈ nodes ∧ e.2 ∈ nodes

namespace DirectedGraph

variable {κ : Type} [DecidableEq κ]

def empty : DirectedGraph κ := ⟨[],[],by simp,by simp⟩

def addNode (g : DirectedGraph κ) (n : κ) : DirectedGraph κ where
  nodes := if n ∈ g.nodes then g.nodes else g.nodes ++ [n]
  edges := g.edges
  nodup := by
    split
    · exact g.nodup
    · next fresh =>
      exact List.nodup_append.mpr ⟨g.nodup,List.nodup_singleton n,fun a inside b single =>
        (List.mem_singleton.mp single).symm ▸ fun same => fresh (same ▸ inside)⟩
  closed := fun e member => by
    have ⟨source,target⟩ := g.closed e member
    split <;> simp [source,target]

theorem mem_addNode (g : DirectedGraph κ) (n m : κ) : m ∈ (g.addNode n).nodes ↔ m ∈ g.nodes ∨ m = n := by
  simp only [addNode]
  split
  · next present => exact ⟨.inl,fun h => h.elim id fun same => same ▸ present⟩
  · simp

/-- Endpoints that are not yet nodes become nodes. -/
def addEdge (g : DirectedGraph κ) (u v : κ) : DirectedGraph κ where
  nodes := ((g.addNode u).addNode v).nodes
  edges := if (u,v) ∈ g.edges then g.edges else g.edges ++ [(u,v)]
  nodup := ((g.addNode u).addNode v).nodup
  closed := fun e member => by
    simp only [mem_addNode]
    split at member
    · have ⟨source,target⟩ := g.closed e member
      exact ⟨.inl (.inl source),.inl (.inl target)⟩
    · rcases List.mem_append.mp member with old | new
      · have ⟨source,target⟩ := g.closed e old
        exact ⟨.inl (.inl source),.inl (.inl target)⟩
      · simp [List.mem_singleton.mp new]

def removeEdge (g : DirectedGraph κ) (u v : κ) : DirectedGraph κ :=
  ⟨g.nodes,g.edges.filter (· ≠ (u,v)),g.nodup,fun e member => g.closed e (List.mem_of_mem_filter member)⟩

def predecessors (g : DirectedGraph κ) (v : κ) : List κ :=
  (g.edges.filter fun e => e.2 = v).map Prod.fst

def successors (g : DirectedGraph κ) (u : κ) : List κ :=
  (g.edges.filter fun e => e.1 = u).map Prod.snd

/-- Edges in the order in which their sources became nodes. -/
def edgesByNode (g : DirectedGraph κ) : List (κ × κ) :=
  g.nodes.flatMap fun u => (g.successors u).map (u,·)

def sinks (g : DirectedGraph κ) : List κ := g.nodes.filter fun n => (g.successors n).isEmpty

def Edge (g : DirectedGraph κ) (u v : κ) : Prop := (u,v) ∈ g.edges

theorem edge_addEdge (g : DirectedGraph κ) (u v a b : κ) :
    (g.addEdge u v).Edge a b ↔ g.Edge a b ∨ (a = u ∧ b = v) := by
  simp only [Edge,addEdge]
  split
  · next present => exact ⟨.inl,fun h => h.elim id fun ⟨source,target⟩ => source ▸ target ▸ present⟩
  · simp

theorem edge_removeEdge (g : DirectedGraph κ) (u v a b : κ) :
    (g.removeEdge u v).Edge a b ↔ g.Edge a b ∧ ¬(a = u ∧ b = v) := by
  simp [Edge,removeEdge,imp_iff_not_or]

/-- A path with at least one edge. -/
def Reaches (g : DirectedGraph κ) : κ → κ → Prop := Relation.TransGen g.Edge

def Acyclic (g : DirectedGraph κ) : Prop := ∀ n, ¬g.Reaches n n

/-- In a cycle every edge has one before and one behind it. -/
theorem cycle_inner {α : Type} {r s : α → α → Prop} (inner : ∀ w x y z, r w x → r x y → r y z → s x y) {a : α}
    (cycle : Relation.TransGen r a a) : Relation.TransGen s a a := by
  obtain ⟨z,next,_⟩ := Relation.TransGen.head'_iff.mp cycle
  obtain ⟨w,_,before⟩ := Relation.TransGen.tail'_iff.mp cycle
  have path (b : α) (path : Relation.TransGen r a b) : ∀ z, r b z → Relation.TransGen s a b := by
    induction path with
    | single edge => exact fun z next => .single (inner w a _ z before edge next)
    | tail path edge ih =>
      intro z next
      obtain ⟨v,_,into⟩ := Relation.TransGen.tail'_iff.mp path
      exact (ih _ edge).tail (inner v _ _ z into edge next)
  exact path a cycle z next

/-- A path that may use one more edge stays in `r`, or comes from `r` to the edge and goes on in `r` behind it. -/
theorem path_insert {α : Type} {r s : α → α → Prop} {u v : α} (adds : ∀ a b, s a b ↔ r a b ∨ (a = u ∧ b = v))
    {a b : α} (path : Relation.TransGen s a b) :
    Relation.TransGen r a b ∨ (Relation.ReflTransGen r a u ∧ Relation.ReflTransGen r v b) := by
  induction path with
  | single edge =>
    rcases (adds _ _).mp edge with old | ⟨rfl,rfl⟩
    · exact .inl (.single old)
    · exact .inr ⟨.refl,.refl⟩
  | tail _ edge ih =>
    rcases (adds _ _).mp edge with old | ⟨rfl,rfl⟩
    · exact ih.imp (·.tail old) fun ⟨before,behind⟩ => ⟨before,behind.tail old⟩
    · exact .inr ⟨ih.elim (·.to_reflTransGen) (·.1),.refl⟩

/-- One more edge keeps a relation acyclic exactly if there is no way back along it. -/
theorem acyclic_insert_iff {α : Type} {r s : α → α → Prop} {u v : α} (adds : ∀ a b, s a b ↔ r a b ∨ (a = u ∧ b = v))
    (acyclic : ∀ a, ¬Relation.TransGen r a a) :
    (∀ a, ¬Relation.TransGen s a a) ↔ ¬Relation.ReflTransGen r v u := by
  constructor
  · intro still back
    have there : s u v := (adds u v).mpr (.inr ⟨rfl,rfl⟩)
    exact still u (.head' there (Relation.ReflTransGen.mono (fun a b edge => (adds a b).mpr (.inl edge)) _ _ back))
  · intro apart a cycle
    rcases path_insert adds cycle with old | ⟨before,behind⟩
    · exact acyclic a old
    · exact apart (behind.trans before)

theorem mem_predecessors (g : DirectedGraph κ) (u v : κ) : u ∈ g.predecessors v ↔ g.Edge u v := by
  simp [predecessors,Edge]

theorem mem_successors (g : DirectedGraph κ) (u v : κ) : v ∈ g.successors u ↔ g.Edge u v := by
  simp [successors,Edge]

theorem mem_sinks (g : DirectedGraph κ) (n : κ) : n ∈ g.sinks ↔ n ∈ g.nodes ∧ ∀ v, ¬g.Edge n v := by
  simp only [sinks,List.mem_filter,List.isEmpty_iff,List.eq_nil_iff_forall_not_mem,mem_successors]

section Rank

open Classical in
/-- The ancestors of a node; only sources of edges can be ancestors. -/
noncomputable def ancestors (g : DirectedGraph κ) (n : κ) : Finset κ :=
  (g.edges.map Prod.fst).toFinset.filter fun u => g.Reaches u n

noncomputable def rank (g : DirectedGraph κ) (n : κ) : Nat := (g.ancestors n).card

theorem mem_ancestors (g : DirectedGraph κ) (u n : κ) : u ∈ g.ancestors n ↔ g.Reaches u n := by
  simp only [ancestors,Finset.mem_filter,List.mem_toFinset,and_iff_right_iff_imp]
  intro reaches
  obtain ⟨v,first,_⟩ := Relation.TransGen.head'_iff.mp reaches
  exact List.mem_map.mpr ⟨(u,v),first,rfl⟩

theorem ancestors_subset (g : DirectedGraph κ) (n : κ) :
    g.ancestors n ⊆ (g.edges.map Prod.fst).toFinset := by
  intro u member
  simp only [ancestors,Finset.mem_filter] at member
  exact member.1

theorem rank_le (g : DirectedGraph κ) (n : κ) : g.rank n ≤ g.edges.length :=
  calc g.rank n ≤ (g.edges.map Prod.fst).toFinset.card := Finset.card_le_card (g.ancestors_subset n)
    _ ≤ (g.edges.map Prod.fst).length := List.toFinset_card_le _
    _ = g.edges.length := List.length_map _

theorem rank_lt (g : DirectedGraph κ) (acyclic : g.Acyclic) {u v : κ} (edge : g.Edge u v) :
    g.rank u < g.rank v := by
  apply Finset.card_lt_card
  rw [Finset.ssubset_iff_of_subset]
  · exact ⟨u,(g.mem_ancestors u v).mpr (.single edge),fun own => acyclic u ((g.mem_ancestors u u).mp own)⟩
  · intro w member
    exact (g.mem_ancestors w v).mpr (((g.mem_ancestors w u).mp member).tail edge)

omit [DecidableEq κ] in
/-- Any numbering that grows along the edges shows that there is no cycle. -/
theorem acyclic_of_numbering (g : DirectedGraph κ) (number : κ → Nat)
    (grows : ∀ e ∈ g.edges, number e.1 < number e.2) : g.Acyclic := by
  have reaches (u v : κ) (path : g.Reaches u v) : number u < number v := by
    induction path with
    | single edge => exact grows _ edge
    | tail _ edge ih => exact ih.trans (grows _ edge)
  exact fun n cycle => Nat.lt_irrefl _ (reaches n n cycle)

theorem acyclic_sinks (g : DirectedGraph κ) (acyclic : g.Acyclic) (some : g.nodes ≠ []) :
    g.sinks ≠ [] := by
  obtain ⟨n,member,last⟩ := Finset.exists_max_image g.nodes.toFinset g.rank
    (List.toFinset_nonempty_iff g.nodes |>.mpr some)
  intro none
  have sink : n ∈ g.sinks := (g.mem_sinks n).mpr ⟨List.mem_toFinset.mp member,fun v edge => by
    have higher := g.rank_lt acyclic edge
    have lower := last v (List.mem_toFinset.mpr (g.closed (n,v) edge).2)
    omega⟩
  simp [none] at sink

theorem rank_lt_length (g : DirectedGraph κ) (acyclic : g.Acyclic) {n : κ} (member : n ∈ g.nodes) :
    g.rank n < g.nodes.length := by
  have inside : g.ancestors n ⊆ g.nodes.toFinset.erase n := by
    intro u ancestor
    have path := (g.mem_ancestors u n).mp ancestor
    obtain ⟨v,first,_⟩ := Relation.TransGen.head'_iff.mp path
    rw [Finset.mem_erase,List.mem_toFinset]
    exact ⟨fun same => acyclic n (same ▸ path),(g.closed (u,v) first).1⟩
  calc g.rank n ≤ (g.nodes.toFinset.erase n).card := Finset.card_le_card inside
    _ < g.nodes.toFinset.card := Finset.card_erase_lt_of_mem (List.mem_toFinset.mpr member)
    _ ≤ g.nodes.length := g.nodes.toFinset_card_le

end Rank

/-! ### Searching and sorting -/

/-- Nodes reachable from `found` in at most `fuel` further steps. -/
def spread (g : DirectedGraph κ) : Nat → List κ → List κ
  | 0, found => found
  | fuel + 1, found => spread g fuel ((found ++ found.flatMap g.successors).dedup)

/-- The search only ever finds what can be reached. -/
theorem spread_sound (g : DirectedGraph κ) (fuel : Nat) (found : List κ) {v : κ}
    (member : v ∈ g.spread fuel found) : ∃ u ∈ found, u = v ∨ g.Reaches u v := by
  induction fuel generalizing found with
  | zero => exact ⟨v,member,.inl rfl⟩
  | succ fuel ih =>
    obtain ⟨w,inside,path⟩ := ih _ member
    simp only [List.mem_dedup,List.mem_append,List.mem_flatMap,mem_successors] at inside
    rcases inside with here | ⟨u,start,edge⟩
    · exact ⟨w,here,path⟩
    · refine ⟨u,start,.inr ?_⟩
      rcases path with same | further
      · exact same ▸ .single edge
      · exact .head edge further

/-- A list of all nodes in which each node comes after its predecessors. -/
structure TopologicalOrder (g : DirectedGraph κ) (order : List κ) : Prop where
  nodup : order.Nodup
  complete : ∀ n ∈ g.nodes, n ∈ order
  sorted : ∀ before n after, order = before ++ n :: after → ∀ u, g.Edge u n → u ∈ before

/-- Sort by generations: a node follows once all its predecessors are placed. -/
def generations (g : DirectedGraph κ) : Nat → List κ → List κ
  | 0, placed => placed
  | fuel + 1, placed =>
    generations g fuel (placed ++ g.nodes.filter fun n =>
      n ∉ placed ∧ ∀ u ∈ g.predecessors n, u ∈ placed)

/-- What the sort keeps of the nodes placed so far. -/
structure Placed (g : DirectedGraph κ) (placed : List κ) : Prop where
  nodup : placed.Nodup
  sorted : ∀ before n after, placed = before ++ n :: after → ∀ u, g.Edge u n → u ∈ before

theorem Placed.generation {g : DirectedGraph κ} {placed : List κ} (inv : g.Placed placed) :
    g.Placed (placed ++ g.nodes.filter fun n => n ∉ placed ∧ ∀ u ∈ g.predecessors n, u ∈ placed) where
  nodup := by
    apply List.nodup_append.mpr
    refine ⟨inv.nodup,g.nodup.filter _,?_⟩
    intro a old b new same
    simp only [List.mem_filter,decide_eq_true_eq] at new
    exact new.2.1 (same ▸ old)
  sorted := by
    intro before n after parts u edge
    rcases List.append_eq_append_iff.mp parts with ⟨more,front,back⟩ | ⟨more,front,back⟩
    · have new : n ∈ g.nodes.filter fun n => n ∉ placed ∧ ∀ u ∈ g.predecessors n, u ∈ placed := by
        rw [back]; simp
      simp only [List.mem_filter,decide_eq_true_eq] at new
      rw [front]
      exact List.mem_append_left _ (new.2.2 u ((g.mem_predecessors u n).mpr edge))
    · cases more with
      | nil =>
        have new : n ∈ g.nodes.filter fun n => n ∉ placed ∧ ∀ u ∈ g.predecessors n, u ∈ placed := by
          rw [← List.nil_append (List.filter _ _),← back]; simp
        simp only [List.mem_filter,decide_eq_true_eq] at new
        have old := new.2.2 u ((g.mem_predecessors u n).mpr edge)
        rwa [front,List.append_nil] at old
      | cons m more =>
        obtain ⟨rfl,_⟩ := List.cons.inj back
        exact inv.sorted before n more front u edge

/-- Each round places at least the nodes of the next rank. -/
theorem generations_placed (g : DirectedGraph κ) (acyclic : g.Acyclic) (fuel k : Nat) (placed : List κ)
    (inv : g.Placed placed) (low : ∀ n ∈ g.nodes, g.rank n < k → n ∈ placed) :
    g.Placed (g.generations fuel placed) ∧
      ∀ n ∈ g.nodes, g.rank n < k + fuel → n ∈ g.generations fuel placed := by
  induction fuel generalizing k placed with
  | zero => exact ⟨inv,low⟩
  | succ fuel ih =>
    have next : ∀ n ∈ g.nodes, g.rank n < k + 1 → n ∈ placed ++
        g.nodes.filter fun n => n ∉ placed ∧ ∀ u ∈ g.predecessors n, u ∈ placed := by
      intro n member rank
      rw [List.mem_append,List.mem_filter,decide_eq_true_eq]
      by_cases old : n ∈ placed
      · exact .inl old
      · refine .inr ⟨member,old,fun u before => ?_⟩
        have edge := (g.mem_predecessors u n).mp before
        have lower := g.rank_lt acyclic edge
        exact low u (g.closed (u,n) edge).1 (by omega)
    obtain ⟨inv',all⟩ := ih (k + 1) _ inv.generation next
    exact ⟨inv',fun n member rank => all n member (by omega)⟩

theorem generations_order (g : DirectedGraph κ) (acyclic : g.Acyclic) :
    g.TopologicalOrder (g.generations g.nodes.length []) := by
  obtain ⟨inv,all⟩ := g.generations_placed acyclic g.nodes.length 0 [] ⟨by simp,by simp⟩ (by simp)
  refine ⟨inv.nodup,fun n member => all n member ?_,inv.sorted⟩
  have bound := g.rank_lt_length acyclic member
  omega

end DirectedGraph
