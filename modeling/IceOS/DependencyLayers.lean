import IceOS.DirectedGraph
import Mathlib.Data.List.Basic
import Mathlib.Data.List.Dedup
import Mathlib.Order.Bounds.Basic

/-! Layers of vertices with dependencies. A layer holds the vertices that are not seen yet and whose dependencies all are;
without cycles the layers are those of equal depth, and in any case there is a last one. -/
namespace DependencyLayers

variable {κ : Type}

/-- A path along dependencies that ends at the vertex, by its length. -/
inductive PathTo (deps : κ → List κ) : Nat → κ → Prop
  | here (n : κ) : PathTo deps 0 n
  | there {k : Nat} {d n : κ} (path : PathTo deps k d) (depends : d ∈ deps n) : PathTo deps (k + 1) n

/-- The length of a longest path to the vertex. -/
def Depth (deps : κ → List κ) (n : κ) (k : Nat) : Prop := IsGreatest {j | PathTo deps j n} k

/-- Every path to the vertex is shorter. -/
def Within (deps : κ → List κ) (k : Nat) (n : κ) : Prop := ∀ j, PathTo deps j n → j < k

variable {deps : κ → List κ} {k : Nat} {n : κ}

theorem not_within_zero : ¬Within deps 0 n := fun within => absurd (within 0 (.here n)) (Nat.lt_irrefl 0)

theorem within_succ_iff : Within deps (k + 1) n ↔ ∀ d ∈ deps n, Within deps k d := by
  constructor
  · intro within d depends j path
    exact Nat.lt_of_succ_lt_succ (within (j + 1) (path.there depends))
  · intro within j path
    cases path with
    | here => exact Nat.succ_pos k
    | there path depends => exact Nat.succ_lt_succ (within _ depends _ path)

theorem depth_iff : Depth deps n k ↔ Within deps (k + 1) n ∧ ¬Within deps k n := by
  constructor
  · rintro ⟨path,greatest⟩
    exact ⟨fun j other => Nat.lt_succ_of_le (greatest other),fun within => Nat.lt_irrefl k (within k path)⟩
  · rintro ⟨within,reached⟩
    simp only [Within,not_forall,not_lt] at reached
    obtain ⟨j,path,above⟩ := reached
    obtain rfl : j = k := Nat.le_antisymm (Nat.le_of_lt_succ (within j path)) above
    exact ⟨path,fun i other => Nat.le_of_lt_succ (within i other)⟩

theorem depth_zero_iff : Depth deps n 0 ↔ deps n = [] := by
  rw [depth_iff,within_succ_iff,List.eq_nil_iff_forall_not_mem]
  constructor
  · exact fun depth d depends => not_within_zero (depth.1 d depends)
  · exact fun none => ⟨fun d depends => absurd depends (none d),not_within_zero⟩

/-- A longest path goes through a vertex of every smaller depth. -/
theorem Depth.before (depth : Depth deps n (k + 1)) : ∃ d ∈ deps n, Depth deps d k := by
  obtain ⟨within,reached⟩ := depth_iff.mp depth
  rw [within_succ_iff] at within reached
  simp only [not_forall] at reached
  obtain ⟨d,depends,far⟩ := reached
  exact ⟨d,depends,depth_iff.mpr ⟨within d depends,far⟩⟩

theorem depth_exists (bounded : Within deps k n) : ∃ j, Depth deps n j := by
  induction k with
  | zero => exact absurd bounded not_within_zero
  | succ k ih =>
    by_cases closer : Within deps k n
    · exact ih closer
    · exact ⟨k,depth_iff.mpr ⟨bounded,closer⟩⟩

/-! ### The layers -/

variable [DecidableEq κ]

/-- The next layer, each vertex once. -/
def next (ids : List κ) (deps : κ → List κ) (seen : List κ) : List κ :=
  (ids.filter fun n => n ∉ seen ∧ ∀ d ∈ deps n, d ∈ seen).eraseDups

/-- Layers until there is an empty one; without fuel there is no answer. -/
@[grind =] def layers (ids : List κ) (deps : κ → List κ) : Nat → List κ → List κ → Option (List (List κ))
  | _,_,[] => some []
  | 0,_,_ :: _ => none
  | fuel + 1,seen,n :: frontier =>
    (layers ids deps fuel (seen ++ n :: frontier) (next ids deps (seen ++ n :: frontier))).map ((n :: frontier) :: ·)

variable {ids seen frontier : List κ} {fuel : Nat}

theorem mem_next : n ∈ next ids deps seen ↔ n ∈ ids ∧ n ∉ seen ∧ ∀ d ∈ deps n, d ∈ seen := by
  rw [next,List.mem_eraseDups,List.mem_filter,decide_eq_true_eq]

def unseen (ids seen : List κ) : Nat := (ids.filter (· ∉ seen)).length

theorem filter_unseen (ids seen new : List κ) :
    ids.filter (· ∉ seen ++ new) = (ids.filter (· ∉ seen)).filter (· ∉ new) := by
  rw [List.filter_filter]
  exact List.filter_congr fun a _ => by simp [Bool.and_comm]

theorem unseen_append_le (ids seen new : List κ) : unseen ids (seen ++ new) ≤ unseen ids seen := by
  rw [unseen,filter_unseen]
  exact List.filter_sublist.length_le

theorem unseen_append_lt {new : List κ} (member : n ∈ new) (inside : n ∈ ids) (fresh : n ∉ seen) :
    unseen ids (seen ++ new) < unseen ids seen := by
  refine Nat.lt_of_le_of_ne (unseen_append_le ids seen new) fun same => ?_
  rw [unseen,unseen,filter_unseen,List.length_filter_eq_length_iff] at same
  have kept := same n (List.mem_filter.mpr ⟨inside,by simpa using fresh⟩)
  simp [member] at kept

/-- Every layer after the first takes something that was not seen. -/
theorem layers_next_ends (ids : List κ) (deps : κ → List κ) (enough : unseen ids seen ≤ fuel) :
    ∃ found, layers ids deps fuel seen (next ids deps seen) = some found := by
  induction fuel generalizing seen with
  | zero =>
    cases frontier : next ids deps seen with
    | nil => exact ⟨[],rfl⟩
    | cons n rest =>
      have member := mem_next.mp (frontier ▸ List.mem_cons_self)
      have fewer : unseen ids (seen ++ [n]) < unseen ids seen :=
        unseen_append_lt List.mem_cons_self member.1 member.2.1
      omega
  | succ fuel ih =>
    cases frontier : next ids deps seen with
    | nil => exact ⟨[],rfl⟩
    | cons n rest =>
      have member := mem_next.mp (frontier ▸ List.mem_cons_self)
      have fewer : unseen ids (seen ++ n :: rest) < unseen ids seen :=
        unseen_append_lt List.mem_cons_self member.1 member.2.1
      have left : unseen ids (seen ++ n :: rest) ≤ fuel := by omega
      obtain ⟨found,later⟩ := ih left
      exact ⟨(n :: rest) :: found,by rw [layers,later]; rfl⟩

theorem layers_ends (ids : List κ) (deps : κ → List κ) (frontier : List κ) (enough : unseen ids seen < fuel) :
    ∃ found, layers ids deps fuel seen frontier = some found := by
  cases frontier with
  | nil => exact ⟨[],by rw [layers]⟩
  | cons n rest =>
    cases fuel with
    | zero => exact absurd enough (Nat.not_lt_zero _)
    | succ fuel =>
      have fewer := unseen_append_le ids seen (n :: rest)
      have left : unseen ids (seen ++ n :: rest) ≤ fuel := by omega
      obtain ⟨found,later⟩ := layers_next_ends ids deps left
      exact ⟨(n :: rest) :: found,by rw [layers,later]; rfl⟩

/-- More fuel changes nothing. -/
theorem layers_mono {found : List (List κ)} (ended : layers ids deps fuel seen frontier = some found) {more : Nat}
    (enough : fuel ≤ more) : layers ids deps more seen frontier = some found := by
  induction fuel generalizing seen frontier found more with
  | zero =>
    cases frontier with
    | nil =>
      rw [layers] at ended ⊢
      exact ended
    | cons n rest => cases ended
  | succ fuel ih =>
    cases frontier with
    | nil =>
      rw [layers] at ended ⊢
      exact ended
    | cons n rest =>
      obtain ⟨more,rfl⟩ := Nat.exists_eq_add_of_lt (Nat.lt_of_lt_of_le (Nat.succ_pos fuel) enough)
      rw [layers,Option.map_eq_some_iff] at ended
      obtain ⟨later,ended,rfl⟩ := ended
      have again := ih ended (show fuel ≤ more by omega)
      rw [Nat.zero_add,layers,again]
      rfl

/-! ### Layers of equal depth -/

/-- The dependencies of the vertices are vertices. -/
def Resolved (ids : List κ) (deps : κ → List κ) : Prop := ∀ n ∈ ids, ∀ d ∈ deps n, d ∈ ids

/-- What has been seen is less deep than the layer that is next. -/
structure Reached (ids : List κ) (deps : κ → List κ) (k : Nat) (seen frontier : List κ) : Prop where
  known : ∀ n ∈ ids, n ∈ seen ↔ Within deps k n
  exact : ∀ n, n ∈ frontier ↔ n ∈ ids ∧ Depth deps n k
  once : frontier.Nodup

theorem nodup_eraseDups (xs : List κ) : xs.eraseDups.Nodup := by
  induction count : xs.length using Nat.strong_induction_on generalizing xs with
  | _ count ih =>
    cases xs with
    | nil => exact List.nodup_nil
    | cons x rest =>
      rw [List.eraseDups_cons]
      have shorter := List.length_filter_le (fun y => !y == x) rest
      rw [List.length_cons] at count
      refine List.nodup_cons.mpr ⟨?_,ih _ (by omega) _ rfl⟩
      simp

theorem Reached.next (resolved : Resolved ids deps) (reached : Reached ids deps k seen frontier) :
    Reached ids deps (k + 1) (seen ++ frontier) (next ids deps (seen ++ frontier)) := by
  have later (n : κ) (inside : n ∈ ids) : n ∈ seen ++ frontier ↔ Within deps (k + 1) n := by
    rw [List.mem_append,reached.known n inside,reached.exact,depth_iff]
    constructor
    · rintro (closer | ⟨_,within,_⟩)
      · exact fun j path => Nat.lt_succ_of_lt (closer j path)
      · exact within
    · intro within
      by_cases closer : Within deps k n
      · exact .inl closer
      · exact .inr ⟨inside,within,closer⟩
  refine ⟨later,fun n => ?_,nodup_eraseDups _⟩
  rw [mem_next,depth_iff,within_succ_iff]
  refine and_congr_right fun inside => ?_
  rw [later n inside,and_comm]
  exact and_congr_left fun _ => forall₂_congr fun d depends => later d (resolved n inside d depends)

/-- The layers from the one of depth `k` on. -/
structure Layered (ids : List κ) (deps : κ → List κ) (k : Nat) (found : List (List κ)) : Prop where
  once : ∀ layer ∈ found, layer.Nodup
  exact : ∀ i layer, found[i]? = some layer → ∀ n, n ∈ layer ↔ n ∈ ids ∧ Depth deps n (k + i)
  complete : ∀ n ∈ ids, ∀ i, Depth deps n (k + i) → i < found.length

omit [DecidableEq κ] in
/-- Where there is a vertex of some depth there is one of each smaller depth. -/
theorem depth_down (resolved : Resolved ids deps) (inside : n ∈ ids) {i : Nat} (depth : Depth deps n (k + i)) :
    ∃ m ∈ ids, Depth deps m k := by
  induction i generalizing n with
  | zero => exact ⟨n,inside,depth⟩
  | succ i ih =>
    obtain ⟨d,depends,less⟩ := depth.before
    exact ih (resolved n inside d depends) less

omit [DecidableEq κ] in
/-- Nothing is as deep as an empty layer. -/
theorem Reached.last (resolved : Resolved ids deps) (reached : Reached ids deps k seen []) : Layered ids deps k [] := by
  refine ⟨by simp,by simp,fun n inside i depth => ?_⟩
  obtain ⟨m,known,here⟩ := depth_down resolved inside depth
  cases (reached.exact m).mpr ⟨known,here⟩

theorem layers_layered (resolved : Resolved ids deps) (reached : Reached ids deps k seen frontier)
    {found : List (List κ)} (ended : layers ids deps fuel seen frontier = some found) : Layered ids deps k found := by
  induction fuel generalizing k seen frontier found with
  | zero =>
    cases frontier with
    | nil => exact (Option.some.inj ended) ▸ reached.last resolved
    | cons n rest => cases ended
  | succ fuel ih =>
    cases frontier with
    | nil => exact (Option.some.inj ended) ▸ reached.last resolved
    | cons n rest =>
      rw [layers,Option.map_eq_some_iff] at ended
      obtain ⟨found,ended,rfl⟩ := ended
      have layered := ih (reached.next resolved) ended
      refine ⟨List.forall_mem_cons.mpr ⟨reached.once,layered.once⟩,fun i layer there m => ?_,fun m inside i depth => ?_⟩
      · cases i with
        | zero =>
          cases there
          exact reached.exact m
        | succ i =>
          rw [layered.exact i layer there m,Nat.add_assoc,Nat.add_comm 1 i]
      · cases i with
        | zero => exact Nat.succ_pos _
        | succ i =>
          rw [← Nat.add_assoc,Nat.add_right_comm] at depth
          exact Nat.succ_lt_succ (layered.complete m inside i depth)

/-! ### Depths without cycles -/

/-- The vertices, with an edge from every dependency. -/
def graph (distinct : ids.Nodup) (resolved : Resolved ids deps) : DirectedGraph κ where
  nodes := ids
  edges := ids.flatMap fun n => (deps n).map (·,n)
  nodup := distinct
  closed := by
    intro e member
    obtain ⟨n,inside,edge⟩ := List.mem_flatMap.mp member
    obtain ⟨d,depends,rfl⟩ := List.mem_map.mp edge
    exact ⟨resolved n inside d depends,inside⟩

omit [DecidableEq κ] in
theorem graph_edge (distinct : ids.Nodup) (resolved : Resolved ids deps) (d n : κ) :
    (graph distinct resolved).Edge d n ↔ n ∈ ids ∧ d ∈ deps n := by
  simp [DirectedGraph.Edge,graph]

/-- Without cycles every path is shorter than there are vertices. -/
theorem within_length (distinct : ids.Nodup) (resolved : Resolved ids deps) (acyclic : (graph distinct resolved).Acyclic)
    (inside : n ∈ ids) : Within deps ids.length n := by
  have ranked (j : Nat) (n : κ) (path : PathTo deps j n) (inside : n ∈ ids) : j ≤ (graph distinct resolved).rank n := by
    induction path with
    | here => exact Nat.zero_le _
    | there path depends ih =>
      have edge := (graph_edge distinct resolved _ _).mpr ⟨inside,depends⟩
      exact Nat.succ_le_of_lt (Nat.lt_of_le_of_lt (ih (resolved _ inside _ depends))
        ((graph distinct resolved).rank_lt acyclic edge))
  intro j path
  exact Nat.lt_of_le_of_lt (ranked j n path inside) ((graph distinct resolved).rank_lt_length acyclic inside)

end DependencyLayers
