import Mathlib.Algebra.GroupWithZero.Nat
import Mathlib.Algebra.Order.BigOperators.Group.List
import Mathlib.Algebra.Order.Group.Nat
import Mathlib.Data.List.Basic
import Mathlib.Data.Set.Basic
import Mathlib.Logic.Relation

/-! Depth-first search for a vertex with an explicit stack and the vertices seen so far. A search that ends
without the goal leaves a closed set without it, and one whose vertices with successors are finitely many ends. -/
namespace StackSearch

variable {κ : Type} [DecidableEq κ]

/-- The top of the stack is its head; without fuel there is no answer. -/
def search (successors : κ → List κ) (goal : κ) : Nat → List κ → List κ → Option Bool
  | _,[],_ => some false
  | 0,_ :: _,_ => none
  | fuel + 1,current :: stack,seen =>
    if current = goal then some true
    else if current ∈ seen then search successors goal fuel stack seen
    else search successors goal fuel ((successors current).reverse ++ stack) (current :: seen)

variable {successors : κ → List κ} {goal : κ} {fuel : Nat} {stack seen : List κ}

/-- From `a` the search may come to `b`. -/
def Leads (successors : κ → List κ) : κ → κ → Prop := Relation.ReflTransGen fun a b => b ∈ successors a

theorem search_sound (found : search successors goal fuel stack seen = some true) :
    ∃ start ∈ stack, Leads successors start goal := by
  induction fuel generalizing stack seen with
  | zero => cases stack <;> cases found
  | succ fuel ih =>
    cases stack with
    | nil => cases found
    | cons current stack =>
      simp only [search] at found
      split at found
      · next here => exact ⟨current,List.mem_cons_self,here ▸ .refl⟩
      · split at found
        · obtain ⟨start,member,path⟩ := ih found
          exact ⟨start,List.mem_cons_of_mem current member,path⟩
        · obtain ⟨start,member,path⟩ := ih found
          rcases List.mem_append.mp member with next | below
          · exact ⟨current,List.mem_cons_self,.head (List.mem_reverse.mp next) path⟩
          · exact ⟨start,List.mem_cons_of_mem current below,path⟩

/-- What has been seen is not the goal, and its successors have been seen or wait on the stack. -/
def Explored (successors : κ → List κ) (goal : κ) (stack seen : List κ) : Prop :=
  ∀ a ∈ seen, a ≠ goal ∧ ∀ b ∈ successors a, b ∈ seen ∨ b ∈ stack

omit [DecidableEq κ] in
theorem Explored.drop {current : κ} (explored : Explored successors goal (current :: stack) seen)
    (old : current ∈ seen) : Explored successors goal stack seen := by
  intro a member
  refine ⟨(explored a member).1,fun b next => ?_⟩
  rcases (explored a member).2 b next with known | waiting
  · exact .inl known
  · rcases List.mem_cons.mp waiting with rfl | below
    · exact .inl old
    · exact .inr below

omit [DecidableEq κ] in
theorem Explored.visit {current : κ} (explored : Explored successors goal (current :: stack) seen)
    (other : current ≠ goal) :
    Explored successors goal ((successors current).reverse ++ stack) (current :: seen) := by
  intro a member
  rcases List.mem_cons.mp member with rfl | member
  · exact ⟨other,fun b next => .inr (List.mem_append_left stack (List.mem_reverse.mpr next))⟩
  · refine ⟨(explored a member).1,fun b next => ?_⟩
    rcases (explored a member).2 b next with known | waiting
    · exact .inl (List.mem_cons_of_mem current known)
    · rcases List.mem_cons.mp waiting with rfl | below
      · exact .inl List.mem_cons_self
      · exact .inr (List.mem_append_right _ below)

/-- A set that the search has visited in full, and the goal is not in it. -/
structure Visited (successors : κ → List κ) (goal : κ) (stack seen : List κ) (visited : Set κ) : Prop where
  waiting : ∀ a ∈ stack, a ∈ visited
  known : ∀ a ∈ seen, a ∈ visited
  absent : goal ∉ visited
  closed : ∀ a ∈ visited, ∀ b ∈ successors a, b ∈ visited

omit [DecidableEq κ] in
theorem Explored.finished (explored : Explored successors goal [] seen) :
    ∃ visited, Visited successors goal [] seen visited := by
  refine ⟨(· ∈ seen),by simp,fun a member => member,fun found => (explored goal found).1 rfl,?_⟩
  exact fun a member b next => ((explored a member).2 b next).resolve_right (by simp)

/-- A search that ends without the goal has visited a closed set. -/
theorem search_closed (explored : Explored successors goal stack seen)
    (ended : search successors goal fuel stack seen = some false) :
    ∃ visited, Visited successors goal stack seen visited := by
  induction fuel generalizing stack seen with
  | zero =>
    cases stack with
    | nil =>
      exact explored.finished
    | cons current stack => cases ended
  | succ fuel ih =>
    cases stack with
    | nil =>
      exact explored.finished
    | cons current stack =>
      simp only [search] at ended
      split at ended
      · cases ended
      · next other =>
        split at ended
        · next old =>
          obtain ⟨visited,full⟩ := ih (explored.drop old) ended
          exact ⟨visited,{ full with waiting := List.forall_mem_cons.mpr ⟨full.known current old,full.waiting⟩ }⟩
        · obtain ⟨visited,full⟩ := ih (explored.visit other) ended
          have ⟨here,before⟩ := List.forall_mem_cons.mp full.known
          have below (a : κ) (member : a ∈ stack) := full.waiting a (List.mem_append_right _ member)
          exact ⟨visited,{ full with waiting := List.forall_mem_cons.mpr ⟨here,below⟩,known := before }⟩

theorem search_complete {start : κ} (ended : search successors goal fuel [start] [] = some false) :
    ¬Leads successors start goal := by
  obtain ⟨visited,full⟩ := search_closed (fun a member => by cases member) ended
  intro path
  have inside (a : κ) (path : Leads successors start a) : a ∈ visited := by
    induction path with
    | refl => exact full.waiting start List.mem_cons_self
    | tail _ next ih => exact full.closed _ ih _ next
  exact full.absent (inside goal path)

/-- What the vertices not seen yet may still put on the stack. -/
def unseen (successors : κ → List κ) (known seen : List κ) : Nat :=
  ((known.filter (· ∉ seen)).map fun a => (successors a).length).sum

def work (successors : κ → List κ) (known stack seen : List κ) : Nat := stack.length + unseen successors known seen

theorem unseen_visit_le (successors : κ → List κ) (known seen : List κ) (current : κ) :
    unseen successors known (current :: seen) ≤ unseen successors known seen := by
  have fewer : known.filter (· ∉ current :: seen) = (known.filter (· ∉ seen)).filter (· ≠ current) := by
    rw [List.filter_filter]
    exact List.filter_congr fun a _ => by simp
  rw [unseen,fewer]
  exact (List.filter_sublist.map _).sum_le_sum (by simp)

theorem unseen_visit (successors : κ → List κ) {known : List κ} {current : κ} (member : current ∈ known)
    (new : current ∉ seen) :
    (successors current).length + unseen successors known (current :: seen) ≤ unseen successors known seen := by
  induction known with
  | nil => cases member
  | cons a rest ih =>
    by_cases here : a = current
    · subst here
      have later := unseen_visit_le successors rest seen a
      simp only [unseen] at later
      simpa [unseen,new] using later
    · have later := ih ((List.mem_cons.mp member).resolve_left (Ne.symm here))
      simp only [unseen] at later
      by_cases old : a ∈ seen
      · simpa [unseen,old] using later
      · simp only [unseen,List.filter_cons,List.mem_cons,here,old,or_self,not_false_eq_true,decide_true,if_true,
          List.map_cons,List.sum_cons]
        simp only [List.mem_cons] at later
        omega

theorem work_visit {known : List κ} (outside : ∀ a, a ∉ known → successors a = []) {current : κ} (new : current ∉ seen) :
    work successors known ((successors current).reverse ++ stack) (current :: seen) ≤
      work successors known stack seen := by
  simp only [work,List.length_append,List.length_reverse]
  by_cases member : current ∈ known
  · have spent := unseen_visit successors member new
    omega
  · have less := unseen_visit_le successors known seen current
    simp only [outside current member,List.length_nil]
    omega

/-- Work for every step: then the search ends. -/
theorem search_ends (goal : κ) {known : List κ} (outside : ∀ a, a ∉ known → successors a = [])
    (enough : work successors known stack seen ≤ fuel) :
    ∃ answer, search successors goal fuel stack seen = some answer := by
  induction fuel generalizing stack seen with
  | zero =>
    cases stack with
    | nil => exact ⟨false,rfl⟩
    | cons current stack => simp [work] at enough
  | succ fuel ih =>
    cases stack with
    | nil => exact ⟨false,rfl⟩
    | cons current stack =>
      simp only [search]
      split
      · exact ⟨true,rfl⟩
      · split
        · exact ih (by simp only [work,List.length_cons] at enough ⊢; omega)
        · next new =>
          refine ih ((work_visit outside new).trans ?_)
          simp only [work,List.length_cons] at enough ⊢
          omega

/-- With fuel for all work the search decides whether the goal can be reached. -/
theorem search_iff {known : List κ} (outside : ∀ a, a ∉ known → successors a = []) {start : κ}
    (enough : work successors known [start] [] ≤ fuel) :
    search successors goal fuel [start] [] = some true ↔ Leads successors start goal := by
  constructor
  · intro found
    obtain ⟨a,member,path⟩ := search_sound found
    exact List.mem_singleton.mp member ▸ path
  · intro path
    obtain ⟨answer,ended⟩ := search_ends goal outside enough
    cases answer with
    | false => exact absurd path (search_complete ended)
    | true => exact ended

/-! ### Without a goal -/

/-- All that is found on the way; without fuel there is no answer. -/
def collect (successors : κ → List κ) : Nat → List κ → List κ → Option (List κ)
  | _,[],found => some found
  | 0,_ :: _,_ => none
  | fuel + 1,current :: stack,found =>
    if current ∈ found then collect successors fuel stack found
    else collect successors fuel ((successors current).reverse ++ stack) (current :: found)

variable {found : List κ}

theorem collect_keeps (ended : collect successors fuel stack seen = some found) : seen ⊆ found := by
  induction fuel generalizing stack seen with
  | zero =>
    cases stack with
    | nil => exact (Option.some.inj ended) ▸ List.Subset.refl _
    | cons current stack => cases ended
  | succ fuel ih =>
    cases stack with
    | nil => exact (Option.some.inj ended) ▸ List.Subset.refl _
    | cons current stack =>
      simp only [collect] at ended
      split at ended
      · exact ih ended
      · exact fun a member => ih ended (List.mem_cons_of_mem current member)

/-- A search finds just what is collected. -/
theorem search_collect (ended : collect successors fuel stack seen = some found) (new : goal ∉ seen) :
    search successors goal fuel stack seen = some (decide (goal ∈ found)) := by
  induction fuel generalizing stack seen with
  | zero =>
    cases stack with
    | nil =>
      obtain rfl := Option.some.inj ended
      simp [search,new]
    | cons current stack => cases ended
  | succ fuel ih =>
    cases stack with
    | nil =>
      obtain rfl := Option.some.inj ended
      simp [search,new]
    | cons current stack =>
      simp only [collect] at ended
      simp only [search]
      split at ended
      · next old =>
        have other : current ≠ goal := fun here => new (here ▸ old)
        rw [if_neg other,if_pos old,ih ended new]
      · split
        · next here =>
          have kept : goal ∈ found := collect_keeps ended (here ▸ List.mem_cons_self)
          rw [decide_eq_true kept]
        · next other => exact ih ended (List.not_mem_cons_of_ne_of_not_mem (Ne.symm other) new)

theorem collect_ends {known : List κ} (outside : ∀ a, a ∉ known → successors a = [])
    (enough : work successors known stack seen ≤ fuel) : ∃ found, collect successors fuel stack seen = some found := by
  induction fuel generalizing stack seen with
  | zero =>
    cases stack with
    | nil => exact ⟨seen,rfl⟩
    | cons current stack => simp [work] at enough
  | succ fuel ih =>
    cases stack with
    | nil => exact ⟨seen,rfl⟩
    | cons current stack =>
      simp only [collect]
      split
      · exact ih (by simp only [work,List.length_cons] at enough ⊢; omega)
      · next new =>
        refine ih ((work_visit outside new).trans ?_)
        simp only [work,List.length_cons] at enough ⊢
        omega

/-- With fuel for all work everything is collected that can be reached. -/
theorem collect_iff {known : List κ} (outside : ∀ a, a ∉ known → successors a = []) {start : κ}
    (enough : work successors known [start] [] ≤ fuel) :
    ∃ found, collect successors fuel [start] [] = some found ∧ ∀ a, a ∈ found ↔ Leads successors start a := by
  obtain ⟨found,ended⟩ := collect_ends outside enough
  refine ⟨found,ended,fun a => ?_⟩
  rw [← search_iff outside enough,search_collect ended List.not_mem_nil,Option.some.injEq,decide_eq_true_eq]

end StackSearch
