import Mathlib.Data.List.FinRange
import Mathlib.Logic.Function.Basic

/-! Bindings that a computation puts into a shared map for its own time: it saves what the map
holds under a key, binds the key, works, and puts back what it saved. Computations nest and fork. -/
namespace ScopedBindings

/-- The bindings in force. The children of a fork run side by side. -/
inductive Scopes (κ ν : Type) where
  | idle
  | bound (key : κ) (value : ν) (saved : Option ν) (inner : Scopes κ ν)
  | forked (width : Nat) (children : Fin width → Scopes κ ν)

namespace Scopes

variable {κ ν : Type}

/-- The keys that are bound. -/
def held : Scopes κ ν → List κ
  | idle => []
  | bound key _ _ inner => key :: inner.held
  | forked width children => (List.finRange width).flatMap fun i => (children i).held

@[simp] theorem held_idle : (idle : Scopes κ ν).held = [] := rfl
@[simp] theorem held_bound (key : κ) (value : ν) (saved : Option ν) (inner : Scopes κ ν) :
    (bound key value saved inner).held = key :: inner.held := rfl

@[simp] theorem mem_held_forked {width : Nat} {children : Fin width → Scopes κ ν} {k : κ} :
    k ∈ (forked width children).held ↔ ∃ i, k ∈ (children i).held := by
  simp [held]

/-- The innermost binding of some thread. -/
inductive Innermost (key : κ) (value : ν) : Scopes κ ν → Prop where
  | here (saved : Option ν) : Innermost key value (bound key value saved idle)
  | inside {k : κ} {v : ν} {saved : Option ν} {s : Scopes κ ν} :
      Innermost key value s → Innermost key value (bound k v saved s)
  | branch {width : Nat} {children : Fin width → Scopes κ ν} (i : Fin width) :
      Innermost key value (children i) → Innermost key value (forked width children)

variable [DecidableEq κ]

/-- Over the map `base`, every binding has saved what was there when it was made, a key shows its
innermost binding, and threads of one fork hold different keys. -/
def WellNested (now : κ → Option ν) : (κ → Option ν) → Scopes κ ν → Prop
  | _,idle => True
  | base,bound key value saved inner =>
    saved = base key ∧ (key ∉ inner.held → now key = some value) ∧
      WellNested now (Function.update base key (some value)) inner
  | base,forked _ children =>
    (∀ i, WellNested now base (children i)) ∧
      ∀ i j, i ≠ j → ∀ k ∈ (children i).held, k ∉ (children j).held

/-- Only what the map shows under the bound keys matters. -/
theorem WellNested.frame {now next base : κ → Option ν} {s : Scopes κ ν} (nested : WellNested now base s)
    (same : ∀ k ∈ s.held, next k = now k) : WellNested next base s := by
  induction s generalizing base with
  | idle => trivial
  | bound key value saved inner ih =>
    obtain ⟨kept,shown,deeper⟩ := nested
    refine ⟨kept,fun free => ?_,ih deeper fun k inside => same k (List.mem_cons_of_mem _ inside)⟩
    rw [same key List.mem_cons_self]
    exact shown free
  | forked width children ih =>
    refine ⟨fun i => ih i (nested.1 i) fun k inside => ?_,nested.2⟩
    exact same k (mem_held_forked.mpr ⟨i,inside⟩)

theorem WellNested.innermost {now base : κ → Option ν} {s : Scopes κ ν} {key : κ} {value : ν}
    (nested : WellNested now base s) (inner : Innermost key value s) : now key = some value := by
  induction inner generalizing base with
  | here saved => exact nested.2.1 (by simp)
  | inside _ ih => exact ih nested.2.2
  | branch i _ ih => exact ih (nested.1 i)

/-- Every binding hides a value. -/
def Covering : Scopes κ ν → Prop
  | idle => True
  | bound _ _ saved inner => saved.isSome ∧ inner.Covering
  | forked _ children => ∀ i, (children i).Covering

theorem WellNested.covering {now base : κ → Option ν} {s : Scopes κ ν} (nested : WellNested now base s)
    (present : ∀ k ∈ s.held, (base k).isSome) : s.Covering := by
  induction s generalizing base with
  | idle => trivial
  | bound key value saved inner ih =>
    obtain ⟨kept,_,deeper⟩ := nested
    refine ⟨kept ▸ present key List.mem_cons_self,ih deeper fun k inside => ?_⟩
    by_cases same : k = key
    · simp [same]
    · rw [Function.update_of_ne same]
      exact present k (List.mem_cons_of_mem key inside)
  | forked width children ih =>
    exact fun i => ih i (nested.1 i) fun k inside => present k (mem_held_forked.mpr ⟨i,inside⟩)

/-- One step of one thread: `entered` is the key it binds, if it binds one. A key is bound only
when no thread beside it holds that key. -/
inductive Step : Scopes κ ν → (κ → Option ν) → Option κ → Scopes κ ν → (κ → Option ν) → Prop where
  | stay (s : Scopes κ ν) (now : κ → Option ν) : Step s now none s now
  | enter (key : κ) (value : ν) (now : κ → Option ν) :
      Step idle now (some key) (bound key value (now key) idle) (Function.update now key (some value))
  | leave (key : κ) (value : ν) (saved : Option ν) (now : κ → Option ν) :
      Step (bound key value saved idle) now none idle (Function.update now key saved)
  | inside {key : κ} {value : ν} {saved : Option ν} {s t : Scopes κ ν} {now next : κ → Option ν}
      {entered : Option κ} :
      Step s now entered t next → Step (bound key value saved s) now entered (bound key value saved t) next
  | branch {width : Nat} {children : Fin width → Scopes κ ν} {t : Scopes κ ν} {now next : κ → Option ν}
      {entered : Option κ} (i : Fin width) (apart : ∀ k ∈ entered, ∀ j, j ≠ i → k ∉ (children j).held) :
      Step (children i) now entered t next →
        Step (forked width children) now entered (forked width (Function.update children i t)) next
  | fork (width : Nat) (now : κ → Option ν) : Step idle now none (forked width fun _ => idle) now
  | join {width : Nat} {children : Fin width → Scopes κ ν} (now : κ → Option ν) :
      (∀ i, children i = idle) → Step (forked width children) now none idle now

/-- What a step from `s` to `t` does over the map `base`. -/
structure Kept (base now : κ → Option ν) (entered : Option κ) (s t : Scopes κ ν) (next : κ → Option ν) :
    Prop where
  nested : WellNested next base t
  bounded : ∀ k ∈ t.held, k ∈ s.held ∨ k ∈ entered
  binds : ∀ k ∈ entered, k ∈ t.held
  frame : ∀ k, k ∉ s.held → k ∉ entered → next k = now k
  released : ∀ k ∈ s.held, k ∉ t.held → next k = base k

/-- A step inside a binding leaves that binding in place. -/
theorem Kept.inside {base now next : κ → Option ν} {entered : Option κ} {s t : Scopes κ ν} {key : κ} {value : ν}
    {saved : Option ν} (nested : WellNested now base (bound key value saved s))
    (below : Kept (Function.update base key (some value)) now entered s t next) :
    Kept base now entered (bound key value saved s) (bound key value saved t) next := by
  obtain ⟨kept,shown,_⟩ := nested
  refine ⟨⟨kept,fun free => ?_,below.nested⟩,fun k inside => ?_,fun k enters => ?_,fun k free other => ?_,
    fun k inside gone => ?_⟩
  · -- whatever was bound under the key inside is let go, and nothing new is
    by_cases was : key ∈ s.held
    · rw [below.released key was free,Function.update_self]
    · rw [below.frame key was fun enters => free (below.binds key enters)]
      exact shown was
  · rcases List.mem_cons.mp inside with same | inside
    · exact .inl (same ▸ List.mem_cons_self)
    · exact (below.bounded k inside).imp_left (List.mem_cons_of_mem key)
  · exact List.mem_cons_of_mem key (below.binds k enters)
  · exact below.frame k (fun inside => free (List.mem_cons_of_mem key inside)) other
  · obtain ⟨differs,gone⟩ := List.ne_and_not_mem_of_not_mem_cons gone
    have was := (List.mem_cons.mp inside).resolve_left differs
    rw [below.released k was gone,Function.update_of_ne differs]

/-- A step of one thread of a fork leaves the threads beside it alone. -/
theorem Kept.branch {base now next : κ → Option ν} {entered : Option κ} {width : Nat}
    {children : Fin width → Scopes κ ν} {t : Scopes κ ν} (i : Fin width)
    (apart : ∀ k ∈ entered, ∀ j, j ≠ i → k ∉ (children j).held)
    (nested : WellNested now base (forked width children)) (below : Kept base now entered (children i) t next) :
    Kept base now entered (forked width children) (forked width (Function.update children i t)) next := by
  have others (j : Fin width) (other : j ≠ i) (k : κ) (inside : k ∈ (children j).held) : k ∉ t.held :=
    fun held => (below.bounded k held).elim (fun was => nested.2 j i other k inside was)
      (fun enters => apart k enters j other inside)
  refine ⟨⟨fun j => ?_,fun j l differ k inside => ?_⟩,fun k inside => ?_,fun k enters => ?_,
    fun k free other => ?_,fun k inside gone => ?_⟩
  · by_cases same : j = i
    · cases same
      simpa using below.nested
    · rw [Function.update_of_ne same]
      refine (nested.1 j).frame fun k inside => below.frame k ?_ ?_
      · exact nested.2 j i same k inside
      · exact fun enters => apart k enters j same inside
  · by_cases first : j = i
    · cases first
      rw [Function.update_self] at inside
      rw [Function.update_of_ne differ.symm]
      exact fun held => others l differ.symm k held inside
    · rw [Function.update_of_ne first] at inside
      by_cases second : l = i
      · cases second
        rw [Function.update_self]
        exact others j first k inside
      · rw [Function.update_of_ne second]
        exact nested.2 j l differ k inside
  · obtain ⟨j,inside⟩ := mem_held_forked.mp inside
    by_cases same : j = i
    · cases same
      rw [Function.update_self] at inside
      exact (below.bounded k inside).imp_left fun was => mem_held_forked.mpr ⟨i,was⟩
    · rw [Function.update_of_ne same] at inside
      exact .inl (mem_held_forked.mpr ⟨j,inside⟩)
  · exact mem_held_forked.mpr ⟨i,by simpa using below.binds k enters⟩
  · exact below.frame k (fun inside => free (mem_held_forked.mpr ⟨i,inside⟩)) other
  · obtain ⟨j,inside⟩ := mem_held_forked.mp inside
    have left (l : Fin width) : k ∉ (Function.update children i t l).held :=
      fun held => gone (mem_held_forked.mpr ⟨l,held⟩)
    by_cases same : j = i
    · cases same
      exact below.released k inside (by simpa using left i)
    · exact absurd inside (by simpa [same] using left j)

/-- A thread may bind a key that it does not hold when the key shows the map underneath. -/
theorem Step.kept {base now next : κ → Option ν} {s t : Scopes κ ν} {entered : Option κ}
    (step : Step s now entered t next) (nested : WellNested now base s)
    (fresh : ∀ k ∈ entered, k ∉ s.held → now k = base k) : Kept base now entered s t next := by
  induction step generalizing base with
  | stay s now =>
    exact ⟨nested,fun _ inside => .inl inside,by simp,by simp,fun _ inside gone => absurd inside gone⟩
  | enter key value now =>
    refine ⟨⟨fresh key rfl (by simp),by simp,trivial⟩,by simp,by simp,fun k _ other => ?_,by simp⟩
    have differs : k ≠ key := fun same => other (same ▸ rfl)
    exact Function.update_of_ne differs _ _
  | leave key value saved now =>
    obtain ⟨kept,_,_⟩ := nested
    refine ⟨trivial,by simp,by simp,fun k free _ => ?_,fun k inside _ => ?_⟩
    · exact Function.update_of_ne (by simpa using free) _ _
    · cases List.mem_singleton.mp inside
      rw [Function.update_self,kept]
  | @inside key value saved s t now next entered _ ih =>
    refine .inside nested (ih nested.2.2 fun k enters free => ?_)
    by_cases same : k = key
    · cases same
      rw [nested.2.1 free,Function.update_self]
    · rw [Function.update_of_ne same]
      exact fresh k enters (by simp [same,free])
  | @branch width children t now next entered i apart _ ih =>
    refine .branch i apart nested (ih (nested.1 i) fun k enters free => fresh k enters fun held => ?_)
    obtain ⟨j,inside⟩ := mem_held_forked.mp held
    by_cases same : j = i
    · exact free (same ▸ inside)
    · exact apart k enters j same inside
  | fork width now => exact ⟨⟨fun _ => trivial,by simp⟩,by simp,by simp,by simp,by simp⟩
  | @join width children now all =>
    have nothing (k : κ) : k ∉ (forked width children).held := fun held => by
      obtain ⟨i,inside⟩ := mem_held_forked.mp held
      rw [all i] at inside
      cases inside
    exact ⟨trivial,by simp,by simp,by simp,fun k inside => absurd inside (nothing k)⟩

/-- The map is `before` under the bindings in force. -/
def Over (before now : κ → Option ν) (s : Scopes κ ν) : Prop :=
  WellNested now before s ∧ ∀ k, k ∉ s.held → now k = before k

theorem over_idle (before : κ → Option ν) : Over before before idle := ⟨trivial,by simp⟩

theorem Step.keeps_over {before now next : κ → Option ν} {s t : Scopes κ ν} {entered : Option κ}
    (step : Step s now entered t next) (own : Over before now s) : Over before next t := by
  have kept := step.kept own.1 fun k _ free => own.2 k free
  refine ⟨kept.nested,fun k gone => ?_⟩
  by_cases was : k ∈ s.held
  · exact kept.released k was gone
  · rw [kept.frame k was fun enters => gone (kept.binds k enters)]
    exact own.2 k was

/-- When nothing is bound any more, the map is what it was. -/
theorem Over.restored {before now : κ → Option ν} {s : Scopes κ ν} (own : Over before now s)
    (none : s.held = []) : now = before :=
  funext fun k => own.2 k (by simp [none])

end Scopes

end ScopedBindings
