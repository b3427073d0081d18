import Mathlib.Data.List.Forall2

/-! What a computation that may fail went through when it gave a value. -/
namespace ExceptRules

variable {ε α β : Type}

theorem bind_eq_ok {x : Except ε α} {f : α → Except ε β} {b : β} :
    x >>= f = .ok b ↔ ∃ a, x = .ok a ∧ f a = .ok b := by
  cases x with
  | error e => simp [bind,Except.bind]
  | ok a => simp [bind,Except.bind]

theorem bind_eq_error {x : Except ε α} {f : α → Except ε β} {e : ε} :
    x >>= f = .error e ↔ x = .error e ∨ ∃ a, x = .ok a ∧ f a = .error e := by
  cases x with
  | error e => simp [bind,Except.bind]
  | ok a => simp [bind,Except.bind]

theorem map_eq_ok {x : Except ε α} {f : α → β} {b : β} :
    x.map f = .ok b ↔ ∃ a, x = .ok a ∧ f a = b := by
  cases x with
  | error e => simp [Except.map]
  | ok a => simp [Except.map]

theorem map_eq_error {x : Except ε α} {f : α → β} {e : ε} : x.map f = .error e ↔ x = .error e := by
  cases x with
  | error e => simp [Except.map]
  | ok a => simp [Except.map]

theorem toOption_eq_some {x : Except ε α} {a : α} : x.toOption = some a ↔ x = .ok a := by
  cases x with
  | error e => simp [Except.toOption]
  | ok b => simp [Except.toOption]

/-- A check that was passed. -/
theorem isOk_eq_true {x : Except ε Unit} : x.isOk = true ↔ x = .ok () := by
  cases x with
  | error e => simp [Except.isOk,Except.toBool]
  | ok => simp [Except.isOk,Except.toBool]

theorem mapM_eq_ok {f : α → Except ε β} {l : List α} {out : List β} :
    l.mapM f = .ok out ↔ List.Forall₂ (fun a b => f a = .ok b) l out := by
  induction l generalizing out with
  | nil => simp [pure,Except.pure,eq_comm]
  | cons a rest ih =>
    simp only [List.mapM_cons,bind_eq_ok,ih,List.forall₂_cons_left_iff,pure,Except.pure,Except.ok.injEq]
    constructor
    · rintro ⟨b,first,more,others,rfl⟩
      exact ⟨b,more,first,others,rfl⟩
    · rintro ⟨b,more,first,others,rfl⟩
      exact ⟨b,first,more,others,rfl⟩

theorem mapM_eq_some {f : α → Option β} {l : List α} {out : List β} :
    l.mapM f = some out ↔ List.Forall₂ (fun a b => f a = some b) l out := by
  induction l generalizing out with
  | nil => simp [eq_comm]
  | cons a rest ih =>
    simp only [List.mapM_cons,Option.bind_eq_bind,Option.bind_eq_some_iff,ih,List.forall₂_cons_left_iff,Option.pure_def,
      Option.some.injEq]
    constructor
    · rintro ⟨b,first,more,others,rfl⟩
      exact ⟨b,more,first,others,rfl⟩
    · rintro ⟨b,more,first,others,rfl⟩
      exact ⟨b,first,more,others,rfl⟩

theorem mapM_of_forall {f : α → Option β} {g : α → β} {l : List α} (each : ∀ a ∈ l, f a = some (g a)) :
    l.mapM f = some (l.map g) := by
  induction l with
  | nil => rfl
  | cons a rest ih =>
    obtain ⟨first,others⟩ := List.forall_mem_cons.mp each
    simp [List.mapM_cons,first,ih others]

/-- What each run keeps, all of them keep. -/
theorem map_of_mapM {f : α → Except ε β} {g : α → γ} {h : β → γ} {l : List α} {out : List β} (ran : l.mapM f = .ok out)
    (same : ∀ a b, f a = .ok b → h b = g a) : out.map h = l.map g := by
  have each := mapM_eq_ok.mp ran
  clear ran
  induction each with
  | nil => rfl
  | cons first _ ih => rw [List.map_cons,List.map_cons,ih,same _ _ first]

theorem related_mem {R : α → β → Prop} {l : List α} {out : List β} (related : List.Forall₂ R l out) :
    ∀ a ∈ l, ∃ b ∈ out, R a b := by
  induction related with
  | nil => simp
  | cons first _ ih =>
    refine List.forall_mem_cons.mpr ⟨⟨_,List.mem_cons_self,first⟩,fun a member => ?_⟩
    obtain ⟨b,inside,later⟩ := ih a member
    exact ⟨b,List.mem_cons_of_mem _ inside,later⟩

theorem ok_of_mapM {f : α → Except ε β} {l : List α} {out : List β} (ran : l.mapM f = .ok out) {a : α}
    (member : a ∈ l) : ∃ b, f a = .ok b := by
  obtain ⟨b,_,value⟩ := related_mem (mapM_eq_ok.mp ran) a member
  exact ⟨b,value⟩

/-- Every failure is one of those that are caught. -/
def Only (caught : ε → Prop) (x : Except ε α) : Prop := ∀ e, x = .error e → caught e

@[simp] theorem only_ok {caught : ε → Prop} {a : α} : Only caught (.ok a) := fun _ failed => by contradiction

@[simp] theorem only_error {caught : ε → Prop} {e : ε} : Only caught (.error e : Except ε α) ↔ caught e :=
  ⟨fun only => only e rfl,fun own _ same => Except.error.inj same ▸ own⟩

/-- A sequence fails as its first part does, or as what follows on the value of that. -/
theorem only_bind {caught : ε → Prop} {x : Except ε α} {f : α → Except ε β} :
    Only caught (x >>= f) ↔ Only caught x ∧ ∀ a, x = .ok a → Only caught (f a) := by
  cases x with
  | error e => simp [bind,Except.bind]
  | ok a => simp [bind,Except.bind]

/-- A computation on a part of a state, in which `put` puts the part back. -/
def within (put : α → β) : Except α α → Except β β
  | .error a => .error (put a)
  | .ok a => .ok (put a)

theorem within_eq_ok {put : α → β} {x : Except α α} {b : β} : within put x = .ok b ↔ ∃ a, x = .ok a ∧ put a = b := by
  cases x with
  | error a => simp [within]
  | ok a => simp [within]

theorem within_eq_error {put : α → β} {x : Except α α} {b : β} :
    within put x = .error b ↔ ∃ a, x = .error a ∧ put a = b := by
  cases x with
  | error a => simp [within]
  | ok a => simp [within]

end ExceptRules
