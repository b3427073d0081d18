import Mathlib.Data.List.Forall2

/-! Servers that answer one message after the other, and what holds of all they answer. -/
namespace Transcripts

variable {σ α β : Type}

/-- The answers to the messages in their order, and the state after the last one. -/
def exchange (serve : σ → α → β × σ) : List α → σ → List β × σ
  | [],s => ([],s)
  | a :: rest,s =>
    let later := exchange serve rest (serve s a).2
    ((serve s a).1 :: later.1,later.2)

variable {serve : σ → α → β × σ}

theorem exchange_cons (a : α) (rest : List α) (s : σ) : exchange serve (a :: rest) s =
    ((serve s a).1 :: (exchange serve rest (serve s a).2).1,(exchange serve rest (serve s a).2).2) := rfl

/-- What every message leaves as it is holds after all of them. -/
theorem exchange_kept {inv : σ → Prop} (kept : ∀ s a, inv s → inv (serve s a).2) (messages : List α) {s : σ}
    (start : inv s) : inv (exchange serve messages s).2 := by
  induction messages generalizing s with
  | nil => exact start
  | cons a rest ih => exact ih (kept s a start)

/-- Each message has one answer, which is related to it. -/
theorem exchange_related {R : α → β → Prop} (each : ∀ s a, R a (serve s a).1) (messages : List α) (s : σ) :
    List.Forall₂ R messages (exchange serve messages s).1 := by
  induction messages generalizing s with
  | nil => exact .nil
  | cons a rest ih => exact .cons (each s a) (ih _)

/-- Before the state is open every message is answered without opening it. -/
theorem waiting_while_closed {opened : σ → Prop} {waiting : β → Prop} (stays : ∀ s a, opened s → opened (serve s a).2)
    (waits : ∀ s a, opened (serve s a).2 ∨ waiting (serve s a).1) {messages : List α} {s : σ}
    (closed : ¬opened (exchange serve messages s).2) : ∀ b ∈ (exchange serve messages s).1, waiting b := by
  induction messages generalizing s with
  | nil => exact fun b member => (List.not_mem_nil member).elim
  | cons a rest ih =>
    rw [exchange_cons] at closed ⊢
    refine List.forall_mem_cons.mpr ⟨?_,ih closed⟩
    rcases waits s a with open_ | waiting
    · exact absurd (exchange_kept stays rest open_) closed
    · exact waiting

/-- Where a state that is open stays so, and a refusal is given only before and leaves an open state behind, there is
one at most. Whatever comes before it was answered without opening. -/
theorem refused_once {opened : σ → Prop} {refusal waiting : β → Prop} (stays : ∀ s a, opened s → opened (serve s a).2)
    (refuses : ∀ s a, refusal (serve s a).1 → ¬opened s ∧ opened (serve s a).2)
    (waits : ∀ s a, opened (serve s a).2 ∨ waiting (serve s a).1) {messages : List α} {s : σ} {before after : List β}
    {b : β} (parts : (exchange serve messages s).1 = before ++ b :: after) (refused : refusal b) :
    (∀ c ∈ before, waiting c) ∧ ∀ c ∈ after, ¬refusal c := by
  -- what is answered in an open state is no refusal
  have accepted (messages : List α) (s : σ) (open_ : opened s) : ∀ c ∈ (exchange serve messages s).1, ¬refusal c := by
    induction messages generalizing s with
    | nil => exact fun c member => by cases member
    | cons a rest ih =>
      rw [exchange_cons]
      exact List.forall_mem_cons.mpr ⟨fun refused => (refuses s a refused).1 open_,ih _ (stays s a open_)⟩
  induction messages generalizing s before with
  | nil => cases before <;> cases parts
  | cons a rest ih =>
    rw [exchange_cons] at parts
    cases before with
    | nil =>
      obtain ⟨rfl,rfl⟩ := List.cons.inj parts
      exact ⟨fun c member => (List.not_mem_nil member).elim,accepted rest _ (refuses s a refused).2⟩
    | cons c before =>
      obtain ⟨rfl,later⟩ := List.cons.inj parts
      obtain ⟨waited,rest_fine⟩ := ih later
      refine ⟨List.forall_mem_cons.mpr ⟨?_,waited⟩,rest_fine⟩
      rcases waits s a with open_ | waiting
      · have member : b ∈ (exchange serve rest (serve s a).2).1 := later ▸ List.mem_append_right _ List.mem_cons_self
        exact absurd refused (accepted rest _ open_ b member)
      · exact waiting

/-- What holds of every message at the state it meets. -/
def Throughout (serve : σ → α → β × σ) (good : σ → α → Prop) : List α → σ → Prop
  | [],_ => True
  | a :: rest,s => good s a ∧ Throughout serve good rest (serve s a).2

theorem exchange_map {γ : Type} (f : γ → α) (messages : List γ) (s : σ) :
    exchange serve (messages.map f) s = exchange (fun s a => serve s (f a)) messages s := by
  induction messages generalizing s with
  | nil => rfl
  | cons a rest ih => rw [List.map_cons,exchange_cons,exchange_cons,ih]

/-- Two servers that agree on a message exactly when it is good, and then go on from one state, agree on a whole run
exactly when every message is good at the state it meets. -/
theorem exchange_agree_iff {γ : Type} {serve' : σ → α → γ × σ} {inv : σ → Prop} {agree : β → γ → Prop}
    {good : σ → α → Prop} {messages : List α} (kept : ∀ s, ∀ a ∈ messages, inv s → inv (serve s a).2)
    (step : ∀ s, ∀ a ∈ messages, inv s → (agree (serve s a).1 (serve' s a).1 ↔ good s a))
    (same : ∀ s, ∀ a ∈ messages, inv s → good s a → (serve' s a).2 = (serve s a).2) {s : σ} (start : inv s) :
    (List.Forall₂ agree (exchange serve messages s).1 (exchange serve' messages s).1 ↔ Throughout serve good messages s) ∧
      (Throughout serve good messages s → (exchange serve' messages s).2 = (exchange serve messages s).2) := by
  induction messages generalizing s with
  | nil => exact ⟨⟨fun _ => trivial,fun _ => .nil⟩,fun _ => rfl⟩
  | cons a rest ih =>
    have member : a ∈ a :: rest := List.mem_cons_self
    obtain ⟨answers,states⟩ := ih (fun s b later => kept s b (.tail _ later)) (fun s b later => step s b (.tail _ later))
      (fun s b later => same s b (.tail _ later)) (kept s a member start)
    simp only [exchange_cons,List.forall₂_cons,Throughout,step s a member start]
    constructor
    · refine and_congr_right fun good => ?_
      rw [same s a member start good,answers]
    · rintro ⟨good,later⟩
      rw [same s a member start good]
      exact states later

theorem exchange_append (messages more : List α) (s : σ) : exchange serve (messages ++ more) s =
    ((exchange serve messages s).1 ++ (exchange serve more (exchange serve messages s).2).1,
      (exchange serve more (exchange serve messages s).2).2) := by
  induction messages generalizing s with
  | nil => rfl
  | cons a rest ih => rw [List.cons_append,exchange_cons,ih,exchange_cons]; rfl

theorem exchange_length (messages : List α) (s : σ) : (exchange serve messages s).1.length = messages.length := by
  induction messages generalizing s with
  | nil => rfl
  | cons a rest ih => rw [exchange_cons,List.length_cons,List.length_cons,ih]

/-- Something has started, and nothing has ended it since. -/
def Since {γ : Type} (starts ends : γ → Prop) (events : List γ) : Prop :=
  ∃ before e after, events = before ++ e :: after ∧ starts e ∧ ∀ later ∈ after, ¬ends later

theorem since_nil {γ : Type} {starts ends : γ → Prop} : ¬Since starts ends [] := by
  rintro ⟨before,e,after,parts,-⟩
  simp at parts

/-- The last event starts it, or leaves it as it is. -/
theorem since_snoc {γ : Type} {starts ends : γ → Prop} (events : List γ) (e : γ) :
    Since starts ends (events ++ [e]) ↔ starts e ∨ Since starts ends events ∧ ¬ends e := by
  constructor
  · rintro ⟨before,d,after,parts,started,open_⟩
    rcases List.eq_nil_or_concat after with rfl | ⟨front,last,rfl⟩
    · obtain ⟨-,same⟩ := List.append_inj' parts rfl
      cases same
      exact .inl started
    · rw [List.concat_eq_append,← List.cons_append,← List.append_assoc] at parts
      obtain ⟨rfl,same⟩ := List.append_inj' parts rfl
      cases same
      rw [List.concat_eq_append] at open_
      exact .inr ⟨⟨before,d,front,rfl,started,fun later member => open_ later (List.mem_append_left _ member)⟩,
        open_ e (List.mem_append_right _ List.mem_cons_self)⟩
  · rintro (started | ⟨⟨before,d,after,rfl,started,open_⟩,stays⟩)
    · exact ⟨events,e,[],rfl,started,fun later member => by cases member⟩
    · refine ⟨before,d,after ++ [e],by simp,started,fun later member => ?_⟩
      rcases List.mem_append.mp member with inside | last
      · exact open_ later inside
      · rwa [List.mem_singleton.mp last]

end Transcripts
