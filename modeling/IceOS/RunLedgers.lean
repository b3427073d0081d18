import IceOS.ControlFlow

/-! The notes of a run as a ledger. Every executor adds a segment to it: a success in a segment without an ignored
failure is free of failures, and the tokens spent in it are carried by what the executor gives back, or noted
as dropped. No executor adds to the cost. -/
namespace IceOS

namespace Note

def spent : Note → Nat
  | .invoked call => call.tokens
  | _ => 0

def lost : Note → Nat
  | .dropped tokens => tokens
  | _ => 0

def handed : Note → Nat
  | .returned tokens => tokens
  | _ => 0

end Note

def Quiet (notes : List Note) : Prop := ∀ note ∈ notes, note.isIgnored = false

def Flawless (notes : List Note) : Prop := ∀ note ∈ notes, note.isFailure = false

def spent (notes : List Note) : Nat := (notes.map Note.spent).sum

def lost (notes : List Note) : Nat := (notes.map Note.lost).sum

def handed (notes : List Note) : Nat := (notes.map Note.handed).sum

section

variable (front back : List Note)

@[simp] theorem quiet_append : Quiet (front ++ back) ↔ Quiet front ∧ Quiet back := List.forall_mem_append
@[simp] theorem flawless_append : Flawless (front ++ back) ↔ Flawless front ∧ Flawless back := List.forall_mem_append
@[simp] theorem spent_append : spent (front ++ back) = spent front + spent back := by simp [spent]
@[simp] theorem lost_append : lost (front ++ back) = lost front + lost back := by simp [lost]
@[simp] theorem handed_append : handed (front ++ back) = handed front + handed back := by simp [handed]

end

/-- What a segment of the notes says when it came to a success or not and `tokens` are carried out of it. -/
structure Ledger (notes : List Note) (ok : Bool) (tokens : Nat) : Prop where
  honest : ok = true → Quiet notes → Flawless notes
  grounded : Flawless notes → Quiet notes
  balanced : spent notes = tokens + lost notes
  unhanded : handed notes = 0

namespace Ledger

variable {notes more : List Note} {ok further : Bool} {tokens rest : Nat}

theorem nil : Ledger [] ok 0 :=
  ⟨fun _ _ => by simp [Flawless],fun _ => by simp [Quiet],rfl,rfl⟩

theorem append (first : Ledger notes ok tokens) (second : Ledger more further rest) :
    Ledger (notes ++ more) (ok && further) (tokens + rest) where
  honest fine quiet := by
    obtain ⟨here,there⟩ := (Bool.and_eq_true _ _).mp fine
    rw [quiet_append] at quiet
    rw [flawless_append]
    exact ⟨first.honest here quiet.1,second.honest there quiet.2⟩
  grounded flawless := by
    rw [flawless_append] at flawless
    rw [quiet_append]
    exact ⟨first.grounded flawless.1,second.grounded flawless.2⟩
  balanced := by
    have here := first.balanced
    have there := second.balanced
    rw [spent_append,lost_append]
    omega
  unhanded := by rw [handed_append,first.unhanded,second.unhanded]

theorem weaken (ledger : Ledger notes ok tokens) (less : further = true → ok = true) : Ledger notes further tokens :=
  { ledger with honest := fun fine => ledger.honest (less fine) }

/-- What is carried out of the segment is dropped. -/
theorem drop (ledger : Ledger notes ok tokens) : Ledger (notes ++ [.dropped tokens]) ok 0 where
  honest fine quiet := by
    rw [quiet_append] at quiet
    rw [flawless_append]
    exact ⟨ledger.honest fine quiet.1,by simp [Flawless,Note.isFailure]⟩
  grounded flawless := by
    rw [flawless_append] at flawless
    rw [quiet_append]
    exact ⟨ledger.grounded flawless.1,by simp [Quiet,Note.isIgnored]⟩
  balanced := by
    have before := ledger.balanced
    simp only [spent_append,lost_append]
    simp only [spent,lost,List.map_cons,List.map_nil,List.sum_cons,List.sum_nil,Note.spent,Note.lost] at before ⊢
    omega
  unhanded := by
    rw [handed_append,ledger.unhanded]
    rfl

/-- A failure that is told of may be ignored. -/
theorem ignore (ledger : Ledger notes ok tokens) (told : ¬Flawless notes) (id : String) :
    Ledger (notes ++ [.ignored id]) further tokens where
  honest _ quiet := by
    rw [quiet_append] at quiet
    exact nomatch quiet.2 (.ignored id) (List.mem_singleton_self _)
  grounded flawless := absurd ((flawless_append _ _).mp flawless).1 told
  balanced := by
    rw [spent_append,lost_append,ledger.balanced]
    rfl
  unhanded := by
    rw [handed_append,ledger.unhanded]
    rfl

theorem execution (ledger : Ledger notes ok tokens) (id : String) (less : further = true → ok = true) :
    Ledger (notes ++ [.execution id further]) further tokens where
  honest fine quiet := by
    rw [quiet_append] at quiet
    rw [flawless_append]
    exact ⟨ledger.honest (less fine) quiet.1,by simp [Flawless,Note.isFailure,fine]⟩
  grounded flawless := by
    rw [flawless_append] at flawless
    rw [quiet_append]
    exact ⟨ledger.grounded flawless.1,by simp [Quiet,Note.isIgnored]⟩
  balanced := by
    rw [spent_append,lost_append,ledger.balanced]
    rfl
  unhanded := by
    rw [handed_append,ledger.unhanded]
    rfl

theorem forget (ledger : Ledger notes ok tokens) (id : String) (before : List Note) :
    Ledger (notes ++ forgotten id before (before ++ notes)) further tokens := by
  simp only [forgotten,List.drop_left]
  cases failed : notes.any Note.isFailure with
  | true =>
    refine ledger.ignore (fun flawless => ?_) id
    obtain ⟨note,member,failure⟩ := List.any_eq_true.mp failed
    exact nomatch failure.symm.trans (flawless note member)
  | false =>
    have flawless : Flawless notes := fun note member => by simpa using List.any_eq_false.mp failed note member
    simp only [Bool.false_eq_true,if_false,List.append_nil]
    exact { ledger with honest := fun _ _ => flawless }

/-- A result whose flag and usage are not looked at, when its failure is told of. -/
theorem passedOver {r : NodeExecutionResult} (ledger : Ledger notes r.success r.tokens)
    (told : r.success = false → ¬Flawless notes) (id : String) :
    Ledger (notes ++ IceOS.passedOver id r) true 0 := by
  rw [IceOS.passedOver,← List.append_assoc]
  apply drop
  cases success : r.success with
  | true => simpa [success] using ledger
  | false => exact ledger.ignore (told success) id

theorem mem_outside {calls : List LlmCall} {note : Note} (member : note ∈ ExecutorRuntime.outside calls) :
    note.isFailure = false ∧ note.isIgnored = false := by
  obtain ⟨call,_,inside⟩ := List.mem_flatMap.mp member
  simp only [List.mem_cons,List.not_mem_nil,or_false] at inside
  rcases inside with rfl | rfl
  · exact ⟨rfl,rfl⟩
  · exact ⟨rfl,rfl⟩

theorem outside (calls : List LlmCall) : Ledger (ExecutorRuntime.outside calls) ok 0 where
  honest _ _ _ member := (mem_outside member).1
  grounded _ _ member := (mem_outside member).2
  balanced := by
    induction calls with
    | nil => rfl
    | cons call rest ih =>
      simp only [ExecutorRuntime.outside,List.flatMap_cons,spent_append,lost_append] at ih ⊢
      simp only [spent,lost,List.map_cons,List.map_nil,List.sum_cons,List.sum_nil,Note.spent,Note.lost] at ih ⊢
      omega
  unhanded := by
    induction calls with
    | nil => rfl
    | cons call rest ih =>
      simp only [ExecutorRuntime.outside,List.flatMap_cons,handed_append] at ih ⊢
      rw [ih]
      rfl

end Ledger

/-- `t` is `s` after a segment of the ledger, at no cost. -/
structure Segment {ω : Type} (s t : Running ω) (ok : Bool) (tokens : Nat) : Prop where
  cost : t.budget.totalCost = s.budget.totalCost
  ledger : ∃ notes, t.notes = s.notes ++ notes ∧ Ledger notes ok tokens

/-- A failure was noted on the way from `s` to `t`. -/
def Told {ω : Type} (s t : Running ω) : Prop := ∃ notes, t.notes = s.notes ++ notes ∧ ¬Flawless notes

section

variable {ω : Type} {s t u : Running ω} {ok further : Bool} {tokens rest : Nat}

namespace Segment

theorem refl (s : Running ω) (ok : Bool) : Segment s s ok 0 := ⟨rfl,[],by simp,.nil⟩

theorem trans (first : Segment s t ok tokens) (second : Segment t u further rest) :
    Segment s u (ok && further) (tokens + rest) := by
  obtain ⟨cost,notes,after,ledger⟩ := first
  obtain ⟨cost',more,after',ledger'⟩ := second
  exact ⟨cost'.trans cost,notes ++ more,by rw [after',after,List.append_assoc],ledger.append ledger'⟩

theorem weaken (segment : Segment s t ok tokens) (less : further = true → ok = true) : Segment s t further tokens := by
  obtain ⟨cost,notes,after,ledger⟩ := segment
  exact ⟨cost,notes,after,ledger.weaken less⟩

theorem failed (segment : Segment s t ok tokens) : Segment s t false tokens := segment.weaken nofun

/-- What is neither noted nor charged does not matter. -/
theorem congr (segment : Segment s t ok tokens) (notes : u.notes = t.notes)
    (cost : u.budget.totalCost = t.budget.totalCost) : Segment s u ok tokens :=
  ⟨cost.trans segment.cost,by rw [notes]; exact segment.ledger⟩

theorem put (s : Running ω) (w : ω) (ok : Bool) : Segment s (s.put w) ok 0 := (refl s ok).congr rfl rfl

/-- A success leaves the verdict to what follows. -/
theorem next (first : Segment s t true 0) (second : Segment t u ok tokens) : Segment s u ok tokens := by
  have both := first.trans second
  rwa [Bool.true_and,Nat.zero_add] at both

theorem drop (segment : Segment s t ok tokens) : Segment s (t.note [.dropped tokens]) ok 0 := by
  obtain ⟨cost,notes,after,ledger⟩ := segment
  exact ⟨cost,_,by rw [Session.note_notes,after,List.append_assoc],ledger.drop⟩

theorem execution (segment : Segment s t ok tokens) (id : String) (less : further = true → ok = true) :
    Segment s (t.note [.execution id further]) further tokens := by
  obtain ⟨cost,notes,after,ledger⟩ := segment
  exact ⟨cost,_,by rw [Session.note_notes,after,List.append_assoc],ledger.execution id less⟩

theorem forget (segment : Segment s t ok tokens) (id : String) (further : Bool) :
    Segment s (t.note (forgotten id s.notes t.notes)) further tokens := by
  obtain ⟨cost,notes,after,ledger⟩ := segment
  rw [after]
  exact ⟨cost,_,by rw [Session.note_notes,after,List.append_assoc],ledger.forget id s.notes⟩

theorem ignore (segment : Segment s t ok tokens) (told : Told s t) (id : String) (further : Bool) :
    Segment s (t.note [.ignored id]) further tokens := by
  obtain ⟨cost,notes,after,ledger⟩ := segment
  obtain ⟨same,after',told⟩ := told
  cases List.append_cancel_left (after.symm.trans after')
  exact ⟨cost,_,by rw [Session.note_notes,after,List.append_assoc],ledger.ignore told id⟩

theorem passedOver {r : NodeExecutionResult} (segment : Segment s t r.success r.tokens)
    (told : r.success = false → Told s t) (id : String) : Segment s (t.note (IceOS.passedOver id r)) true 0 := by
  obtain ⟨cost,notes,after,ledger⟩ := segment
  refine ⟨cost,_,by rw [Session.note_notes,after,List.append_assoc],ledger.passedOver (fun failed => ?_) id⟩
  obtain ⟨same,after',told⟩ := told failed
  cases List.append_cancel_left (after.symm.trans after')
  exact told

theorem outside (s : Running ω) (calls : List LlmCall) (ok : Bool) :
    Segment s (s.note (ExecutorRuntime.outside calls)) ok 0 :=
  ⟨rfl,_,rfl,.outside calls⟩

end Segment

theorem Told.after (segment : Segment s t ok tokens) (told : Told t u) : Told s u := by
  obtain ⟨_,notes,after,_⟩ := segment
  obtain ⟨more,after',told⟩ := told
  refine ⟨notes ++ more,by rw [after',after,List.append_assoc],fun flawless => ?_⟩
  exact told ((flawless_append _ _).mp flawless).2

/-- The execution that failed is noted last. -/
theorem Told.execution (segment : Segment s t ok tokens) (id : String) : Told s (t.note [.execution id false]) :=
  .after segment ⟨[.execution id false],rfl,by simp [Flawless,Note.isFailure]⟩

/-- The end of an execution is noted, and nobody asks for its result. -/
theorem Segment.ended {r : NodeExecutionResult} (segment : Segment s t r.success r.tokens) (id : String) :
    Segment s (t.note (.execution id r.success :: IceOS.passedOver id r)) true 0 := by
  have told (failed : r.success = false) : Told s (t.note [.execution id r.success]) := by
    rw [failed]
    exact .execution segment id
  have heard : (t.note (.execution id r.success :: IceOS.passedOver id r)).notes =
      ((t.note [.execution id r.success]).note (IceOS.passedOver id r)).notes := by
    simp
  have noted : Segment s (t.note [.execution id r.success]) r.success r.tokens := segment.execution id fun fine => fine
  exact (noted.passedOver told id).congr heard rfl

end

end IceOS
