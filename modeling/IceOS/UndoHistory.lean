/-! Histories with undo and redo. -/

/-- What is there now, what preceded each change that is not undone, the latest first, and what was undone since. -/
structure UndoHistory (σ : Type) where
  current : σ
  past : List σ := []
  future : List σ := []

namespace UndoHistory

variable {σ : Type}

def change (h : UndoHistory σ) (next : σ) : UndoHistory σ := ⟨next,h.current :: h.past,[]⟩

/-- A change that is not kept as a step of its own. -/
def adjust (h : UndoHistory σ) (next : σ) : UndoHistory σ := { h with current := next }

def undo (h : UndoHistory σ) : UndoHistory σ :=
  match h.past with
  | [] => h
  | before :: past => ⟨before,past,h.current :: h.future⟩

def redo (h : UndoHistory σ) : UndoHistory σ :=
  match h.future with
  | [] => h
  | after :: future => ⟨after,h.current :: h.past,future⟩

theorem undo_some {h : UndoHistory σ} {before : σ} {past : List σ} (changed : h.past = before :: past) :
    h.undo = ⟨before,past,h.current :: h.future⟩ := by
  simp only [undo,changed]

theorem undo_none {h : UndoHistory σ} (unchanged : h.past = []) : h.undo = h := by
  simp only [undo,unchanged]

theorem redo_undo {h : UndoHistory σ} (changed : h.past ≠ []) : h.undo.redo = h := by
  obtain ⟨current,past,future⟩ := h
  cases past with
  | nil => exact absurd rfl changed
  | cons before past => rfl

end UndoHistory
