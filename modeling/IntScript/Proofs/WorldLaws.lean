import IntScript.World

set_option autoImplicit false

namespace IntScript.World

theorem read_add (w : World) (v : Value) (cell : Cell) :
    (w.add v).read cell = if cell.index = w.store.size then v else w.read cell := by
  unfold read add
  rw [Array.getElem?_push]
  split <;> rfl

theorem read_add_of_lt (w : World) (v : Value) {cell : Cell} (h : cell.index < w.store.size) :
    (w.add v).read cell = w.read cell := by
  rw [read_add, if_neg (by omega)]

theorem read_write (w : World) (cell : Cell) (v : Value) (other : Cell) :
    (w.write cell v).read other = if other = cell ∧ cell.index < w.store.size then v else w.read other := by
  unfold read write
  rw [Array.getElem?_setIfInBounds]
  by_cases h : cell.index = other.index
  · have heq : other = cell := by
      obtain ⟨i⟩ := cell
      obtain ⟨j⟩ := other
      exact congrArg Cell.mk h.symm
    subst heq
    by_cases hlt : other.index < w.store.size
    · simp [hlt]
    · simp [hlt]
  · have hne : other ≠ cell := fun heq => h (congrArg Cell.index heq.symm)
    rw [if_neg h, if_neg fun hc => hne hc.1]

@[simp] theorem size_add (w : World) (v : Value) : (w.add v).store.size = w.store.size + 1 := by
  simp [add]

@[simp] theorem size_write (w : World) (cell : Cell) (v : Value) :
    (w.write cell v).store.size = w.store.size := by
  simp [write]

theorem noteAll_eq (w : World) (es : List Event) : w.noteAll es = ⟨w.store, w.events ++ es.toArray⟩ := by
  unfold noteAll
  induction es generalizing w with
  | nil => simp
  | cons e es ih =>
    rw [List.foldl_cons, ih]
    simp [note]

theorem events_noteAll (w : World) (es : List Event) : (w.noteAll es).events.toList = w.events.toList ++ es := by
  rw [noteAll_eq, Array.toList_append]

theorem events_note (w : World) (e : Event) : (w.note e).events.toList = w.events.toList ++ [e] := events_noteAll w [e]

end IntScript.World
