import IntScript.Proofs.CutShort
import Mathlib.Order.Basic

set_option autoImplicit false

/-! # Worlds whose cells are linked

Two runs that allocate differently are compared through links between their cells. Worlds are linked if linked cells hold
the same value and tools have put out the same; either may have further cells. Two runs are in step if they add links and
do nothing else to tell them apart. -/

namespace IntScript

/-- Which cell of one store stands for which cell of another. -/
abbrev Links : Type := Cell → Cell → Prop

def Links.add (L : Links) (a b : Cell) : Links := fun c d => L c d ∨ c = a ∧ d = b

theorem Links.le_add (L : Links) (a b : Cell) : L ≤ L.add a b := fun _ _ h => .inl h

theorem Links.add_self (L : Links) (a b : Cell) : L.add a b a b := .inr ⟨rfl, rfl⟩

namespace World

/-- The events that show outside. -/
def shown (w : World) : List Event := w.events.toList.filter fun e => e.output?.isSome

theorem output_eq (w : World) : w.output = w.shown.filterMap Event.output? := by
  rw [output, shown, List.filterMap_filter]
  congr 1
  funext e
  cases e.output? <;> rfl

theorem shown_noteAll (w : World) (es : List Event) :
    (w.noteAll es).shown = w.shown ++ es.filter fun e => e.output?.isSome := by
  rw [shown, events_noteAll, List.filter_append]
  rfl

theorem shown_note (w : World) {e : Event} (he : e.output? = none) : (w.note e).shown = w.shown := by
  have hnote : (w.note e).shown = _ := w.shown_noteAll [e]
  simpa [he] using hnote

/-- Linked cells hold the same, no cell is linked twice, and tools have put out the same. -/
structure Linked (L : Links) (w w' : World) : Prop where
  shown : w.shown = w'.shown
  allocated : ∀ a b, L a b → a.index < w.store.size ∧ b.index < w'.store.size
  read : ∀ a b, L a b → w.read a = w'.read b
  unique : ∀ a b c d, L a b → L c d → (a = c ↔ b = d)

namespace Linked

variable {L : Links} {w w' : World}

theorem ne_nextCell {a : Cell} (h : a.index < w.store.size) : a ≠ w.nextCell := by
  rintro rfl
  exact Nat.lt_irrefl _ h

/-- A cell that only the first run adds. -/
theorem addLeft (h : Linked L w w') (v : Value) : Linked L (w.add v) w' := by
  refine ⟨h.shown, fun a b hab => ?_, fun a b hab => ?_, h.unique⟩
  · have hlt := h.allocated a b hab
    rw [size_add]
    omega
  · rw [read_add_of_lt w v (h.allocated a b hab).1]
    exact h.read a b hab

theorem addRight (h : Linked L w w') (v : Value) : Linked L w (w'.add v) := by
  refine ⟨h.shown, fun a b hab => ?_, fun a b hab => ?_, h.unique⟩
  · have hlt := h.allocated a b hab
    rw [size_add]
    omega
  · rw [read_add_of_lt w' v (h.allocated a b hab).2]
    exact h.read a b hab

theorem add (h : Linked L w w') (v : Value) : Linked (L.add w.nextCell w'.nextCell) (w.add v) (w'.add v) := by
  have hold := (h.addLeft v).addRight v
  refine ⟨h.shown, ?_, ?_, ?_⟩
  · rintro a b (hab | ⟨rfl, rfl⟩)
    · exact hold.allocated a b hab
    · simp [nextCell]
  · rintro a b (hab | ⟨rfl, rfl⟩)
    · exact hold.read a b hab
    · simp [read_add, nextCell]
  · rintro a b c d (hab | ⟨rfl, rfl⟩) (hcd | ⟨rfl, rfl⟩)
    · exact h.unique a b c d hab hcd
    · have hlt := h.allocated a b hab
      exact iff_of_false (ne_nextCell hlt.1) (ne_nextCell hlt.2)
    · have hlt := h.allocated c d hcd
      exact iff_of_false (ne_nextCell hlt.1).symm (ne_nextCell hlt.2).symm
    · exact iff_of_true rfl rfl

theorem write (h : Linked L w w') {a b : Cell} (hab : L a b) (v : Value) : Linked L (w.write a v) (w'.write b v) := by
  have hlt := h.allocated a b hab
  refine ⟨h.shown, fun c d hcd => ?_, fun c d hcd => ?_, h.unique⟩
  · rw [size_write, size_write]
    exact h.allocated c d hcd
  · rw [read_write, read_write, h.read c d hcd]
    have hsame := h.unique c d a b hcd hab
    simp [hsame, hlt.1, hlt.2]

theorem noteAll (h : Linked L w w') (es : List Event) : Linked L (w.noteAll es) (w'.noteAll es) := by
  have hshown : (w.noteAll es).shown = (w'.noteAll es).shown := by rw [shown_noteAll, shown_noteAll, h.shown]
  rw [noteAll_eq, noteAll_eq] at hshown ⊢
  exact ⟨hshown, h.allocated, h.read, h.unique⟩

theorem noteLeft (h : Linked L w w') {e : Event} (he : e.output? = none) : Linked L (w.note e) w' :=
  ⟨(w.shown_note he).trans h.shown, h.allocated, h.read, h.unique⟩

theorem noteRight (h : Linked L w w') {e : Event} (he : e.output? = none) : Linked L w (w'.note e) :=
  ⟨h.shown.trans (w'.shown_note he).symm, h.allocated, h.read, h.unique⟩

end Linked

end World

/-- Worlds linked in these cells, and maybe in more. -/
def Links.Joins (L : Links) (w w' : World) : Prop := ∃ M, L ≤ M ∧ World.Linked M w w'

theorem Links.Joins.mono {L M : Links} {w w' : World} (h : M.Joins w w') (hLM : L ≤ M) : L.Joins w w' := by
  obtain ⟨N, hMN, hw⟩ := h
  exact ⟨N, le_trans hLM hMN, hw⟩

theorem Links.Joins.shown {L : Links} (w w' : World) (h : L.Joins w w') : w.shown = w'.shown := by
  obtain ⟨M, -, hw⟩ := h
  exact hw.shown

open Attempt

namespace Exec

variable {α β : Type} {L : Links}

theorem Grows.shown {m : Exec α} (h : Grows m) : Attempt.Grows World.shown m := fun w => (h w).filter _

/-- Runs from linked worlds end alike in linked worlds, or the first runs out of fuel. -/
def InStep (L : Links) (m m' : Exec α) : Prop := Attempt.CutShort World.shown (fun _ => False) L.Joins m m'

theorem inStep_outOfFuel {m : Exec α} (hm : Grows m) : InStep L Attempt.outOfFuel m :=
  Attempt.cutShort_outOfFuel hm.shown Links.Joins.shown

theorem inStep_read {a b : Cell} (hab : L a b) : InStep L (read a) (read b) := by
  refine ⟨fun _ => List.prefix_refl _, ?_⟩
  rintro w w' ⟨M, hLM, hw⟩
  have hread := hw.read a b (hLM a b hab)
  exact .inl ⟨congrArg Outcome.done hread, M, hLM, hw⟩

theorem inStep_write {a b : Cell} (hab : L a b) (v : Value) : InStep L (write a v) (write b v) := by
  refine ⟨fun _ => List.prefix_refl _, ?_⟩
  rintro w w' ⟨M, hLM, hw⟩
  exact .inl ⟨rfl, M, hLM, hw.write (hLM a b hab) v⟩

theorem inStep_note (e : Event) : InStep L (note e) (note e) := by
  refine ⟨(grows_note e).shown, ?_⟩
  rintro w w' ⟨M, hLM, hw⟩
  exact .inl ⟨rfl, M, hLM, hw.noteAll [e]⟩

theorem inStep_useTool (tool : Tool) (args : List Value) : InStep L (useTool tool args) (useTool tool args) := by
  refine ⟨(grows_useTool tool args).shown, ?_⟩
  rintro w w' ⟨M, hLM, hw⟩
  exact .inl ⟨rfl, M, hLM, hw.noteAll _⟩

theorem inStep_alloc {k k' : Cell → Exec α} (v : Value) (hk : ∀ M a b, L ≤ M → M a b → InStep M (k a) (k' b)) :
    InStep L (alloc v >>= k) (alloc v >>= k') := by
  have halloc : Attempt.Grows World.shown (alloc v) := fun _ => List.prefix_refl _
  have hgrows : ∀ b, Attempt.Grows World.shown (k' b) := fun b =>
    (hk (L.add b b) b b (L.le_add b b) (L.add_self b b)).grows
  refine ⟨halloc.bind hgrows, ?_⟩
  rintro w w' ⟨M, hLM, hw⟩
  have hle := hLM.trans (M.le_add w.nextCell w'.nextCell)
  have hrest := hk _ w.nextCell w'.nextCell hle (M.add_self _ _)
  rcases hrest.same_or_cut (w.add v) (w'.add v) ⟨_, le_refl _, hw.add v⟩ with ⟨hout, hstate⟩ | hcut
  · exact .inl ⟨hout, hstate.mono hle⟩
  · exact .inr hcut

end Exec

end IntScript
