import IntScript.Evaluation
import IntScript.Proofs.AttemptLaws

set_option autoImplicit false

namespace IntScript

theorem Table.lookup?_map {α β : Type} (t : Table α) (f : α → β) (x : String) :
    (t.map f).lookup? x = (t.lookup? x).map f := by
  change (t.bindings.map fun p => (p.1, f p.2)).lookup x = (t.bindings.lookup x).map f
  induction t.bindings with
  | nil => rfl
  | cons b bs ih =>
    obtain ⟨y, item⟩ := b
    simp only [List.map_cons, List.lookup_cons, ih]
    cases x == y <;> rfl

namespace Scope

variable {s t : Scope} {x : String}

theorem cell_eq_ok {cell : Cell} : s.cell x = .ok cell ↔ s.vars.lookup? x = some cell := by
  unfold Scope.cell
  cases s.vars.lookup? x <;> simp

theorem callable_eq_ok {item : Callable} : s.callable x = .ok item ↔ s.funs.lookup? x = some item := by
  unfold Scope.callable
  cases s.funs.lookup? x <;> simp

theorem declareVariable_eq_ok {cell : Cell} :
    s.declareVariable x cell = .ok t ↔ s.vars.isDeclaredHere x = false ∧ t = ⟨s.vars.bind x cell, s.funs⟩ := by
  unfold Scope.declareVariable Table.declare?
  cases s.vars.isDeclaredHere x <;> simp [eq_comm]

theorem declareFunction_eq_ok {item : Callable} :
    s.declareFunction x item = .ok t ↔ s.funs.isDeclaredHere x = false ∧ t = ⟨s.vars, s.funs.bind x item⟩ := by
  unfold Scope.declareFunction Table.declare?
  cases s.funs.isDeclaredHere x <;> simp [eq_comm]

/-- What a statement that is done has made of its scope. -/
def Declares (s : Scope) : Statement → Scope → Prop
  | .declare x _, t => ∃ cell, s.declareVariable x cell = .ok t
  | .function f params b, t => s.declareFunction f (.user ⟨⟨f, params, b⟩, s.child⟩) = .ok t
  | _, t => t = s

end Scope

open Attempt

namespace Run

variable {α : Type} {f g : Frame}

theorem within_eq_done {m : Scope → Exec α} {a : α} :
    within m f = (.done a, g) ↔ m f.scope f.world = (.done a, g.world) ∧ g.scope = f.scope := by
  unfold within
  rcases m f.scope f.world with ⟨r, w⟩
  obtain ⟨s, w'⟩ := g
  simp only [Prod.mk.injEq, Frame.mk.injEq]
  constructor
  · rintro ⟨rfl, rfl, rfl⟩
    exact ⟨⟨rfl, rfl⟩, rfl⟩
  · rintro ⟨⟨rfl, rfl⟩, rfl⟩
    exact ⟨rfl, rfl, rfl⟩

theorem declareVariable_eq_done {x : String} {v : Value} {a : Unit} :
    declareVariable x v f = (.done a, g) ↔
      f.scope.declareVariable x f.world.nextCell = .ok g.scope ∧ g.world = f.world.add v := by
  unfold declareVariable
  obtain ⟨s, w⟩ := g
  cases f.scope.declareVariable x f.world.nextCell <;> simp [eq_comm]

theorem declareFunction_eq_done {d : FunctionDecl} {a : Unit} :
    declareFunction d f = (.done a, g) ↔
      f.scope.declareFunction d.name (.user ⟨d, f.scope.child⟩) = .ok g.scope ∧ g.world = f.world := by
  unfold declareFunction
  obtain ⟨s, w⟩ := g
  cases f.scope.declareFunction d.name (.user ⟨d, f.scope.child⟩) <;> simp [eq_comm]

end Run

theorem Exec.declareAll_funs {pairs : List (String × Value)} {s t : Scope} {w w' : World}
    (h : Exec.declareAll pairs s w = (.done t, w')) : t.funs = s.funs := by
  induction pairs generalizing s w with
  | nil =>
    obtain ⟨rfl, -⟩ := (pure_eq_done _ _ _ _).1 h
    rfl
  | cons pair rest ih =>
    obtain ⟨cell, u, -, hrest⟩ := bind_eq_done.1 h
    obtain ⟨s', u', hdeclare, hrest⟩ := bind_eq_done.1 hrest
    obtain ⟨hs, -⟩ := (ofExcept_eq_done _ _ _ _).1 hdeclare
    obtain ⟨-, rfl⟩ := Scope.declareVariable_eq_ok.1 hs
    have hfuns := ih hrest
    exact hfuns

theorem Statement.exec_declares {n : Nat} {c : Context} {st : Statement} {f g : Frame} {signal : Signal}
    (h : Statement.exec n c st f = (.done signal, g)) : f.scope.Declares st g.scope := by
  cases n with
  | zero => cases h
  | succ n =>
    cases st with
    | function f params b =>
      rw [Statement.exec, bind_eq_done] at h
      obtain ⟨_, t, hnote, h⟩ := h
      obtain ⟨_, u, hdecl, h⟩ := bind_eq_done.1 h
      obtain ⟨-, rfl⟩ := (pure_eq_done _ _ _ _).1 h
      rw [Run.note, modify_eq_done] at hnote
      subst hnote
      exact (Run.declareFunction_eq_done.1 hdecl).1
    | block b =>
      rw [Statement.exec, Run.within_eq_done] at h
      exact h.2
    | declare x init =>
      cases init with
      | none =>
        rw [Statement.exec, bind_eq_done] at h
        obtain ⟨_, t, hdecl, h⟩ := h
        obtain ⟨-, rfl⟩ := (pure_eq_done _ _ _ _).1 h
        exact ⟨_, (Run.declareVariable_eq_done.1 hdecl).1⟩
      | some e =>
        rw [Statement.exec, bind_eq_done] at h
        obtain ⟨v, t, he, h⟩ := h
        obtain ⟨_, u, hdecl, h⟩ := bind_eq_done.1 h
        obtain ⟨-, rfl⟩ := (pure_eq_done _ _ _ _).1 h
        have hs := (Run.within_eq_done.1 he).2
        have hd := (Run.declareVariable_eq_done.1 hdecl).1
        rw [hs] at hd
        exact ⟨_, hd⟩
    | evaluate e =>
      rw [Statement.exec, Run.within_eq_done] at h
      exact h.2
    | loop e b =>
      rw [Statement.exec, Run.within_eq_done] at h
      exact h.2
    | ifThen e s =>
      rw [Statement.exec, Run.within_eq_done] at h
      exact h.2
    | ifElse e s t =>
      rw [Statement.exec, Run.within_eq_done] at h
      exact h.2
    | assign x e =>
      rw [Statement.exec, Run.within_eq_done] at h
      exact h.2
    | result e =>
      rw [Statement.exec, Run.within_eq_done] at h
      exact h.2

end IntScript
