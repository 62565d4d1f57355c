import IntScript.Proofs.Motion
import IntScript.Proofs.ScopeLaws

set_option autoImplicit false

namespace IntScript

namespace Table

variable {α β : Type}

theorem declare?_map (t : Table α) (f : α → β) (x : String) (item : α) :
    (t.map f).declare? x (f item) = (t.declare? x item).map (map f) := by
  have hdeclared : (t.map f).isDeclaredHere x = t.isDeclaredHere x := rfl
  unfold declare?
  rw [hdeclared]
  cases t.isDeclaredHere x <;> rfl

theorem entries_map_eq {γ : Type} (t : Table α) {f : α → β} {g : β → γ} {h : α → γ} (hview : ∀ a, g (f a) = h a) :
    (t.map f).entries.map (fun p => (p.1, g p.2)) = t.entries.map (fun p => (p.1, h p.2)) := by
  have hnames : (t.map f).names = t.names := by
    apply congrArg Text.sortedNames
    exact List.map_map
  unfold entries
  rw [List.map_filterMap, List.map_filterMap, hnames]
  congr 1
  funext x
  rw [lookup?_map]
  cases t.lookup? x with
  | none => rfl
  | some a => exact congrArg (fun c => some (x, c)) (hview a)

end Table

/-- The cell that takes the place of this one behind a past. -/
def Cell.behind (past : World) (cell : Cell) : Cell := ⟨past.store.size + cell.index⟩

/-- The past first. -/
def World.behind (w past : World) : World := ⟨past.store ++ w.store, past.events ++ w.events⟩

mutual

def Callable.behind (past : World) : Callable → Callable
  | .native tool => .native tool
  | .user closure => .user (closure.behind past)

def Closure.behind (past : World) : Closure → Closure
  | ⟨decl, scope⟩ => ⟨decl, scope.behind past⟩

def Scope.behind (past : World) : Scope → Scope
  | ⟨vars, funs⟩ => ⟨vars.map (·.behind past), funs.behind past⟩

def Table.behind (past : World) : Table Callable → Table Callable
  | ⟨bindings, declared⟩ => ⟨Table.bindingsBehind past bindings, declared⟩

def Table.bindingsBehind (past : World) : List (String × Callable) → List (String × Callable)
  | [] => []
  | p :: rest => Table.bindingBehind past p :: Table.bindingsBehind past rest

def Table.bindingBehind (past : World) : String × Callable → String × Callable
  | (f, g) => (f, g.behind past)

end

def Frame.behind (past : World) (f : Frame) : Frame := ⟨f.scope.behind past, f.world.behind past⟩

namespace World

variable (w past : World)

theorem read_behind (cell : Cell) : (w.behind past).read (cell.behind past) = w.read cell := by
  unfold read behind Cell.behind
  dsimp only
  rw [Array.getElem?_append_right (Nat.le_add_right _ _), Nat.add_sub_cancel_left]

theorem write_behind (cell : Cell) (v : Value) :
    (w.behind past).write (cell.behind past) v = (w.write cell v).behind past := by
  unfold write behind Cell.behind
  dsimp only
  rw [Array.setIfInBounds_append_right (Nat.le_add_right _ _), Nat.add_sub_cancel_left]

theorem nextCell_behind : (w.behind past).nextCell = w.nextCell.behind past :=
  congrArg Cell.mk Array.size_append

theorem add_behind (v : Value) : (w.behind past).add v = (w.add v).behind past := by
  unfold add behind
  dsimp only
  rw [Array.append_push]

theorem noteAll_behind (es : List Event) : (w.behind past).noteAll es = (w.noteAll es).behind past := by
  rw [noteAll_eq, noteAll_eq]
  unfold behind
  dsimp only
  rw [Array.append_assoc]

theorem note_behind (e : Event) : (w.behind past).note e = (w.note e).behind past := noteAll_behind w past [e]

theorem empty_behind : empty.behind past = past := by
  unfold behind empty
  rw [Array.append_empty, Array.append_empty]

end World

theorem Table.behind_eq_map (past : World) (t : Table Callable) : t.behind past = t.map (·.behind past) := by
  have hbindings : ∀ bindings, bindingsBehind past bindings = bindings.map fun p => (p.1, p.2.behind past) := by
    intro bindings
    induction bindings with
    | nil => rfl
    | cons p rest ih =>
      obtain ⟨f, g⟩ := p
      exact congrArg ((f, g.behind past) :: ·) ih
  obtain ⟨bindings, declared⟩ := t
  exact congrArg (Table.mk · declared) (hbindings bindings)

namespace Callable

variable (past : World) (g : Callable)

theorem arity_behind : (g.behind past).arity = g.arity := by
  rcases g with tool | ⟨decl, scope⟩ <;> rfl

end Callable

namespace Scope

variable (past : World) (s : Scope)

theorem behind_eq : s.behind past = ⟨s.vars.map (·.behind past), s.funs.map (·.behind past)⟩ := by
  obtain ⟨vars, funs⟩ := s
  exact congrArg (Scope.mk _) (Table.behind_eq_map past funs)

theorem vars_behind : (s.behind past).vars = s.vars.map (·.behind past) := by
  rw [behind_eq]

theorem funs_behind : (s.behind past).funs = s.funs.map (·.behind past) := by
  rw [behind_eq]

theorem child_behind : (s.behind past).child = s.child.behind past := by
  rw [behind_eq, behind_eq]
  rfl

theorem cell_behind (x : String) : (s.behind past).cell x = (s.cell x).map (·.behind past) := by
  unfold cell
  rw [vars_behind, Table.lookup?_map]
  cases s.vars.lookup? x <;> rfl

theorem callable_behind (f : String) : (s.behind past).callable f = (s.callable f).map (·.behind past) := by
  unfold callable
  rw [funs_behind, Table.lookup?_map]
  cases s.funs.lookup? f <;> rfl

theorem declareVariable_behind (x : String) (cell : Cell) :
    (s.behind past).declareVariable x (cell.behind past) = (s.declareVariable x cell).map (·.behind past) := by
  unfold declareVariable
  rw [behind_eq, Table.declare?_map]
  cases s.vars.declare? x cell with
  | none => rfl
  | some vars => exact congrArg Except.ok (behind_eq past ⟨vars, s.funs⟩).symm

theorem declareFunction_behind (f : String) (g : Callable) :
    (s.behind past).declareFunction f (g.behind past) = (s.declareFunction f g).map (·.behind past) := by
  unfold declareFunction
  rw [behind_eq, Table.declare?_map]
  cases s.funs.declare? f g with
  | none => rfl
  | some funs => exact congrArg Except.ok (behind_eq past ⟨s.vars, funs⟩).symm

theorem inheritFunction_behind (f : String) (g : Callable) :
    (s.behind past).inheritFunction f (g.behind past) = (s.inheritFunction f g).behind past := by
  rw [behind_eq, behind_eq]
  rfl

end Scope

theorem Closure.entryScope_behind (past : World) (closure : Closure) :
    (closure.behind past).entryScope = closure.entryScope.behind past := by
  obtain ⟨decl, scope⟩ := closure
  calc Closure.entryScope ⟨decl, scope.behind past⟩
      = (scope.child.behind past).inheritFunction decl.name (Callable.behind past (.user ⟨decl, scope⟩)) := by
        rw [← Scope.child_behind]
        rfl
    _ = (scope.child.inheritFunction decl.name (.user ⟨decl, scope⟩)).behind past :=
        Scope.inheritFunction_behind _ _ _ _

theorem Callable.moved_behind (past : World) (g : Callable) : g.moved .identity (Scope.behind past) = g.behind past := by
  cases g with
  | native tool => rfl
  | user closure =>
    obtain ⟨decl, scope⟩ := closure
    exact congrArg (fun d => Callable.user ⟨d, scope.behind past⟩) decl.rename_identity

/-- Cells move up, and names stay. -/
def Motion.behind (past : World) : Motion where
  names := .identity
  error := Eq
  cell := Cell.behind past
  scope := Scope.behind past
  world w := w.behind past
  error_refl := Eq.refl
  error_rename e := e.rename_identity.symm
  lookupCell s x := .of_map (fun _ => rfl) (s.cell_behind past x)
  lookupCallable s f := by
    simp only [Callable.moved_behind]
    exact .of_map (fun _ => rfl) (s.callable_behind past f)
  child s := (s.child_behind past).symm
  declareVariable s x cell := .of_map (fun _ => rfl) (s.declareVariable_behind past x cell)
  declareFunction s d := by
    have hclosure : Callable.user ⟨d, (s.behind past).child⟩ = Callable.behind past (.user ⟨d, s.child⟩) := by
      rw [Scope.child_behind]
      rfl
    rw [FunctionDecl.rename_identity, hclosure]
    exact .of_map (fun _ => rfl) (s.declareFunction_behind past d.name _)
  entryScope closure := by
    obtain ⟨decl, scope⟩ := closure
    rw [FunctionDecl.rename_identity]
    exact (Closure.entryScope_behind past ⟨decl, scope⟩).symm
  read w cell := w.read_behind past cell
  write w cell v := w.write_behind past cell v
  nextCell w := w.nextCell_behind past
  add w v := w.add_behind past v
  noteAll w es := by
    have hsame : es.map (Event.rename .identity) = es := List.map_id'' Event.rename_identity es
    rw [hsame, w.noteAll_behind past]

open Attempt

/-- Behind the past and in the scope that is moved up, a run does what it does alone. -/
abbrev Run.Displaced {α : Type} (past : World) (m : Run α) : Prop := Carries Eq (Frame.behind past) m m

theorem Block.displaced (past : World) (n : Nat) (c : Context) (b : Block) : Run.Displaced past (Block.exec n c b) := by
  have h : Carries Eq (Frame.behind past) (Block.exec n c b) (Block.exec n c (Block.rename .identity b)) :=
    (Motion.behind past).carries_block n c b
  rwa [Block.rename_identity] at h

end IntScript
