import IntScript.Attempt
import IntScript.Scope

set_option autoImplicit false

/-! # The world of a run

A world is a store of cells and the events so far. Cells are only ever added, and each has a value. A frame is a
world seen through the scope that is being run in: declarations change the scope, all else changes only the
world. -/

namespace IntScript

structure World where
  store : Array Value
  events : Array Event
  deriving Repr

namespace World

def empty : World := ⟨#[], #[]⟩

def read (w : World) (cell : Cell) : Value := w.store[cell.index]?.getD 0

def write (w : World) (cell : Cell) (v : Value) : World :=
  ⟨w.store.setIfInBounds cell.index v, w.events⟩

def nextCell (w : World) : Cell := ⟨w.store.size⟩

def add (w : World) (v : Value) : World := ⟨w.store.push v, w.events⟩

def note (w : World) (e : Event) : World := ⟨w.store, w.events.push e⟩

def noteAll (w : World) (es : List Event) : World := es.foldl note w

def flush (w : World) : List Event × World := (w.events.toList, ⟨w.store, #[]⟩)

end World

abbrev Exec (α : Type) : Type := Attempt EvalError World α

namespace Exec

def read (cell : Cell) : Exec Value := .ask (·.read cell)

def write (cell : Cell) (v : Value) : Exec Unit := .modify (·.write cell v)

def note (e : Event) : Exec Unit := .modify (·.note e)

def alloc (v : Value) : Exec Cell := fun w => (.done w.nextCell, w.add v)

/-- Calls a tool: its output comes first, then its value or its error. -/
def useTool (tool : Tool) (args : List Value) : Exec (Option Value) := fun w =>
  match tool.act args with
  | (outputs, result) => (.ofExcept result, w.noteAll (outputs.map .output))

def declareAll : List (String × Value) → Scope → Exec Scope
  | [], s => pure s
  | (x, v) :: rest, s => do
    let cell ← alloc v
    let t ← .ofExcept (s.declareVariable x cell)
    declareAll rest t

end Exec

structure Frame where
  scope : Scope
  world : World

abbrev Run (α : Type) : Type := Attempt EvalError Frame α

namespace Run

variable {α : Type}

/-- A computation that may only look at the scope. -/
def within (m : Scope → Exec α) : Run α := fun f =>
  match m f.scope f.world with
  | (r, w) => (r, ⟨f.scope, w⟩)

/-- Runs in a scope of its own, which is forgotten afterwards. -/
def inScope (m : Run α) (s : Scope) : Exec α := fun w =>
  match m ⟨s, w⟩ with
  | (r, f) => (r, f.world)

def note (e : Event) : Run Unit := .modify fun f => ⟨f.scope, f.world.note e⟩

def declareVariable (x : String) (v : Value) : Run Unit := fun f =>
  match f.scope.declareVariable x f.world.nextCell with
  | .ok s => (.done (), ⟨s, f.world.add v⟩)
  | .error e => (.failed e, f)

/-- Declares a function that has captured the scope as it is. -/
def declareFunction (decl : FunctionDecl) : Run Unit := fun f =>
  match f.scope.declareFunction decl.name (.user ⟨decl, f.scope.child⟩) with
  | .ok s => (.done (), ⟨s, f.world⟩)
  | .error e => (.failed e, f)

end Run

end IntScript
