import IntScript.Evaluation
import IntScript.Program.Source

set_option autoImplicit false

/-! # Interpreters

An interpreter keeps a top-level scope, its world and its limits from one program to the next. The top-level
scope is a child of the root scope, which holds the tools, so a program may hide a tool once. What a failed
program had changed stays changed. -/

namespace IntScript

structure Interpreter where
  root : Scope
  globals : Scope
  limits : Limits
  world : World

abbrev Interpret (α : Type) : Type := Attempt EvalError Interpreter α

namespace Interpreter

variable {α : Type}

def ofRegistry (registry : Registry) (limits : Limits) : Interpreter :=
  ⟨registry.rootScope, registry.rootScope.child, limits, .empty⟩

/-- Forgets every top-level declaration and keeps the tools. -/
def reset (i : Interpreter) : Interpreter := ⟨i.root, i.root.child, i.limits, i.world⟩

def withLimits (i : Interpreter) (limits : Limits) : Interpreter := ⟨i.root, i.globals, limits, i.world⟩

def withWorld (i : Interpreter) (world : World) : Interpreter := ⟨i.root, i.globals, i.limits, world⟩

/-- The events so far, and the interpreter without them. -/
def flush (i : Interpreter) : List Event × Interpreter :=
  match i.world.flush with
  | (events, world) => (events, i.withWorld world)

def note (e : Event) : Interpret Unit := .modify fun i => i.withWorld (i.world.note e)

def atTop (m : Context → Run α) : Interpret α := fun i =>
  match m (.top i.limits) ⟨i.globals, i.world⟩ with
  | (r, f) => (r, ⟨i.root, f.scope, i.limits, f.world⟩)

/-- Notes the end of a program, whether or not it failed. -/
def closing (m : Interpret α) : Interpret α := fun i =>
  match m i with
  | (.done a, j) => (.done a, j.withWorld (j.world.note (.finished true)))
  | (.failed e, j) => (.failed e, j.withWorld (j.world.note (.finished false)))
  | (.outOfFuel, j) => (.outOfFuel, j)

/-- Executes a program. Its signal is the value of a top-level return. -/
def execute (fuel : Nat) (program : Block) : Interpret Signal := do
  note (.started program.length)
  closing (atTop fun c => Block.exec fuel c program)

def statement (fuel : Nat) (s : Statement) : Interpret Signal := atTop fun c => Statement.exec fuel c s

def expression (fuel : Nat) (e : Expression) : Interpret Value :=
  atTop fun c => Run.within fun s => Expression.eval fuel c s e

def call (fuel : Nat) (f : String) (args : List Value) : Interpret Value :=
  atTop fun c => Run.within fun s => do
    let callee ← .ofExcept (s.callable f)
    Callable.invoke fuel c callee args

def get (x : String) : Interpret Value :=
  atTop fun _ => Run.within fun s => do
    let cell ← .ofExcept (s.cell x)
    Exec.read cell

def set (x : String) (v : Value) : Interpret Unit :=
  atTop fun _ => Run.within fun s => do
    let cell ← .ofExcept (s.cell x)
    Exec.write cell v

def run (fuel : Nat) (source : String) : Attempt Error Interpreter Signal :=
  match parseProgram source with
  | .error e => .fail e
  | .ok program => (execute fuel program).mapError .evaluation

end Interpreter

end IntScript
