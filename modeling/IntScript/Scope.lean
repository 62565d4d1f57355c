import IntScript.Program
import IntScript.Text.Quoted
import IntScript.Tool

set_option autoImplicit false

namespace IntScript

structure Cell where
  index : Nat
  deriving DecidableEq, Repr

mutual

inductive Callable where
  | native (tool : Tool)
  | user (closure : Closure)

/-- A function with the scope in which it was defined, as it was just before. -/
structure Closure where
  decl : FunctionDecl
  scope : Scope

structure Scope where
  vars : Table Cell
  funs : Table Callable

end

namespace Callable

/-- The function's own name, whatever name it is bound to. -/
def name : Callable → String
  | .native tool => tool.name
  | .user closure => closure.decl.name

def arity : Callable → Option Nat
  | .native tool => tool.arity
  | .user closure => some closure.decl.params.length

def describe : Callable → String
  | .native tool => "Native(" ++ tool.name ++ ")"
  | .user closure =>
    "User(Closure \x7b name: " ++ Text.quote closure.decl.name ++ ", params: [" ++
      ", ".intercalate (closure.decl.params.map Text.quote) ++ "] \x7d)"

def checkArity (f : Callable) (args : List Value) : Except EvalError Unit :=
  match f.arity with
  | none => .ok ()
  | some expected =>
    if expected = args.length then .ok () else .error (.arityMismatch f.name expected args.length)

end Callable

namespace Scope

def empty : Scope := ⟨.empty, .empty⟩

def ofFunctions (funs : Table Callable) : Scope := ⟨.empty, funs⟩

def child (s : Scope) : Scope := ⟨s.vars.child, s.funs.child⟩

def cell (s : Scope) (x : String) : Except EvalError Cell :=
  match s.vars.lookup? x with
  | some cell => .ok cell
  | none => .error (.nameNotFound .var x)

def callable (s : Scope) (f : String) : Except EvalError Callable :=
  match s.funs.lookup? f with
  | some item => .ok item
  | none => .error (.nameNotFound .function f)

def declareVariable (s : Scope) (x : String) (cell : Cell) : Except EvalError Scope :=
  match s.vars.declare? x cell with
  | some vars => .ok ⟨vars, s.funs⟩
  | none => .error (.duplicateDeclaration .var x)

def declareFunction (s : Scope) (f : String) (item : Callable) : Except EvalError Scope :=
  match s.funs.declare? f item with
  | some funs => .ok ⟨s.vars, funs⟩
  | none => .error (.duplicateDeclaration .function f)

def inheritVariable (s : Scope) (x : String) (cell : Cell) : Scope :=
  ⟨s.vars.inherit x cell, s.funs⟩

def inheritFunction (s : Scope) (f : String) (item : Callable) : Scope :=
  ⟨s.vars, s.funs.inherit f item⟩

end Scope

/-- The scope in which a call begins: what the closure captured, and the function itself, visible but not
declared. -/
def Closure.entryScope (closure : Closure) : Scope :=
  closure.scope.child.inheritFunction closure.decl.name (.user closure)

def Registry.rootScope (r : Registry) : Scope := .ofFunctions (r.tools.map .native)

end IntScript
