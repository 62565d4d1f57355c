import IntScript.Error
import IntScript.Event
import IntScript.Table

set_option autoImplicit false

/-! # Tools

Tools are the built-in functions. Two things are assumed of them. A tool has no memory: what a call puts out, and
the value it gives or the error it fails with, depend on its arguments and on nothing that was done before. And it
fails only with errors that evaluation has as well. A tool that counts its calls, reads a clock or has errors of its
own is none in this sense. Results that compare two runs rest on this, and say so; most of all those on a reset,
which would not make a tool forget. A tool without a value delivers zero to the program. -/

namespace IntScript

structure Tool where
  name : String
  description : String
  /-- Required number of arguments; without one, any number will do. -/
  arity : Option Nat
  /-- By its type a function of the arguments: this is where tools have no memory. -/
  act : List Value → List Output × Except EvalError (Option Value)

namespace Tool

def println : Tool where
  name := "println"
  description := "Print all arguments on one line"
  arity := none
  act args := ([.line args], .ok none)

inductive Action where
  | sum
  | count
  | first
  | constant (value : Value)
  | failure (value : Value)
  | nothing
  deriving DecidableEq, Repr

/-- Sums wrap; a failure is that of subtracting the number of arguments. -/
def Action.run (args : List Value) : Action → Except EvalError (Option Value)
  | .sum => .ok (some (args.foldl (· + ·) 0))
  | .count => .ok (some (Int64.ofNat args.length))
  | .first => .ok args.head?
  | .constant v => .ok (some v)
  | .failure v => .error (.arithmeticFailure .sub v (Int64.ofNat args.length))
  | .nothing => .ok none

def recorded (name description : String) (arity : Option Nat) (action : Action) : Tool where
  name := name
  description := description
  arity := arity
  act args := ([.record name args], action.run args)

end Tool

structure Registry where
  tools : Table Tool

namespace Registry

def empty : Registry := ⟨.empty⟩

/-- A tool takes the place of one with the same name. -/
def register (r : Registry) (tool : Tool) : Registry := ⟨r.tools.bind tool.name tool⟩

def standard : Registry := empty.register .println

def has (r : Registry) (name : String) : Bool := r.tools.contains name

def get (r : Registry) (name : String) : Except EvalError Tool :=
  match r.tools.lookup? name with
  | some tool => .ok tool
  | none => .error (.nameNotFound .function name)

def names (r : Registry) : List String := r.tools.names

def size (r : Registry) : Nat := r.tools.size

end Registry

end IntScript
