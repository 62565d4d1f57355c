import IntScript.Error
import IntScript.Text.Blank

set_option autoImplicit false

/-! # Limits of a run

Bounds on the iterations of one loop and on the depth of calls. A limit that is absent bounds nothing. Iterations
and calls are counted by natural numbers, here and in evaluation, and never overflow: a counter of 64 bits would only
differ after `2 ^ 64` iterations or calls, which are out of reach of every run. -/

namespace IntScript

structure Limits where
  iterations : Option Nat
  callDepth : Option Nat
  deriving DecidableEq, Repr

namespace Limits

def unlimited : Limits := ⟨none, none⟩

def isUnlimited (l : Limits) : Bool := l.iterations.isNone && l.callDepth.isNone

/-- A limit as text, with blanks around it; any other text sets no limit. -/
def ofText (text : String) : Option Nat := Decimal.word? (Text.trim text.toList)

def ofEnvironment (env : String → Option String) : Limits where
  iterations := (env "FUNLANG_MAX_ITERATIONS").bind ofText
  callDepth := (env "FUNLANG_MAX_CALL_DEPTH").bind ofText

def checkIterations (l : Limits) (count : Nat) : Except EvalError Unit :=
  match l.iterations with
  | none => .ok ()
  | some limit => if limit < count then .error (.tooManyIterations limit) else .ok ()

def checkDepth (l : Limits) (depth : Nat) : Except EvalError Unit :=
  match l.callDepth with
  | none => .ok ()
  | some limit => if limit < depth then .error (.callDepthExceeded limit) else .ok ()

end Limits

end IntScript
