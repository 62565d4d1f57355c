import IntScript.Value

set_option autoImplicit false

namespace IntScript

/-- Output of a tool: a printed line, or a record of the call. -/
inductive Output where
  | line (args : List Value)
  | record (tool : String) (args : List Value)
  deriving DecidableEq, Repr

inductive Event where
  | output (item : Output)
  | started (statements : Nat)
  | finished (ok : Bool)
  | defining (function : String) (params : Nat)
  | calling (function : String) (depth : Nat)
  deriving DecidableEq, Repr

namespace Event

def output? : Event → Option Output
  | .output item => some item
  | _ => none

def lineText? : Event → Option String
  | .output (.line args) => some (Value.lineText args ++ "\n")
  | _ => none

def printed (events : List Event) : String := String.join (events.filterMap lineText?)

end Event

end IntScript
