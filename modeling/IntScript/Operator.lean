set_option autoImplicit false

namespace IntScript

inductive Precedence where
  | or
  | and
  | equality
  | comparison
  | term
  | factor
  deriving DecidableEq, Repr

def Precedence.level : Precedence → Nat
  | .or => 0
  | .and => 1
  | .equality => 2
  | .comparison => 3
  | .term => 4
  | .factor => 5

inductive BinaryOp where
  | or
  | and
  | eq
  | notEq
  | lt
  | ltEq
  | gt
  | gtEq
  | mul
  | div
  | mod
  | add
  | sub
  deriving DecidableEq, Repr

namespace BinaryOp

def all : List BinaryOp :=
  [.or, .and, .eq, .notEq, .lt, .ltEq, .gt, .gtEq, .mul, .div, .mod, .add, .sub]

def token : BinaryOp → String
  | .or => "||"
  | .and => "&&"
  | .eq => "=="
  | .notEq => "!="
  | .lt => "<"
  | .ltEq => "<="
  | .gt => ">"
  | .gtEq => ">="
  | .mul => "*"
  | .div => "/"
  | .mod => "%"
  | .add => "+"
  | .sub => "-"

def ofToken? (s : String) : Option BinaryOp := all.find? (·.token == s)

def precedence : BinaryOp → Precedence
  | .or => .or
  | .and => .and
  | .eq | .notEq => .equality
  | .lt | .ltEq | .gt | .gtEq => .comparison
  | .add | .sub => .term
  | .mul | .div | .mod => .factor

def level (op : BinaryOp) : Nat := op.precedence.level

/-- Operators whose right operand may be left unevaluated. -/
def isShortCircuit : BinaryOp → Bool
  | .or | .and => true
  | _ => false

def tighter (op : BinaryOp) : List BinaryOp := all.filter (op.level < ·.level)

theorem mem_all (op : BinaryOp) : op ∈ all := by
  cases op <;> decide

theorem ofToken?_token (op : BinaryOp) : ofToken? op.token = some op := by
  cases op <;> decide

theorem token_of_ofToken? {s : String} {op : BinaryOp} (h : ofToken? s = some op) : op.token = s := by
  simpa using List.find?_some h

end BinaryOp

end IntScript
