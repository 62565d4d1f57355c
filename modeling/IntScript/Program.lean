import IntScript.Operator
import IntScript.Value

set_option autoImplicit false

namespace IntScript

inductive Expression where
  | call (name : String) (args : List Expression)
  | literal (value : Value)
  | var (name : String)
  | binary (op : BinaryOp) (left right : Expression)
  deriving Repr

/-- A conditional without an alternative is a form of its own, apart from one with an empty alternative. -/
inductive Statement where
  | function (name : String) (params : List String) (body : List Statement)
  | block (body : List Statement)
  | declare (name : String) (init : Option Expression)
  | evaluate (value : Expression)
  | loop (condition : Expression) (body : Statement)
  | ifThen (condition : Expression) (thenBranch : Statement)
  | ifElse (condition : Expression) (thenBranch elseBranch : Statement)
  | assign (name : String) (value : Expression)
  | result (value : Expression)
  deriving Repr

abbrev Block := List Statement

structure FunctionDecl where
  name : String
  params : List String
  body : Block
  deriving Repr

def FunctionDecl.statement (d : FunctionDecl) : Statement := .function d.name d.params d.body

end IntScript
