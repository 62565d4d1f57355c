import IntScript.Token
import IntScript.Value

set_option autoImplicit false

namespace IntScript

/-- What is wrong with a segment of a source. -/
inductive LexicalFault where
  | unexpected (c : Char)
  | integerTooLarge (digits : List Char)
  deriving DecidableEq, Repr

structure LexicalError where
  fault : LexicalFault
  position : Position
  deriving DecidableEq, Repr

inductive NameRole where
  | function
  | parameter
  | var
  deriving DecidableEq, Repr

/-- What the grammar allowed where it failed. -/
inductive Expectation where
  | token (kind : TokenKind)
  | blockEnd
  | name (role : NameRole)
  | negatedInteger
  | expression
  deriving DecidableEq, Repr

structure SyntaxError where
  position : Position
  expected : Expectation
  found : TokenKind
  deriving DecidableEq, Repr

inductive NameKind where
  | var
  | function
  deriving DecidableEq, Repr

inductive EvalError where
  | nameNotFound (kind : NameKind) (name : String)
  | duplicateDeclaration (kind : NameKind) (name : String)
  | arityMismatch (function : String) (expected found : Nat)
  | arithmeticFailure (op : BinaryOp) (left right : Value)
  | tooManyIterations (limit : Nat)
  | callDepthExceeded (limit : Nat)
  deriving DecidableEq, Repr

inductive Error where
  | lexical (error : LexicalError)
  | syntactic (error : SyntaxError)
  | evaluation (error : EvalError)
  deriving DecidableEq, Repr

def Position.text (p : Position) : String :=
  "line " ++ Decimal.text p.line ++ ", column " ++ Decimal.text p.column

def LexicalFault.text : LexicalFault → String
  | .unexpected c => "Unexpected character '" ++ String.singleton c ++ "'"
  | .integerTooLarge digits => "Invalid integer: " ++ String.ofList digits

def LexicalError.message (e : LexicalError) : String :=
  "Parse error: " ++ e.fault.text ++ " at " ++ e.position.text

def NameRole.text : NameRole → String
  | .function => "function name"
  | .parameter => "parameter name"
  | .var => "variable name"

namespace Expectation

def text : Expectation → String
  | .token kind => kind.describe
  | .blockEnd => TokenKind.rightBrace.describe
  | .name role => "identifier (" ++ role.text ++ ")"
  | .negatedInteger => "integer after `-`"
  | .expression => "expression"

def hint? : Expectation → Option String
  | .token _ => none
  | .blockEnd => some "A block opened with `\x7b` is never closed."
  | .name _ => some "Valid identifiers start with a letter or underscore and are not keywords."
  | .negatedInteger => some "Only literals can be negated: write `0 - x` for a variable."
  | .expression => some "Expected one of: integer, identifier, function call, or `(...)`"

end Expectation

namespace SyntaxError

def hintText (e : SyntaxError) : String :=
  match e.expected.hint? with
  | some hint => "\n\nHelp: " ++ hint
  | none => ""

def message (e : SyntaxError) : String :=
  "Syntax error at " ++ e.position.text ++ ": Expected " ++ e.expected.text ++ ", found " ++
    e.found.describe ++ e.hintText

end SyntaxError

def NameKind.text : NameKind → String
  | .var => "variable"
  | .function => "function"

def EvalError.message : EvalError → String
  | .nameNotFound kind name => kind.text ++ " '" ++ name ++ "' is not found in current scope"
  | .duplicateDeclaration kind name => kind.text ++ " '" ++ name ++ "' already exists in the current scope"
  | .arityMismatch function expected found =>
    "Expected " ++ Decimal.text expected ++ " arguments, found " ++ Decimal.text found ++
      " when calling function " ++ function
  | .arithmeticFailure op left right =>
    "Arithmetic failure: " ++ Value.text left ++ " " ++ op.token ++ " " ++ Value.text right
  | .tooManyIterations limit => "Too many iterations (limit: " ++ Decimal.text limit ++ ")"
  | .callDepthExceeded limit => "Call depth exceeded (limit: " ++ Decimal.text limit ++ ")"

namespace Error

def message : Error → String
  | .lexical e => e.message
  | .syntactic e => e.message
  | .evaluation e => e.message

/-- Errors of the text itself, found before anything runs. -/
def isTextual : Error → Bool
  | .lexical _ | .syntactic _ => true
  | .evaluation _ => false

end Error

end IntScript
