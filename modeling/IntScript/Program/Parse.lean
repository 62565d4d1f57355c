import IntScript.Attempt
import IntScript.Error
import IntScript.Program

set_option autoImplicit false

/-! # Reading programs from tokens

Recursive descent over the tokens still to be read. The cursor never moves past an end token, and it stays where
it is after an error. Statements need no separators; expressions are read by precedence climbing, and every
operator associates to the left. Each definition takes fuel for its depth; how much is enough is said apart. -/

namespace IntScript

/-- The operator that a token stands for between two operands. It is found by the text of the token, whatever
its kind, except that integers and names are never operators. -/
def Token.operator? (t : Token) : Option BinaryOp :=
  match t.kind with
  | .integer _ | .identifier _ => none
  | _ => BinaryOp.ofToken? t.lexeme

abbrev Parse (α : Type) : Type := Attempt SyntaxError (List Token) α

namespace Parse

variable {α : Type}

def current : List Token → Token
  | [] => Token.endAt .start
  | t :: _ => t

/-- The tokens behind the cursor's token, unless that is an end token. -/
def behind : List Token → List Token
  | [] => []
  | t :: ts => if t.isEnd then t :: ts else ts

def nextIs (kind : TokenKind) : List Token → Bool
  | _ :: t :: _ => t.kind == kind
  | _ => false

def peek : Parse TokenKind := .ask fun ts => (current ts).kind

def check (kind : TokenKind) : Parse Bool := .ask fun ts => (current ts).kind == kind

def checkNext (kind : TokenKind) : Parse Bool := .ask (nextIs kind)

def operator? : Parse (Option BinaryOp) := .ask fun ts => (current ts).operator?

def advance : Parse Unit := .modify behind

def unexpected (expected : Expectation) : Parse α := fun ts =>
  (.failed ⟨(current ts).position, expected, (current ts).kind⟩, ts)

def accept (kind : TokenKind) : Parse Bool := do
  if ← check kind then
    advance
    return true
  else
    return false

def consume (kind : TokenKind) : Parse Unit := do
  if ← check kind then advance else unexpected (.token kind)

def name (role : NameRole) : Parse String := do
  match ← peek with
  | .identifier x =>
    advance
    return x
  | _ => unexpected (.name role)

def commaList : Nat → Parse α → Parse (List α)
  | 0, _ => .outOfFuel
  | n + 1, item => do
    let first ← item
    if ← accept .comma then
      let rest ← commaList n item
      return first :: rest
    else
      return [first]

def tuple (n : Nat) (item : Parse α) : Parse (List α) := do
  consume .leftParen
  if ← check .rightParen then
    consume .rightParen
    return []
  else
    let items ← commaList n item
    consume .rightParen
    return items

/-- A minus sign belongs to the integer behind it. -/
def negated : Parse Expression := do
  advance
  match ← peek with
  | .integer i =>
    advance
    return .literal (Int64.ofInt (-i))
  | _ => unexpected .negatedInteger

/-- An operand that begins with a token of the given kind: an integer, a name, a call, or an expression between
parentheses. -/
def operand (n : Nat) (inner : Parse Expression) : TokenKind → Parse Expression
  | .integer i => do
    advance
    return .literal (Int64.ofInt i)
  | .identifier x => do
    advance
    if ← check .leftParen then
      let args ← tuple n inner
      return .call x args
    else
      return .var x
  | .leftParen => do
    advance
    let e ← inner
    consume .rightParen
    return e
  | .operator op => if op = .sub then negated else unexpected .expression
  | _ => unexpected .expression

mutual

/-- An expression of operators that bind at least as tightly as the given level. -/
def binary : Nat → Nat → Parse Expression
  | 0, _ => .outOfFuel
  | n + 1, level => do
    let left ← primary n
    climb n level left

/-- Operators and right operands behind a left operand. -/
def climb : Nat → Nat → Expression → Parse Expression
  | 0, _, _ => .outOfFuel
  | n + 1, level, left => do
    match ← operator? with
    | none => return left
    | some op =>
      if op.level < level then
        return left
      else
        advance
        let right ← binary n (op.level + 1)
        climb n level (.binary op left right)

def primary : Nat → Parse Expression
  | 0 => .outOfFuel
  | n + 1 => do
    let kind ← peek
    operand n (binary n 0) kind

end

def expression (n : Nat) : Parse Expression := binary n 0

def condition (n : Nat) : Parse Expression := do
  consume .leftParen
  let e ← expression n
  consume .rightParen
  return e

def untilBrace : Nat → Parse Statement → Parse Block
  | 0, _ => .outOfFuel
  | n + 1, item => do
    if ← check .rightBrace then
      return []
    else if ← check .endOfText then
      unexpected .blockEnd
    else
      let first ← item
      let rest ← untilBrace n item
      return first :: rest

def braced (n : Nat) (item : Parse Statement) : Parse Block := do
  consume .leftBrace
  let body ← untilBrace n item
  consume .rightBrace
  return body

def untilEnd : Nat → Parse Statement → Parse Block
  | 0, _ => .outOfFuel
  | n + 1, item => do
    if ← check .endOfText then
      return []
    else
      let first ← item
      let rest ← untilEnd n item
      return first :: rest

def functionDefinition (n : Nat) (item : Parse Statement) : Parse Statement := do
  advance
  let f ← name .function
  let params ← tuple n (name .parameter)
  let body ← braced n item
  return .function f params body

def declaration (n : Nat) : Parse Statement := do
  advance
  let x ← name .var
  if ← accept .assign then
    let e ← expression n
    return .declare x (some e)
  else
    return .declare x none

def loop (n : Nat) (item : Parse Statement) : Parse Statement := do
  advance
  let c ← condition n
  let body ← item
  return .loop c body

/-- An alternative belongs to the nearest conditional. -/
def conditional (n : Nat) (item : Parse Statement) : Parse Statement := do
  advance
  let c ← condition n
  let thenBranch ← item
  if ← accept (.keyword .alternative) then
    let elseBranch ← item
    return .ifElse c thenBranch elseBranch
  else
    return .ifThen c thenBranch

def result (n : Nat) : Parse Statement := do
  advance
  let e ← expression n
  return .result e

def assignment (n : Nat) : Parse Statement := do
  let x ← name .var
  consume .assign
  let e ← expression n
  return .assign x e

def evaluation (n : Nat) : Parse Statement := do
  let e ← expression n
  return .evaluate e

def keywordStatement (n : Nat) (item : Parse Statement) : Keyword → Parse Statement
  | .function => functionDefinition n item
  | .var => declaration n
  | .loop => loop n item
  | .conditional => conditional n item
  | .result => result n
  | .alternative => evaluation n

def statementFrom (n : Nat) (item : Parse Statement) : TokenKind → Parse Statement
  | .keyword k => keywordStatement n item k
  | .leftBrace => do
    let body ← braced n item
    return .block body
  | .identifier _ => do
    if ← checkNext .assign then assignment n else evaluation n
  | _ => evaluation n

def statement : Nat → Parse Statement
  | 0 => .outOfFuel
  | n + 1 => do
    let kind ← peek
    statementFrom n (statement n) kind

def program (n : Nat) : Parse Block := untilEnd n (statement n)

end Parse

end IntScript
