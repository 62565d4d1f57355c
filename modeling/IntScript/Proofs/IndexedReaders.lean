import IntScript.Program.Parse

set_option autoImplicit false

namespace IntScript

namespace Indexed

/-- The tokens, the index of the next one to be read, and the earlier values of that index, latest first. -/
structure Cursor where
  tokens : List Token
  index : Nat
  past : List Nat

namespace Cursor

def start (ts : List Token) : Cursor := ⟨ts, 0, []⟩

def next (c : Cursor) : Cursor := ⟨c.tokens, c.index + 1, c.index :: c.past⟩

def rest (c : Cursor) : List Token := c.tokens.drop c.index

end Cursor

inductive Fault where
  | refused (error : SyntaxError)
  | outOfRange
  | overflow
  deriving DecidableEq, Repr

abbrev Read (α : Type) : Type := Attempt Fault Cursor α

variable {α : Type}

def tokenAt (i : Nat) : Read Token := fun c =>
  match c.tokens[i]? with
  | some t => (.done t, c)
  | none => (.failed .outOfRange, c)

def less : Nat → Read Nat
  | 0 => .fail .outOfRange
  | i + 1 => pure i

/-- The token at the index, or the last one if the index lies behind it. -/
def peek : Read Token := do
  let size ← .ask fun c => c.tokens.length
  let last ← less size
  let i ← .ask Cursor.index
  tokenAt (min i last)

def peekKind : Read TokenKind := do
  let t ← peek
  return t.kind

def atEnd : Read Bool := do
  let t ← peek
  return t.isEnd

def lookBack : Read Unit := do
  let i ← .ask Cursor.index
  let previous ← less i
  let _ ← tokenAt previous
  return ()

/-- Moves on unless there is an end token, and looks back at the token before the index either way. -/
def advance : Read Unit := do
  if ← atEnd then
    lookBack
  else
    .modify Cursor.next
    lookBack

def check (kind : TokenKind) : Read Bool := do
  if ← atEnd then
    return false
  else
    let t ← peek
    return t.kind == kind

def checkNext (kind : TokenKind) : Read Bool := .ask fun c =>
  match c.tokens[c.index + 1]? with
  | some t => t.kind == kind
  | none => false

def operator? : Read (Option BinaryOp) := do
  let t ← peek
  return t.operator?

def unexpected (expected : Expectation) : Read α := do
  let t ← peek
  .fail (.refused ⟨t.position, expected, t.kind⟩)

def accept (kind : TokenKind) : Read Bool := do
  if ← check kind then
    advance
    return true
  else
    return false

def consume (kind : TokenKind) : Read Unit := do
  if ← check kind then advance else unexpected (.token kind)

def name (role : NameRole) : Read String := do
  match ← peekKind with
  | .identifier x =>
    advance
    return x
  | _ => unexpected (.name role)

def commaList : Nat → Read α → Read (List α)
  | 0, _ => .outOfFuel
  | n + 1, item => do
    let first ← item
    if ← accept .comma then
      let rest ← commaList n item
      return first :: rest
    else
      return [first]

def tuple (n : Nat) (item : Read α) : Read (List α) := do
  consume .leftParen
  if ← check .rightParen then
    consume .rightParen
    return []
  else
    let items ← commaList n item
    consume .rightParen
    return items

def opposite (i : Int) : Read Value :=
  match Value.ofInt? (-i) with
  | some v => pure v
  | none => .fail .overflow

def negated : Read Expression := do
  advance
  match ← peekKind with
  | .integer i =>
    advance
    let v ← opposite i
    return .literal v
  | _ => unexpected .negatedInteger

def operand (n : Nat) (inner : Read Expression) : TokenKind → Read Expression
  | .integer i => do
    advance
    return .literal (Int64.ofInt i)
  | .identifier x => do
    advance
    if ← check .leftParen then
      let args ← tuple n inner
      return .call x args
    else
      return .var x
  | .leftParen => do
    advance
    let e ← inner
    consume .rightParen
    return e
  | .operator op => if op = .sub then negated else unexpected .expression
  | _ => unexpected .expression

mutual

def binary : Nat → Nat → Read Expression
  | 0, _ => .outOfFuel
  | n + 1, level => do
    let left ← primary n
    climb n level left

/-- An operator is known by its text, so it may be an end token, which `advance` does not pass. -/
def climb : Nat → Nat → Expression → Read Expression
  | 0, _, _ => .outOfFuel
  | n + 1, level, left => do
    match ← operator? with
    | none => return left
    | some op =>
      if op.level < level then
        return left
      else
        advance
        let right ← binary n (op.level + 1)
        climb n level (.binary op left right)

def primary : Nat → Read Expression
  | 0 => .outOfFuel
  | n + 1 => do
    let kind ← peekKind
    operand n (binary n 0) kind

end

def expression (n : Nat) : Read Expression := binary n 0

def condition (n : Nat) : Read Expression := do
  consume .leftParen
  let e ← expression n
  consume .rightParen
  return e

def untilBrace : Nat → Read Statement → Read Block
  | 0, _ => .outOfFuel
  | n + 1, item => do
    if ← check .rightBrace then
      return []
    else if ← atEnd then
      unexpected .blockEnd
    else
      let first ← item
      let rest ← untilBrace n item
      return first :: rest

def braced (n : Nat) (item : Read Statement) : Read Block := do
  consume .leftBrace
  let body ← untilBrace n item
  consume .rightBrace
  return body

def untilEnd : Nat → Read Statement → Read Block
  | 0, _ => .outOfFuel
  | n + 1, item => do
    if ← atEnd then
      return []
    else
      let first ← item
      let rest ← untilEnd n item
      return first :: rest

def functionDefinition (n : Nat) (item : Read Statement) : Read Statement := do
  advance
  let f ← name .function
  let params ← tuple n (name .parameter)
  let body ← braced n item
  return .function f params body

def declaration (n : Nat) : Read Statement := do
  advance
  let x ← name .var
  if ← accept .assign then
    let e ← expression n
    return .declare x (some e)
  else
    return .declare x none

def loop (n : Nat) (item : Read Statement) : Read Statement := do
  advance
  let c ← condition n
  let body ← item
  return .loop c body

def conditional (n : Nat) (item : Read Statement) : Read Statement := do
  advance
  let c ← condition n
  let thenBranch ← item
  if ← accept (.keyword .alternative) then
    let elseBranch ← item
    return .ifElse c thenBranch elseBranch
  else
    return .ifThen c thenBranch

def result (n : Nat) : Read Statement := do
  advance
  let e ← expression n
  return .result e

def assignment (n : Nat) : Read Statement := do
  let x ← name .var
  consume .assign
  let e ← expression n
  return .assign x e

def evaluation (n : Nat) : Read Statement := do
  let e ← expression n
  return .evaluate e

def keywordStatement (n : Nat) (item : Read Statement) : Keyword → Read Statement
  | .function => functionDefinition n item
  | .var => declaration n
  | .loop => loop n item
  | .conditional => conditional n item
  | .result => result n
  | .alternative => evaluation n

def statementFrom (n : Nat) (item : Read Statement) : TokenKind → Read Statement
  | .keyword k => keywordStatement n item k
  | .leftBrace => do
    let body ← braced n item
    return .block body
  | .identifier _ => do
    if ← checkNext .assign then assignment n else evaluation n
  | _ => evaluation n

def statement : Nat → Read Statement
  | 0 => .outOfFuel
  | n + 1 => do
    let kind ← peekKind
    statementFrom n (statement n) kind

def program (n : Nat) : Read Block := untilEnd n (statement n)

/-- A number of requests for a program, with the cursor that each leaves to the next. -/
def requests (fuel : Nat) : Nat → Cursor → List (Outcome Fault Block × Cursor)
  | 0, _ => []
  | k + 1, c => program fuel c :: requests fuel k (program fuel c).2

end Indexed

end IntScript
