import IntScript.Operator
import IntScript.Text.Decimal

set_option autoImplicit false

namespace IntScript

/-- Lines and columns count from one; columns count code points. -/
structure Position where
  line : Nat
  column : Nat
  deriving DecidableEq, Repr

namespace Position

def start : Position := ⟨1, 1⟩

def next (p : Position) (c : Char) : Position :=
  if c = '\n' then ⟨p.line + 1, 1⟩ else ⟨p.line, p.column + 1⟩

def after (p : Position) (text : List Char) : Position := text.foldl next p

theorem after_append (p : Position) (s t : List Char) : p.after (s ++ t) = (p.after s).after t :=
  List.foldl_append

end Position

inductive Keyword where
  | function
  | var
  | loop
  | conditional
  | alternative
  | result
  deriving DecidableEq, Repr

namespace Keyword

def all : List Keyword := [.function, .var, .loop, .conditional, .alternative, .result]

def word : Keyword → String
  | .function => "fun"
  | .var => "var"
  | .loop => "while"
  | .conditional => "if"
  | .alternative => "else"
  | .result => "return"

def ofWord? (s : String) : Option Keyword := all.find? (·.word == s)

theorem ofWord?_word (k : Keyword) : ofWord? k.word = some k := by
  cases k <;> decide

theorem word_of_ofWord? {s : String} {k : Keyword} (h : ofWord? s = some k) : k.word = s := by
  simpa using List.find?_some h

end Keyword

inductive TokenKind where
  | keyword (word : Keyword)
  | operator (op : BinaryOp)
  | assign
  | leftParen
  | rightParen
  | leftBrace
  | rightBrace
  | comma
  | integer (value : Int)
  | identifier (name : String)
  | endOfText
  deriving DecidableEq, Repr

namespace TokenKind

def keywordName : Keyword → String
  | .function => "Fun"
  | .var => "Var"
  | .loop => "While"
  | .conditional => "If"
  | .alternative => "Else"
  | .result => "Return"

def operatorName : BinaryOp → String
  | .or => "Or"
  | .and => "And"
  | .eq => "Eq"
  | .notEq => "NotEq"
  | .lt => "Lt"
  | .ltEq => "LtEq"
  | .gt => "Gt"
  | .gtEq => "GtEq"
  | .mul => "Star"
  | .div => "Slash"
  | .mod => "Percent"
  | .add => "Plus"
  | .sub => "Minus"

/-- The text that stands for a kind: a number, a name, or the name of the kind itself. -/
def text : TokenKind → String
  | .keyword k => keywordName k
  | .operator op => operatorName op
  | .assign => "Assign"
  | .leftParen => "LeftParen"
  | .rightParen => "RightParen"
  | .leftBrace => "LeftBrace"
  | .rightBrace => "RightBrace"
  | .comma => "Comma"
  | .integer i => String.ofList (Decimal.signed i)
  | .identifier name => name
  | .endOfText => "Eof"

def plain : List TokenKind :=
  Keyword.all.map keyword ++ BinaryOp.all.map operator ++
    [.assign, .leftParen, .rightParen, .leftBrace, .rightBrace, .comma, .endOfText]

def isKeyword : TokenKind → Bool
  | .keyword _ => true
  | _ => false

def describe : TokenKind → String
  | .leftParen => "`(`"
  | .rightParen => "`)`"
  | .leftBrace => "`\x7b`"
  | .rightBrace => "`\x7d`"
  | .comma => "`,`"
  | .assign => "`=`"
  | .integer _ => "integer"
  | .identifier name => "identifier `" ++ name ++ "`"
  | .endOfText => "end of file"
  | .keyword k => "keyword `" ++ k.word ++ "`"
  | .operator op => operatorName op

def ofWord (word : String) : TokenKind :=
  match Keyword.ofWord? word with
  | some k => .keyword k
  | none => .identifier word

end TokenKind

structure Token where
  kind : TokenKind
  lexeme : String
  position : Position
  deriving DecidableEq, Repr

namespace Token

def endAt (p : Position) : Token := ⟨.endOfText, "", p⟩

def isEnd (t : Token) : Bool := t.kind == .endOfText

end Token

end IntScript
