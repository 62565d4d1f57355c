import IntScript.Program
import IntScript.Token

set_option autoImplicit false

namespace IntScript

abbrev Kinds := List TokenKind

namespace Grammar

variable {α : Type}

/-- One item or more, with commas between them. -/
inductive Items (item : Kinds → α → Prop) : Kinds → List α → Prop where
  | last {ks : Kinds} {a : α} : item ks a → Items item ks [a]
  | more {ks rest : Kinds} {a : α} {as : List α} :
      item ks a → Items item rest as → Items item (ks ++ .comma :: rest) (a :: as)

inductive Tuple (item : Kinds → α → Prop) : Kinds → List α → Prop where
  | empty : Tuple item [.leftParen, .rightParen] []
  | items {ks : Kinds} {as : List α} : Items item ks as → Tuple item (.leftParen :: ks ++ [.rightParen]) as

inductive Many (item : Kinds → α → Prop) : Kinds → List α → Prop where
  | nil : Many item [] []
  | cons {ks rest : Kinds} {a : α} {as : List α} :
      item ks a → Many item rest as → Many item (ks ++ rest) (a :: as)

inductive Name : Kinds → String → Prop where
  | intro (x : String) : Name [.identifier x] x

/-- One layer for each precedence, the operands above them all. The left operand of an operator is of its own
layer and the right operand of the next, so operators associate to the left. -/
inductive Layer (operand : Kinds → Expression → Prop) : Nat → Kinds → Expression → Prop where
  | operand {ks : Kinds} {e : Expression} : operand ks e → Layer operand 6 ks e
  | tighter {k : Nat} {ks : Kinds} {e : Expression} : Layer operand (k + 1) ks e → Layer operand k ks e
  | binary {op : BinaryOp} {ks ks' : Kinds} {l r : Expression} :
      Layer operand op.level ks l → Layer operand (op.level + 1) ks' r →
        Layer operand op.level (ks ++ .operator op :: ks') (.binary op l r)

inductive Operand : Kinds → Expression → Prop where
  | integer {i : Int} {v : Value} : v.toInt = i → Operand [.integer i] (.literal v)
  | negated {i : Int} {v : Value} : v.toInt = i → Operand [.operator .sub, .integer i] (.literal (-v))
  | var (x : String) : Operand [.identifier x] (.var x)
  | call {f : String} {ks : Kinds} {args : List Expression} :
      Tuple (Layer Operand 0) ks args → Operand (.identifier f :: ks) (.call f args)
  | parens {ks : Kinds} {e : Expression} : Layer Operand 0 ks e → Operand (.leftParen :: ks ++ [.rightParen]) e

abbrev Expr : Kinds → Expression → Prop := Layer Operand 0

/-- Statements stand side by side with nothing between them, and an alternative may belong to any open conditional before
it, so the grammar is ambiguous. -/
inductive Stmt : Kinds → Statement → Prop where
  | function {f : String} {ps bs : Kinds} {params : List String} {body : Block} :
      Tuple Name ps params → Many Stmt bs body →
        Stmt (.keyword .function :: .identifier f :: ps ++ .leftBrace :: bs ++ [.rightBrace]) (.function f params body)
  | block {bs : Kinds} {body : Block} : Many Stmt bs body → Stmt (.leftBrace :: bs ++ [.rightBrace]) (.block body)
  | declare (x : String) : Stmt [.keyword .var, .identifier x] (.declare x none)
  | declareAs {x : String} {ks : Kinds} {e : Expression} :
      Expr ks e → Stmt (.keyword .var :: .identifier x :: .assign :: ks) (.declare x (some e))
  | loop {cs bs : Kinds} {c : Expression} {body : Statement} :
      Expr cs c → Stmt bs body → Stmt (.keyword .loop :: .leftParen :: cs ++ .rightParen :: bs) (.loop c body)
  | ifThen {cs ks : Kinds} {c : Expression} {s : Statement} :
      Expr cs c → Stmt ks s → Stmt (.keyword .conditional :: .leftParen :: cs ++ .rightParen :: ks) (.ifThen c s)
  | ifElse {cs ks ks' : Kinds} {c : Expression} {s s' : Statement} :
      Expr cs c → Stmt ks s → Stmt ks' s' →
        Stmt (.keyword .conditional :: .leftParen :: cs ++ .rightParen :: ks ++ .keyword .alternative :: ks')
          (.ifElse c s s')
  | result {ks : Kinds} {e : Expression} : Expr ks e → Stmt (.keyword .result :: ks) (.result e)
  | assign {x : String} {ks : Kinds} {e : Expression} :
      Expr ks e → Stmt (.identifier x :: .assign :: ks) (.assign x e)
  | evaluate {ks : Kinds} {e : Expression} : Expr ks e → Stmt ks (.evaluate e)

/-- A whole program, with the end token behind it. -/
inductive File : Kinds → Block → Prop where
  | intro {ks : Kinds} {body : Block} : Many Stmt ks body → File (ks ++ [.endOfText]) body

end Grammar

end IntScript
