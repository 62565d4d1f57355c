import IntScript.Proofs.Grammar
import IntScript.Proofs.ScannedTokens

set_option autoImplicit false

namespace IntScript

namespace Expression

/-- All names can be written, and no literal is the least value. -/
inductive Writable : Expression → Prop where
  | call {f : String} {args : List Expression} : IsName f → (∀ e ∈ args, Writable e) → Writable (.call f args)
  | literal {v : Value} : -0x7fffffffffffffff ≤ v.toInt ∧ v.toInt ≤ 0x7fffffffffffffff → Writable (.literal v)
  | var {x : String} : IsName x → Writable (.var x)
  | binary {op : BinaryOp} {l r : Expression} : Writable l → Writable r → Writable (.binary op l r)

end Expression

namespace Statement

/-- The statement ends in a conditional that an alternative behind it would belong to. -/
def endsOpen : Statement → Bool
  | .ifThen _ _ => true
  | .ifElse _ _ s => s.endsOpen
  | .loop _ s => s.endsOpen
  | _ => false

/-- Expressions and names can be written, and every alternative stands behind its own conditional. -/
inductive Writable : Statement → Prop where
  | function {f : String} {params : List String} {body : Block} :
      IsName f → (∀ x ∈ params, IsName x) → (∀ s ∈ body, Writable s) → Writable (.function f params body)
  | block {body : Block} : (∀ s ∈ body, Writable s) → Writable (.block body)
  | declare {x : String} {init : Option Expression} :
      IsName x → (∀ e ∈ init, e.Writable) → Writable (.declare x init)
  | evaluate {e : Expression} : e.Writable → Writable (.evaluate e)
  | loop {c : Expression} {s : Statement} : c.Writable → Writable s → Writable (.loop c s)
  | ifThen {c : Expression} {s : Statement} : c.Writable → Writable s → Writable (.ifThen c s)
  | ifElse {c : Expression} {s s' : Statement} :
      c.Writable → Writable s → Writable s' → s.endsOpen = false → Writable (.ifElse c s s')
  | assign {x : String} {e : Expression} : IsName x → e.Writable → Writable (.assign x e)
  | result {e : Expression} : e.Writable → Writable (.result e)

end Statement

def inParens (ks : Kinds) : Kinds := .leftParen :: (ks ++ [.rightParen])

def inBraces (ks : Kinds) : Kinds := .leftBrace :: (ks ++ [.rightBrace])

def inTuple (items : List Kinds) : Kinds := inParens (List.intercalate [.comma] items)

namespace Expression

mutual

def bareKinds : Expression → Kinds
  | .call f args => .identifier f :: inTuple (kindsEach args)
  | .literal v => if v.toInt < 0 then [.operator .sub, .integer (-v.toInt)] else [.integer v.toInt]
  | .var x => [.identifier x]
  | .binary op l r => inParens (bareKinds l) ++ .operator op :: inParens (bareKinds r)

def kindsEach : List Expression → List Kinds
  | [] => []
  | e :: es => inParens (bareKinds e) :: kindsEach es

end

def kinds (e : Expression) : Kinds := inParens e.bareKinds

theorem kinds_headD (e : Expression) (rest : Kinds) : (e.kinds ++ rest).headD .endOfText = .leftParen := rfl

theorem kindsEach_eq (es : List Expression) : kindsEach es = es.map kinds := by
  induction es with
  | nil => rfl
  | cons e es ih => rw [kindsEach, ih, List.map_cons, kinds]

end Expression

namespace Statement

mutual

def kinds : Statement → Kinds
  | .function f params body =>
    .keyword .function :: .identifier f :: (inTuple (params.map fun x => [.identifier x]) ++ inBraces (kindsAll body))
  | .block body => inBraces (kindsAll body)
  | .declare x none => [.keyword .var, .identifier x]
  | .declare x (some e) => .keyword .var :: .identifier x :: .assign :: e.kinds
  | .evaluate e => e.kinds
  | .loop c s => .keyword .loop :: (inParens c.kinds ++ kinds s)
  | .ifThen c s => .keyword .conditional :: (inParens c.kinds ++ kinds s)
  | .ifElse c s s' => .keyword .conditional :: (inParens c.kinds ++ (kinds s ++ .keyword .alternative :: kinds s'))
  | .assign x e => .identifier x :: .assign :: e.kinds
  | .result e => .keyword .result :: e.kinds

def kindsAll : List Statement → Kinds
  | [] => []
  | s :: body => kinds s ++ kindsAll body

end

end Statement

namespace TokenKind

def spelling : TokenKind → List Char
  | .keyword k => k.word.toList
  | .operator op => op.token.toList
  | .assign => ['=']
  | .leftParen => ['(']
  | .rightParen => [')']
  | .leftBrace => ['\x7b']
  | .rightBrace => ['\x7d']
  | .comma => [',']
  | .integer i => Decimal.digits i.toNat
  | .identifier x => x.toList
  | .endOfText => []

/-- The kind can be read from its spelling. -/
def Scannable : TokenKind → Prop
  | .integer i => 0 ≤ i ∧ i < 0x8000000000000000
  | .identifier x => IsName x
  | .endOfText => False
  | _ => True

end TokenKind

def spell (ks : Kinds) : List Char := List.intercalate [' '] (ks.map TokenKind.spelling)

def render (body : Block) : String := String.ofList (spell (Statement.kindsAll body))

section Scannable

def Kinds.Scannable (ks : Kinds) : Prop := ∀ k ∈ ks, k.Scannable

namespace Kinds.Scannable

variable {ks ks' : Kinds} {k : TokenKind}

theorem nil : Kinds.Scannable [] := by
  intro k hk
  cases hk

theorem cons (hk : k.Scannable) (hks : Kinds.Scannable ks) : Kinds.Scannable (k :: ks) :=
  List.forall_mem_cons.2 ⟨hk, hks⟩

theorem append (hks : Kinds.Scannable ks) (hks' : Kinds.Scannable ks') : Kinds.Scannable (ks ++ ks') :=
  List.forall_mem_append.2 ⟨hks, hks'⟩

theorem inParens (hks : Kinds.Scannable ks) : Kinds.Scannable (inParens ks) :=
  cons trivial (hks.append (cons trivial nil))

theorem inBraces (hks : Kinds.Scannable ks) : Kinds.Scannable (inBraces ks) :=
  cons trivial (hks.append (cons trivial nil))

theorem inTuple {items : List Kinds} (h : ∀ ks ∈ items, Kinds.Scannable ks) : Kinds.Scannable (inTuple items) := by
  refine inParens ?_
  induction items with
  | nil => exact nil
  | cons ks items ih =>
    obtain ⟨hks, hitems⟩ := List.forall_mem_cons.1 h
    cases items with
    | nil => simpa using hks
    | cons ks' items =>
      have hcomma : Kinds.Scannable [.comma] := cons trivial nil
      rw [List.intercalate_cons_cons]
      exact (hks.append hcomma).append (ih hitems)

end Kinds.Scannable

theorem Expression.Writable.scannable {e : Expression} (h : e.Writable) : e.kinds.Scannable := by
  refine Kinds.Scannable.inParens ?_
  induction h with
  | call hf _ ih =>
    refine .cons hf (.inTuple fun ks hks => ?_)
    rw [Expression.kindsEach_eq] at hks
    obtain ⟨e, he, rfl⟩ := List.mem_map.1 hks
    exact (ih e he).inParens
  | literal hv =>
    rw [Expression.bareKinds]
    split
    · next hneg =>
      have hrange : (TokenKind.integer _).Scannable := ⟨Int.le_neg_of_le_neg (Int.le_of_lt hneg), by omega⟩
      exact .cons trivial (.cons hrange .nil)
    · next hneg =>
      have hrange : (TokenKind.integer _).Scannable := ⟨Int.not_lt.1 hneg, by omega⟩
      exact .cons hrange .nil
  | var hx => exact .cons hx .nil
  | binary _ _ ihl ihr => exact ihl.inParens.append (.cons trivial ihr.inParens)

theorem Statement.kindsAll_scannable {body : Block} (h : ∀ s ∈ body, s.kinds.Scannable) :
    (kindsAll body).Scannable := by
  induction body with
  | nil => exact .nil
  | cons s body ih =>
    obtain ⟨hs, hbody⟩ := List.forall_mem_cons.1 h
    exact hs.append (ih hbody)

theorem Statement.Writable.scannable {s : Statement} (h : s.Writable) : s.kinds.Scannable := by
  induction h with
  | function hf hparams _ ih =>
    refine .cons trivial (.cons hf (.append (.inTuple fun ks hks => ?_) (.inBraces (kindsAll_scannable ih))))
    obtain ⟨x, hx, rfl⟩ := List.mem_map.1 hks
    exact .cons (hparams x hx) .nil
  | block _ ih => exact .inBraces (kindsAll_scannable ih)
  | @declare x init hx hinit =>
    cases init with
    | none => exact .cons trivial (.cons hx .nil)
    | some e => exact .cons trivial (.cons hx (.cons trivial (hinit e rfl).scannable))
  | evaluate he => exact he.scannable
  | loop hc _ ih => exact .cons trivial (hc.scannable.inParens.append ih)
  | ifThen hc _ ih => exact .cons trivial (hc.scannable.inParens.append ih)
  | ifElse hc _ _ _ ih ih' =>
    exact .cons trivial (hc.scannable.inParens.append (ih.append (.cons trivial ih')))
  | assign hx he => exact .cons hx (.cons trivial he.scannable)
  | result he => exact .cons trivial he.scannable

end Scannable

end IntScript
