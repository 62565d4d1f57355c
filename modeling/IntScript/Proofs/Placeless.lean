import IntScript.Program.Source
import IntScript.Proofs.AttemptLaws

set_option autoImplicit false

namespace IntScript

def Token.unplaced (t : Token) : Token := ⟨t.kind, t.lexeme, .start⟩

def SyntaxError.unplaced (e : SyntaxError) : SyntaxError := ⟨.start, e.expected, e.found⟩

namespace Parse

open Attempt

variable {α β : Type}

/-- The reader does without positions what it does with them. -/
abbrev Placeless (m : Parse α) : Prop := Carries (fun e e' => e' = e.unplaced) (List.map Token.unplaced) m m

theorem current_unplaced (ts : List Token) : current (ts.map Token.unplaced) = (current ts).unplaced := by
  cases ts with
  | nil => rfl
  | cons t ts => rfl

section Rules

theorem placeless_peek : Placeless peek := by
  apply carries_ask
  intro ts
  rw [current_unplaced]
  rfl

theorem placeless_check (k : TokenKind) : Placeless (check k) := by
  apply carries_ask
  intro ts
  rw [current_unplaced]
  rfl

theorem placeless_operator? : Placeless operator? := by
  apply carries_ask
  intro ts
  rw [current_unplaced]
  rfl

theorem placeless_checkNext (k : TokenKind) : Placeless (checkNext k) := by
  apply carries_ask
  intro ts
  rcases ts with _ | ⟨t, _ | ⟨u, ts⟩⟩ <;> rfl

theorem placeless_advance : Placeless advance := by
  refine ⟨fun _ => .done (), fun ts => ?_⟩
  have hmoved : behind (ts.map Token.unplaced) = (behind ts).map Token.unplaced := by
    cases ts with
    | nil => rfl
    | cons t ts =>
      have hend : t.unplaced.isEnd = t.isEnd := rfl
      unfold behind
      rw [List.map_cons]
      dsimp only
      rw [hend]
      cases t.isEnd <;> rfl
  exact hmoved

theorem placeless_unexpected (expected : Expectation) : Placeless (unexpected expected : Parse α) := by
  refine ⟨fun ts => .failed ?_, fun _ => rfl⟩
  rw [current_unplaced]
  rfl

theorem placeless_accept (k : TokenKind) : Placeless (accept k) := by
  apply (placeless_check k).bind
  intro found
  cases found with
  | true => exact placeless_advance.bind fun _ => carries_pure true
  | false => exact carries_pure false

theorem placeless_consume (k : TokenKind) : Placeless (consume k) := by
  apply (placeless_check k).bind
  intro found
  cases found with
  | true => exact placeless_advance
  | false => exact placeless_unexpected _

theorem placeless_name (role : NameRole) : Placeless (name role) := by
  apply placeless_peek.bind
  intro kind
  cases kind with
  | identifier x => exact placeless_advance.bind fun _ => carries_pure x
  | _ => exact placeless_unexpected _

end Rules

section Expressions

variable {item : Parse α}

theorem placeless_commaList (hitem : Placeless item) (n : Nat) : Placeless (commaList n item) := by
  induction n with
  | zero => exact carries_outOfFuel
  | succ n ih =>
    apply hitem.bind
    intro first
    apply (placeless_accept .comma).bind
    intro more
    cases more with
    | true => exact ih.bind fun rest => carries_pure (first :: rest)
    | false => exact carries_pure [first]

theorem placeless_tuple (hitem : Placeless item) (n : Nat) : Placeless (tuple n item) := by
  apply (placeless_consume .leftParen).bind
  intro _
  apply (placeless_check .rightParen).bind
  intro closed
  cases closed with
  | true => exact (placeless_consume .rightParen).bind fun _ => carries_pure []
  | false =>
    apply (placeless_commaList hitem n).bind
    intro items
    exact (placeless_consume .rightParen).bind fun _ => carries_pure items

theorem placeless_negated : Placeless negated := by
  apply placeless_advance.bind
  intro _
  apply placeless_peek.bind
  intro kind
  cases kind with
  | integer i => exact placeless_advance.bind fun _ => carries_pure _
  | _ => exact placeless_unexpected _

theorem placeless_operand {inner : Parse Expression} (hinner : Placeless inner) (n : Nat) (kind : TokenKind) :
    Placeless (operand n inner kind) := by
  cases kind with
  | integer i => exact placeless_advance.bind fun _ => carries_pure _
  | identifier x =>
    apply placeless_advance.bind
    intro _
    apply (placeless_check .leftParen).bind
    intro called
    cases called with
    | true => exact (placeless_tuple hinner n).bind fun args => carries_pure _
    | false => exact carries_pure _
  | leftParen =>
    apply placeless_advance.bind
    intro _
    apply hinner.bind
    intro e
    exact (placeless_consume .rightParen).bind fun _ => carries_pure e
  | operator op =>
    rw [operand]
    split
    · exact placeless_negated
    · exact placeless_unexpected _
  | _ => exact placeless_unexpected _

theorem placeless_expressions (n : Nat) :
    (∀ level, Placeless (binary n level)) ∧ (∀ level left, Placeless (climb n level left)) ∧ Placeless (primary n) := by
  induction n with
  | zero => exact ⟨fun _ => carries_outOfFuel, fun _ _ => carries_outOfFuel, carries_outOfFuel⟩
  | succ n ih =>
    obtain ⟨hbinary, hclimb, hprimary⟩ := ih
    refine ⟨fun level => ?_, fun level left => ?_, ?_⟩
    · exact hprimary.bind fun left => hclimb level left
    · apply placeless_operator?.bind
      intro found
      cases found with
      | none => exact carries_pure left
      | some op =>
        dsimp only [id_eq]
        split
        · exact carries_pure left
        · apply placeless_advance.bind
          intro _
          exact (hbinary (op.level + 1)).bind fun right => hclimb level (.binary op left right)
    · exact placeless_peek.bind fun kind => placeless_operand (hbinary 0) n kind

theorem placeless_expression (n : Nat) : Placeless (expression n) := (placeless_expressions n).1 0

theorem placeless_condition (n : Nat) : Placeless (condition n) := by
  apply (placeless_consume .leftParen).bind
  intro _
  apply (placeless_expression n).bind
  intro e
  exact (placeless_consume .rightParen).bind fun _ => carries_pure e

end Expressions

section Statements

variable {item : Parse Statement}

theorem placeless_untilBrace (hitem : Placeless item) (n : Nat) : Placeless (untilBrace n item) := by
  induction n with
  | zero => exact carries_outOfFuel
  | succ n ih =>
    apply (placeless_check .rightBrace).bind
    intro closed
    cases closed with
    | true => exact carries_pure []
    | false =>
      apply (placeless_check .endOfText).bind
      intro ended
      cases ended with
      | true => exact placeless_unexpected _
      | false => exact hitem.bind fun first => ih.bind fun rest => carries_pure (first :: rest)

theorem placeless_braced (hitem : Placeless item) (n : Nat) : Placeless (braced n item) := by
  apply (placeless_consume .leftBrace).bind
  intro _
  apply (placeless_untilBrace hitem n).bind
  intro body
  exact (placeless_consume .rightBrace).bind fun _ => carries_pure body

theorem placeless_untilEnd (hitem : Placeless item) (n : Nat) : Placeless (untilEnd n item) := by
  induction n with
  | zero => exact carries_outOfFuel
  | succ n ih =>
    apply (placeless_check .endOfText).bind
    intro ended
    cases ended with
    | true => exact carries_pure []
    | false => exact hitem.bind fun first => ih.bind fun rest => carries_pure (first :: rest)

theorem placeless_keywordStatement (hitem : Placeless item) (n : Nat) (k : Keyword) :
    Placeless (keywordStatement n item k) := by
  have hexpression := placeless_expression n
  cases k with
  | function =>
    apply placeless_advance.bind
    intro _
    apply (placeless_name .function).bind
    intro f
    apply (placeless_tuple (placeless_name .parameter) n).bind
    intro params
    exact (placeless_braced hitem n).bind fun body => carries_pure _
  | var =>
    apply placeless_advance.bind
    intro _
    apply (placeless_name .var).bind
    intro x
    apply (placeless_accept .assign).bind
    intro more
    cases more with
    | true => exact hexpression.bind fun e => carries_pure _
    | false => exact carries_pure _
  | loop =>
    apply placeless_advance.bind
    intro _
    apply (placeless_condition n).bind
    intro c
    exact hitem.bind fun body => carries_pure _
  | conditional =>
    apply placeless_advance.bind
    intro _
    apply (placeless_condition n).bind
    intro c
    apply hitem.bind
    intro thenBranch
    apply (placeless_accept _).bind
    intro more
    cases more with
    | true => exact hitem.bind fun elseBranch => carries_pure _
    | false => exact carries_pure _
  | result =>
    apply placeless_advance.bind
    intro _
    exact hexpression.bind fun e => carries_pure _
  | alternative => exact hexpression.bind fun e => carries_pure _

theorem placeless_statementFrom (hitem : Placeless item) (n : Nat) (kind : TokenKind) :
    Placeless (statementFrom n item kind) := by
  have hevaluation : Placeless (evaluation n) := (placeless_expression n).bind fun e => carries_pure _
  cases kind with
  | keyword k => exact placeless_keywordStatement hitem n k
  | leftBrace => exact (placeless_braced hitem n).bind fun body => carries_pure _
  | identifier x =>
    apply (placeless_checkNext .assign).bind
    intro assigned
    cases assigned with
    | true =>
      apply (placeless_name .var).bind
      intro y
      apply (placeless_consume .assign).bind
      intro _
      exact (placeless_expression n).bind fun e => carries_pure _
    | false => exact hevaluation
  | _ => exact hevaluation

theorem placeless_statement (n : Nat) : Placeless (statement n) := by
  induction n with
  | zero => exact carries_outOfFuel
  | succ n ih => exact placeless_peek.bind fun kind => placeless_statementFrom ih n kind

theorem placeless_program (n : Nat) : Placeless (program n) := placeless_untilEnd (placeless_statement n) n

end Statements

/-- Tokens that differ in their positions only are read as the same program. -/
theorem program_of_unplaced {n : Nat} {ts ts' us : List Token} {body : Block}
    (hsame : ts'.map Token.unplaced = ts.map Token.unplaced) (h : program n ts = (.done body, us)) :
    ∃ us', program n ts' = (.done body, us') := by
  have hplaceless := (placeless_program n).apply_done h
  have hplaceless' := (placeless_program n).apply ts'
  rw [hsame, hplaceless] at hplaceless'
  rcases hrun : program n ts' with ⟨body' | e | _, us'⟩
  · rw [hrun] at hplaceless'
    obtain ⟨hbody, -⟩ := Prod.mk.inj hplaceless'
    obtain rfl : body = body' := Outcome.done.inj hbody
    exact ⟨us', rfl⟩
  · rw [hrun] at hplaceless'
    cases (Prod.mk.inj hplaceless').1
  · rw [hrun] at hplaceless'
    cases (Prod.mk.inj hplaceless').1

end Parse

end IntScript
