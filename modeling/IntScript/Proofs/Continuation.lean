import IntScript.Proofs.Grammar

set_option autoImplicit false

/-! # What may follow

A reader that takes as much as it can may go past the end of the phrase that a derivation has in mind: a call or a
minus sign may belong to the next statement, and an alternative to a conditional further out. The sets of kinds
that may follow a phrase are closed under such steps. -/

namespace IntScript

namespace TokenKind

def startsOperand : TokenKind → Bool
  | .integer _ | .identifier _ | .leftParen => true
  | .operator op => op = .sub
  | _ => false

def startsStatement : TokenKind → Bool
  | .keyword k => k ≠ .alternative
  | .leftBrace => true
  | k => k.startsOperand

theorem startsStatement_of_startsOperand {k : TokenKind} (h : k.startsOperand = true) : k.startsStatement = true := by
  cases k <;> first | exact h | cases h

theorem ne_of_startsStatement {k k' : TokenKind} (h : k.startsStatement = true) (h' : k'.startsStatement = false) :
    k ≠ k' := by
  rintro rfl
  rw [h] at h'
  cases h'

end TokenKind

namespace Grammar

theorem Operand.starts {ks : Kinds} {e : Expression} (h : Operand ks e) :
    ∃ k rest, ks = k :: rest ∧ k.startsOperand = true := by
  cases h with
  | _ => exact ⟨_, _, rfl, rfl⟩

/-- Operators and right operands, whatever their precedence. -/
inductive Tail : Kinds → Prop where
  | nil : Tail []
  | cons {op : BinaryOp} {ks rest : Kinds} {e : Expression} :
      Operand ks e → Tail rest → Tail (.operator op :: ks ++ rest)

theorem Tail.append {ks ks' : Kinds} (h : Tail ks) (h' : Tail ks') : Tail (ks ++ ks') := by
  induction h with
  | nil => exact h'
  | cons ho _ ih => simpa using Tail.cons ho ih

theorem Layer.flat {k : Nat} {ks : Kinds} {e : Expression} (h : Layer Operand k ks e) :
    ∃ os o tail, Operand os o ∧ Tail tail ∧ ks = os ++ tail := by
  induction h with
  | operand ho => exact ⟨_, _, [], ho, .nil, (List.append_nil _).symm⟩
  | tighter _ ih => exact ih
  | @binary op _ _ _ _ _ _ ihl ihr =>
    obtain ⟨os, o, tail, ho, htail, rfl⟩ := ihl
    obtain ⟨os', o', tail', ho', htail', rfl⟩ := ihr
    have hright : Tail (.operator op :: os' ++ tail') := .cons ho' htail'
    refine ⟨os, o, _, ho, htail.append hright, ?_⟩
    simp

theorem Layer.starts {k : Nat} {ks : Kinds} {e : Expression} (h : Layer Operand k ks e) :
    ∃ k rest, ks = k :: rest ∧ k.startsOperand = true := by
  obtain ⟨os, o, tail, ho, -, rfl⟩ := h.flat
  obtain ⟨k, rest, rfl, hk⟩ := ho.starts
  exact ⟨k, rest ++ tail, rfl, hk⟩

theorem Stmt.starts {ks : Kinds} {s : Statement} (h : Stmt ks s) :
    ∃ k rest, ks = k :: rest ∧ k.startsStatement = true := by
  cases h with
  | evaluate he =>
    obtain ⟨k, rest, rfl, hk⟩ := he.starts
    exact ⟨k, rest, rfl, TokenKind.startsStatement_of_startsOperand hk⟩
  | _ => exact ⟨_, _, rfl, rfl⟩

theorem Stmt.flat {k : TokenKind} {ks : Kinds} {s : Statement} (h : Stmt (k :: ks) s)
    (hk : k = .leftParen ∨ ∃ op, k = .operator op) :
    ∃ os o tail, Operand os o ∧ Tail tail ∧ k :: ks = os ++ tail := by
  generalize hks : k :: ks = ks' at h
  cases h with
  | evaluate he => exact he.flat
  | _ =>
    obtain ⟨rfl, -⟩ := List.cons.inj hks
    simp at hk

theorem Operand.negated_of_operator {op : BinaryOp} {ks : Kinds} {e : Expression}
    (h : Operand (.operator op :: ks) e) : ∃ o, Operand ks o := by
  cases h with
  | negated hv => exact ⟨_, .integer hv⟩

theorem Operand.expr_of_leftParen {ks : Kinds} {e : Expression} (h : Operand (.leftParen :: ks) e) :
    ∃ cs, Expr cs e ∧ ks = cs ++ [.rightParen] := by
  cases h with
  | parens he => exact ⟨_, he, rfl⟩

/-- Behind a name at the beginning of an expression there is no assignment. -/
theorem Layer.not_assign {k : Nat} {x : String} {ks rest : Kinds} {e : Expression}
    (h : Layer Operand k (.identifier x :: ks) e) (hrest : rest.headD .endOfText ≠ .assign) :
    (ks ++ rest).headD .endOfText ≠ .assign := by
  obtain ⟨os, o, tail, ho, htail, heq⟩ := h.flat
  obtain ⟨k, os, rfl, -⟩ := ho.starts
  obtain ⟨rfl, rfl⟩ := List.cons.inj heq
  cases ho with
  | var =>
    cases htail with
    | nil => exact hrest
    | cons _ _ => simp
  | call hargs => cases hargs <;> simp

/-- More operators may come before what may follow. -/
def After (R : Kinds → Prop) (ks : Kinds) : Prop := ∃ tail rest, Tail tail ∧ R rest ∧ ks = tail ++ rest

/-- What may follow an expression, read as more of the same expression, leaves what may follow. -/
structure Closed (R : Kinds → Prop) : Prop where
  operator : ∀ op ks, R (.operator op :: ks) → ∃ os o rest, Operand os o ∧ After R rest ∧ ks = os ++ rest
  call : ∀ ks, R (.leftParen :: ks) → ∃ cs c rest, Expr cs c ∧ After R rest ∧ ks = cs ++ .rightParen :: rest

namespace After

variable {R : Kinds → Prop} {ks : Kinds}

theorem tail {tail rest : Kinds} (htail : Tail tail) (h : R rest) : After R (tail ++ rest) :=
  ⟨tail, rest, htail, h, rfl⟩

theorem operator {op : BinaryOp} (hR : Closed R) (h : After R (.operator op :: ks)) :
    ∃ os o rest, Operand os o ∧ After R rest ∧ ks = os ++ rest := by
  obtain ⟨tail, rest, htail, hrest, heq⟩ := h
  cases htail with
  | nil =>
    subst heq
    exact hR.operator op ks hrest
  | cons ho htail =>
    obtain ⟨-, rfl⟩ := List.cons.inj heq
    refine ⟨_, _, _, ho, .tail htail hrest, ?_⟩
    simp

theorem call (hR : Closed R) (h : After R (.leftParen :: ks)) :
    ∃ cs c rest, Expr cs c ∧ After R rest ∧ ks = cs ++ .rightParen :: rest := by
  obtain ⟨tail, rest, htail, hrest, heq⟩ := h
  cases htail with
  | nil =>
    subst heq
    exact hR.call ks hrest
  | cons ho htail => cases heq

/-- Where no operator comes, nothing more comes before what may follow. -/
theorem rest_of_no_operator (h : After R ks) (hks : ∀ op, ks.headD .endOfText ≠ .operator op) : R ks := by
  obtain ⟨tail, rest, htail, hrest, rfl⟩ := h
  cases htail with
  | nil => exact hrest
  | cons ho htail => exact absurd rfl (hks _)

end After

def Delimited (rest : Kinds) : Prop := rest.head? = some .comma ∨ rest.head? = some .rightParen

theorem Delimited.closed {rest : Kinds} (h : Delimited rest) : Closed (· = rest) := by
  refine ⟨fun op ks heq => ?_, fun ks heq => ?_⟩
  · subst heq
    rcases h with h | h <;> cases h
  · subst heq
    rcases h with h | h <;> cases h

/-- What may follow a statement inside the given number of conditionals: one alternative at most for each of them,
and then statements up to the mark that closes their list. -/
inductive Rest (close : Kinds → Prop) : Nat → Kinds → Prop where
  | list {depth : Nat} {ks rest : Kinds} {body : Block} :
      Many Stmt ks body → close rest → Rest close depth (ks ++ rest)
  | alternative {depth : Nat} {ks rest : Kinds} {s : Statement} :
      Stmt ks s → Rest close depth rest → Rest close (depth + 1) (.keyword .alternative :: ks ++ rest)

def Closing (close : Kinds → Prop) : Prop :=
  ∀ ks, close ks → ks.head? = some .rightBrace ∨ ks.head? = some .endOfText

namespace Rest

variable {close : Kinds → Prop} {depth : Nat} {ks : Kinds}

theorem succ (h : Rest close depth ks) : Rest close (depth + 1) ks := by
  induction h with
  | list hbody hclose => exact .list hbody hclose
  | alternative hs _ ih => exact .alternative hs ih

theorem of_zero (h : Rest close 0 ks) : Rest close depth ks := by
  induction depth with
  | zero => exact h
  | succ depth ih => exact ih.succ

/-- Where no alternative comes, the conditionals are over. -/
theorem zero_of_no_alternative (h : Rest close depth ks) (hks : ks.head? ≠ some (.keyword .alternative)) :
    Rest close 0 ks := by
  cases h with
  | list hbody hclose => exact .list hbody hclose
  | alternative _ _ => exact absurd rfl hks

theorem zero_cases (h : Rest close 0 ks) :
    close ks ∨ ∃ ss s rest, Stmt ss s ∧ Rest close 0 rest ∧ ks = ss ++ rest := by
  cases h with
  | list hbody hclose =>
    cases hbody with
    | nil => exact .inl hclose
    | cons hs hbody => exact .inr ⟨_, _, _, hs, .list hbody hclose, List.append_assoc _ _ _⟩

theorem zero_starts (hclose : Closing close) (h : Rest close 0 ks) :
    ∃ k rest, ks = k :: rest ∧ (k.startsStatement = true ∨ k = .rightBrace ∨ k = .endOfText) := by
  rcases h.zero_cases with hend | ⟨ss, s, rest, hs, -, rfl⟩
  · cases ks with
    | nil => rcases hclose _ hend with h | h <;> cases h
    | cons k rest =>
      rcases hclose _ hend with h | h
      · exact ⟨k, rest, rfl, .inr (.inl (Option.some.inj h))⟩
      · exact ⟨k, rest, rfl, .inr (.inr (Option.some.inj h))⟩
  · obtain ⟨k, ss', rfl, hk⟩ := hs.starts
    exact ⟨k, ss' ++ rest, rfl, .inl hk⟩

/-- An alternative comes for the innermost conditional, or none comes. -/
theorem succ_cases (hclose : Closing close) (h : Rest close (depth + 1) ks) :
    (∃ ss s rest, Stmt ss s ∧ Rest close depth rest ∧ ks = .keyword .alternative :: (ss ++ rest)) ∨
      Rest close 0 ks ∧ ks.headD .endOfText ≠ .keyword .alternative := by
  cases h with
  | alternative hs hrest => exact .inl ⟨_, _, _, hs, hrest, rfl⟩
  | list hbody hend =>
    have hzero : Rest close 0 _ := .list hbody hend
    refine .inr ⟨hzero, ?_⟩
    obtain ⟨k, rest, heq, hk⟩ := hzero.zero_starts hclose
    rw [heq]
    rintro rfl
    simp [TokenKind.startsStatement] at hk

theorem not_assign (hclose : Closing close) (h : Rest close depth ks) : ks.headD .endOfText ≠ .assign := by
  cases h with
  | alternative _ _ => simp
  | list hbody hend =>
    obtain ⟨k, rest, heq, hk⟩ := zero_starts hclose (.list hbody hend)
    rw [heq]
    rintro rfl
    simp [TokenKind.startsStatement, TokenKind.startsOperand] at hk

theorem flat (hclose : Closing close) {k : TokenKind} (h : Rest close depth (k :: ks))
    (hk : k = .leftParen ∨ ∃ op, k = .operator op) :
    ∃ os o rest, Operand (k :: os) o ∧ After (Rest close depth) rest ∧ ks = os ++ rest := by
  have halt : (k :: ks).head? ≠ some (.keyword .alternative) := by
    rintro heq
    cases heq
    simp at hk
  rcases (h.zero_of_no_alternative halt).zero_cases with hend | ⟨ss, s, rest, hs, hrest, heq⟩
  · rcases hclose _ hend with heq | heq
    · cases heq
      simp at hk
    · cases heq
      simp at hk
  · obtain ⟨k', ss', rfl, -⟩ := hs.starts
    obtain ⟨rfl, rfl⟩ := List.cons.inj heq
    obtain ⟨os, o, tail, ho, htail, heq⟩ := hs.flat hk
    obtain ⟨k', os', rfl, -⟩ := ho.starts
    obtain ⟨rfl, rfl⟩ := List.cons.inj heq
    exact ⟨os', o, tail ++ rest, ho, .tail htail hrest.of_zero, List.append_assoc _ _ _⟩

theorem closed (hclose : Closing close) (depth : Nat) : Closed (Rest close depth) := by
  refine ⟨fun op ks h => ?_, fun ks h => ?_⟩
  · -- The next statement is a negated integer; without its sign it is the right operand.
    obtain ⟨os, o, rest, ho, hrest, rfl⟩ := h.flat hclose (.inr ⟨op, rfl⟩)
    obtain ⟨o', ho'⟩ := ho.negated_of_operator
    exact ⟨os, o', rest, ho', hrest, rfl⟩
  · -- The next statement begins with an expression between parentheses, which is the argument.
    obtain ⟨os, o, rest, ho, hrest, rfl⟩ := h.flat hclose (.inl rfl)
    obtain ⟨cs, hc, rfl⟩ := ho.expr_of_leftParen
    exact ⟨cs, o, rest, hc, hrest, by simp⟩

end Rest

end Grammar

end IntScript
