import IntScript.Proofs.RoundTrip

set_option autoImplicit false

/-! # Parentheses only where they are needed

An operand stands between parentheses if its own operator is weaker than the one beside it, on the right also if it is
as weak; nothing else does. What is written so is read back. The argument follows the readers: while operators are
climbed, what stands behind an operand is never an operator that binds tighter than the operand's own. -/

namespace IntScript

open Attempt Grammar

namespace Expression

/-- The level of the outermost operator. What has none is above all operators. -/
def level : Expression → Nat
  | .binary op _ _ => op.level
  | _ => 6

mutual

/-- The kinds of an expression with the fewest parentheses. -/
def terseKinds : Expression → Kinds
  | .call f args => .identifier f :: inTuple (terseKindsEach args)
  | .literal v => if v.toInt < 0 then [.operator .sub, .integer (-v.toInt)] else [.integer v.toInt]
  | .var x => [.identifier x]
  | .binary op l r =>
    (if l.level < op.level then inParens (terseKinds l) else terseKinds l) ++
      .operator op :: if r.level ≤ op.level then inParens (terseKinds r) else terseKinds r

def terseKindsEach : List Expression → List Kinds
  | [] => []
  | e :: es => terseKinds e :: terseKindsEach es

end

def terse (e : Expression) : String := String.ofList (spell e.terseKinds)

def operandKinds (k : Nat) (e : Expression) : Kinds := if e.level < k then inParens e.terseKinds else e.terseKinds

theorem terseKindsEach_eq (es : List Expression) : terseKindsEach es = es.map terseKinds := by
  induction es with
  | nil => rfl
  | cons e es ih => rw [terseKindsEach, ih, List.map_cons]

theorem terseKinds_binary (op : BinaryOp) (l r : Expression) :
    (Expression.binary op l r).terseKinds =
      l.operandKinds op.level ++ .operator op :: r.operandKinds (op.level + 1) := by
  simp only [terseKinds, operandKinds, Nat.lt_succ_iff]

theorem terseKinds_starts : ∀ e : Expression, ∃ k ks, e.terseKinds = k :: ks ∧ k.startsOperand = true
  | .call _ _ => ⟨_, _, rfl, rfl⟩
  | .var _ => ⟨_, _, rfl, rfl⟩
  | .literal v => by
    rw [terseKinds]
    split
    · exact ⟨_, _, rfl, rfl⟩
    · exact ⟨_, _, rfl, rfl⟩
  | .binary op l r => by
    rw [terseKinds]
    split
    · exact ⟨_, _, rfl, rfl⟩
    · obtain ⟨k, ks, heq, hk⟩ := terseKinds_starts l
      rw [heq]
      exact ⟨k, _, rfl, hk⟩

theorem terseKinds_headD (e : Expression) (rest : Kinds) :
    (e.terseKinds ++ rest).headD .endOfText ≠ .rightParen := by
  obtain ⟨k, ks, heq, hk⟩ := e.terseKinds_starts
  rw [heq]
  rintro rfl
  cases hk

theorem Writable.operandKinds_scannable {e : Expression} (h : e.terseKinds.Scannable) (k : Nat) :
    (e.operandKinds k).Scannable := by
  unfold operandKinds
  split
  · exact h.inParens
  · exact h

theorem Writable.terseKinds_scannable {e : Expression} (h : e.Writable) : e.terseKinds.Scannable := by
  induction h with
  | call hf _ ih =>
    refine .cons hf (.inTuple fun ks hks => ?_)
    rw [terseKindsEach_eq] at hks
    obtain ⟨e, he, rfl⟩ := List.mem_map.1 hks
    exact ih e he
  | literal hv =>
    -- a literal is written as it is between parentheses
    intro k hk
    exact (Writable.literal hv).scannable k (List.mem_cons_of_mem _ (List.mem_append_left _ hk))
  | var hx => exact .cons hx .nil
  | binary _ _ ihl ihr =>
    rw [terseKinds_binary]
    exact (operandKinds_scannable ihl _).append (.cons trivial (operandKinds_scannable ihr _))

end Expression

namespace Parse

variable {ts : List Token} {rest : Kinds} {n level k : Nat} {e : Expression} {Q : Expression → List Token → Prop}

/-- What may stand behind an operand of the given level: no parenthesis that makes a call of it, and no operator that
takes a part of it. -/
structure Bounded (k : Nat) (rest : Kinds) : Prop where
  paren : rest.headD .endOfText ≠ .leftParen
  operator : ∀ op, rest.headD .endOfText = .operator op → op.level ≤ k

theorem Bounded.mono {k' : Nat} (h : Bounded k rest) (hk : k ≤ k') : Bounded k' rest :=
  ⟨h.paren, fun op hop => Nat.le_trans (h.operator op hop) hk⟩

theorem bounded_operator {op : BinaryOp} (h : op.level ≤ k) : Bounded k (.operator op :: rest) := by
  refine ⟨by simp, fun op' hop' => ?_⟩
  cases hop'
  exact h

theorem bounded_of_delimited (h : Delimited rest) (k : Nat) : Bounded k rest := by
  refine ⟨fun hparen => ?_, fun op hop => absurd hop (noOperator_of_delimited h op)⟩
  cases rest with
  | nil => cases hparen
  | cons k rest =>
    obtain rfl : k = .leftParen := hparen
    rcases h with h | h <;> cases h

/-- Climbing stops at an operator below its level. -/
theorem returns_climb_below (hts : At ts rest) (hrest : ∀ op, rest.headD .endOfText = .operator op → op.level < level) :
    Returns (climb n level e) ts e rest := by
  cases n with
  | zero => exact succeeds_outOfFuel
  | succ n =>
    rw [climb]
    refine succeeds_ask ?_
    rw [current_operator? hts.1, hts.current]
    split
    · exact returns_pure hts
    · next op hop =>
      rw [if_pos (hrest op (TokenKind.operator?_eq_some.1 hop))]
      exact returns_pure hts

/-- Climbing takes an operator of its level with the operand behind it, and goes on. -/
theorem succeeds_climb_operator {op : BinaryOp} {l : Expression} {ks : Kinds} (hlevel : level ≤ op.level)
    (hts : At ts (.operator op :: ks)) (hright : ∀ m us, At us ks → Returns (binary m (op.level + 1)) us e rest)
    (hthen : ∀ m us, At us rest → (climb m level (.binary op l e)).Succeeds us Q) :
    (climb n level l).Succeeds ts Q := by
  cases n with
  | zero => exact succeeds_outOfFuel
  | succ n =>
    have hop : (current ts).operator? = some op := by
      rw [current_operator? hts.1, hts.current]
      rfl
    rw [climb]
    refine succeeds_ask ?_
    rw [hop]
    change Succeeds (if op.level < level then _ else _) ts Q
    rw [if_neg (Nat.not_lt.2 hlevel)]
    refine succeeds_advance hts (by simp) fun us hus => ?_
    exact (hright n us hus).bind fun vs hvs => hthen n vs hvs

/-- The readers come from the written expression to what they do behind it. -/
def ReadsTerse (e : Expression) : Prop :=
  ∀ {n level ts rest Q}, level ≤ e.level → Bounded e.level rest → At ts (e.terseKinds ++ rest) →
    (∀ m us, At us rest → (climb m level e).Succeeds us Q) → (binary n level).Succeeds ts Q

theorem readsTerse_of_primary
    (h : ∀ n ts rest, Bounded e.level rest → At ts (e.terseKinds ++ rest) → Returns (primary n) ts e rest) :
    ReadsTerse e := by
  intro n level ts rest Q _ hrest hts hthen
  cases n with
  | zero => exact succeeds_outOfFuel
  | succ n =>
    rw [binary]
    exact (h n ts rest hrest hts).bind fun us hus => hthen n us hus

theorem ReadsTerse.returns (h : ReadsTerse e) (hlevel : level ≤ e.level) (hparen : rest.headD .endOfText ≠ .leftParen)
    (hrest : ∀ op, rest.headD .endOfText = .operator op → op.level < level) (hts : At ts (e.terseKinds ++ rest)) :
    Returns (binary n level) ts e rest := by
  have hbounded : Bounded e.level rest :=
    ⟨hparen, fun op hop => Nat.le_trans (Nat.le_of_lt (hrest op hop)) hlevel⟩
  exact h hlevel hbounded hts fun m us hus => returns_climb_below hus hrest

theorem ReadsTerse.returns_delimited (h : ReadsTerse e) (hrest : Delimited rest) (hts : At ts (e.terseKinds ++ rest)) :
    Returns (binary n 0) ts e rest := by
  have hbounded := bounded_of_delimited hrest 0
  refine h.returns (Nat.zero_le _) hbounded.paren (fun op hop => ?_) hts
  exact absurd hop (noOperator_of_delimited hrest op)

theorem returns_primary {ks : Kinds} (hts : At ts ks)
    (h : ∀ n, Returns (operand n (binary n 0) (ks.headD .endOfText)) ts e rest) : Returns (primary n) ts e rest := by
  cases n with
  | zero => exact succeeds_outOfFuel
  | succ n =>
    rw [primary]
    refine succeeds_ask ?_
    rw [hts.current]
    exact h n

theorem ReadsTerse.parens (h : ReadsTerse e) (hts : At ts (inParens e.terseKinds ++ rest)) :
    Returns (primary n) ts e rest := by
  simp only [inParens, List.cons_append, List.append_assoc, List.nil_append] at hts
  refine returns_primary hts fun n => succeeds_advance hts (by simp) fun us hus => ?_
  refine (h.returns_delimited (.inr rfl) hus).bind fun vs hvs => ?_
  exact succeeds_consume hvs (by simp) fun ws hws => returns_pure hws

/-- An operand is read the same with its parentheses, if it needs them, and without. -/
theorem ReadsTerse.operand (h : ReadsTerse e) (hlevel : level ≤ k) (hrest : Bounded k rest)
    (hts : At ts (e.operandKinds k ++ rest)) (hthen : ∀ m us, At us rest → (climb m level e).Succeeds us Q) :
    (binary n level).Succeeds ts Q := by
  unfold Expression.operandKinds at hts
  split at hts
  · cases n with
    | zero => exact succeeds_outOfFuel
    | succ n =>
      rw [binary]
      exact (h.parens hts).bind fun us hus => hthen n us hus
  · next hk =>
    have hk : k ≤ e.level := Nat.not_lt.1 hk
    exact h (Nat.le_trans hlevel hk) (hrest.mono hk) hts hthen

theorem returns_literal {v : Value} (hts : At ts ((Expression.literal v).terseKinds ++ rest)) :
    Returns (primary n) ts (.literal v) rest := by
  rw [Expression.terseKinds] at hts
  split at hts
  · refine returns_primary hts fun n => succeeds_advance hts (by simp) fun us hus => succeeds_ask ?_
    rw [hus.current]
    refine succeeds_advance hus (by simp) fun vs hvs => ?_
    rw [Int.neg_neg, Int64.ofInt_toInt]
    exact returns_pure hvs
  · refine returns_primary hts fun n => succeeds_advance hts (by simp) fun us hus => ?_
    rw [Int64.ofInt_toInt]
    exact returns_pure hus

theorem returns_var {x : String} (hrest : rest.headD .endOfText ≠ .leftParen)
    (hts : At ts ((Expression.var x).terseKinds ++ rest)) : Returns (primary n) ts (.var x) rest := by
  rw [Expression.terseKinds] at hts
  refine returns_primary hts fun n => succeeds_advance hts (by simp) fun us hus => ?_
  exact succeeds_check_other (by rwa [hus.current]) (returns_pure hus)

theorem returns_call {f : String} {args : List Expression} (hargs : ∀ a ∈ args, ReadsTerse a)
    (hts : At ts ((Expression.call f args).terseKinds ++ rest)) : Returns (primary n) ts (.call f args) rest := by
  rw [Expression.terseKinds, Expression.terseKindsEach_eq] at hts
  refine returns_primary hts fun n => succeeds_advance hts (by simp) fun us hus => succeeds_check hus ?_
  have hitem : ∀ a ∈ args, ∀ ts rest, Delimited rest → At ts (a.terseKinds ++ rest) → Returns (binary n 0) ts a rest :=
    fun a ha ts rest hrest hts => ReadsTerse.returns_delimited (hargs a ha) hrest hts
  exact (returns_tuple hitem Expression.terseKinds_headD hus).bind fun vs hvs => returns_pure hvs

-- The operator is climbed to from its left operand, and then takes the right one, which ends where the whole does.
theorem readsTerse_binary {op : BinaryOp} {l r : Expression} (hl : ReadsTerse l) (hr : ReadsTerse r) :
    ReadsTerse (.binary op l r) := by
  intro n level ts rest Q hlevel hrest hts hthen
  rw [Expression.terseKinds_binary, List.append_assoc] at hts
  have hright : ∀ m us, At us (r.operandKinds (op.level + 1) ++ rest) → Returns (binary m (op.level + 1)) us r rest := by
    intro m us hus
    have hbelow : ∀ op', rest.headD .endOfText = .operator op' → op'.level < op.level + 1 :=
      fun op' hop' => Nat.lt_succ_of_le (hrest.operator op' hop')
    exact hr.operand (Nat.le_refl _) (hrest.mono (Nat.le_succ _)) hus fun k vs hvs => returns_climb_below hvs hbelow
  refine hl.operand hlevel (bounded_operator (Nat.le_refl _)) hts fun m us hus => ?_
  exact succeeds_climb_operator hlevel hus hright hthen

theorem readsTerse (he : e.Writable) : ReadsTerse e := by
  induction he with
  | call _ _ ih => exact readsTerse_of_primary fun n ts rest _ hts => returns_call ih hts
  | literal _ => exact readsTerse_of_primary fun n ts rest _ hts => returns_literal hts
  | var _ => exact readsTerse_of_primary fun n ts rest hrest hts => returns_var hrest.paren hts
  | binary _ _ ihl ihr => exact readsTerse_binary ihl ihr

theorem returns_result_terse (he : e.Writable) (hts : At ts (.keyword .result :: (e.terseKinds ++ [.endOfText]))) :
    Returns (statement n) ts (.result e) [.endOfText] := by
  cases n with
  | zero => exact succeeds_outOfFuel
  | succ n =>
    rw [statement]
    refine succeeds_ask ?_
    rw [hts.current]
    refine succeeds_advance hts (by simp) fun us hus => ?_
    have hread : Returns (binary n 0) us e [.endOfText] :=
      ReadsTerse.returns (readsTerse he) (Nat.zero_le _) (by simp) (by simp) hus
    exact hread.bind fun vs hvs => returns_pure hvs

theorem returns_untilEnd_one {item : Parse Statement} {s : Statement} (hts : (current ts).kind ≠ .endOfText)
    (hitem : Returns item ts s [.endOfText]) : Returns (untilEnd n item) ts [s] [.endOfText] := by
  cases n with
  | zero => exact succeeds_outOfFuel
  | succ n =>
    rw [untilEnd]
    refine succeeds_check_other hts (hitem.bind fun us hus => ?_)
    have hnone : Returns (untilEnd n item) us [] [.endOfText] := by
      cases n with
      | zero => exact succeeds_outOfFuel
      | succ n => exact succeeds_check hus (returns_pure hus)
    exact hnone.bind fun vs hvs => returns_pure hvs

end Parse

theorem return_terse (e : Expression) :
    "return " ++ e.terse = String.ofList (spell (.keyword .result :: e.terseKinds)) := by
  obtain ⟨k, ks, heq, -⟩ := e.terseKinds_starts
  have hspell : spell (.keyword .result :: e.terseKinds) = "return ".toList ++ spell e.terseKinds := by
    rw [heq]
    simp [spell, List.intercalate_cons_cons, TokenKind.spelling, Keyword.word]
  rw [hspell, String.ofList_append, String.ofList_toList, Expression.terse]

/-- An expression that is written with the fewest parentheses is read back. -/
theorem fewest_parentheses_suffice {e : Expression} (he : e.Writable) :
    parseProgram ("return " ++ e.terse) = .ok [.result e] := by
  have hscannable : Kinds.Scannable (.keyword .result :: e.terseKinds) := .cons trivial he.terseKinds_scannable
  obtain ⟨ts, htokens, hkinds⟩ := tokenize_spell hscannable
  obtain ⟨-, -, -, -, hscanned⟩ := scanned_of_tokenize htokens
  have hts : At ts (.keyword .result :: (e.terseKinds ++ [.endOfText])) := ⟨hscanned, hkinds⟩
  have hreads := Parse.returns_untilEnd_one (n := Parse.enough ts) (by simp [hts.current])
    (Parse.returns_result_terse (n := Parse.enough ts) he hts)
  obtain ⟨body, us, hparse, rfl, -⟩ := parseTokens_of_succeeds hreads
  rw [return_terse, parseProgram, htokens]
  simp only [hparse]

theorem isName_letter (c : Char) (hc : 'a' ≤ c ∧ c ≤ 'z') : IsName (String.ofList [c]) := by
  refine ⟨⟨c, [], String.toList_ofList, .inr (.inl hc), by simp⟩, fun k hk => ?_⟩
  have hlength := congrArg (fun s => s.toList.length) hk
  cases k <;> simp [Keyword.word] at hlength

def mixedChain : Expression :=
  .binary .and (.binary .sub (.binary .sub (.var "a") (.literal (-5))) (.binary .sub (.var "b") (.var "a")))
    (.binary .mul (.binary .add (.var "a") (.literal 1))
      (.call "f" [.binary .or (.var "a") (.var "b"), .literal (-0x7fffffffffffffff)]))

theorem mixedChain_writable : mixedChain.Writable := by
  have ha : (Expression.var "a").Writable := .var (isName_letter 'a' (by decide))
  have hb : (Expression.var "b").Writable := .var (isName_letter 'b' (by decide))
  have hargs : ∀ e ∈ [Expression.binary .or (.var "a") (.var "b"), .literal (-0x7fffffffffffffff)], e.Writable :=
    List.forall_mem_cons.2 ⟨.binary ha hb, List.forall_mem_singleton.2 (.literal (by decide))⟩
  exact .binary (.binary (.binary ha (.literal (by decide))) (.binary hb ha))
    (.binary (.binary ha (.literal (by decide))) (.call (isName_letter 'f' (by decide)) hargs))

theorem mixedChain_read_back :
    mixedChain.Writable ∧
      "return " ++ mixedChain.terse = "return a - - 5 - ( b - a ) && ( a + 1 ) * f ( a || b , - 9223372036854775807 )" ∧
        parseProgram ("return " ++ mixedChain.terse) = .ok [.result mixedChain] :=
  ⟨mixedChain_writable, rfl, fewest_parentheses_suffice mixedChain_writable⟩

end IntScript
