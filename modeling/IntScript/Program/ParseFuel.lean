import IntScript.Program.Parse

set_option autoImplicit false

namespace IntScript.Parse

variable {α β : Type}

/-- The attempt does not run out of fuel at these tokens, and gives no token back. -/
def Ends (m : Parse α) (ts : List Token) : Prop :=
  (m ts).1 ≠ .outOfFuel ∧ (m ts).2.length ≤ ts.length

/-- The attempt ends, and has taken a token if it succeeds. -/
def Eats (m : Parse α) (ts : List Token) : Prop :=
  Ends m ts ∧ ∀ a, (m ts).1 = .done a → (m ts).2.length < ts.length

theorem ends_pure (a : α) (ts : List Token) : Ends (pure a : Parse α) ts :=
  ⟨nofun, Nat.le_refl _⟩

theorem eats_unexpected (expected : Expectation) (ts : List Token) :
    Eats (unexpected expected : Parse α) ts :=
  ⟨⟨nofun, Nat.le_refl _⟩, nofun⟩

theorem Ends.bind {m : Parse α} {f : α → Parse β} {ts : List Token} (hm : Ends m ts)
    (hf : ∀ a us, us.length ≤ ts.length → Ends (f a) us) : Ends (m >>= f) ts := by
  obtain ⟨hfuel, hlen⟩ := hm
  rcases h : m ts with ⟨a | e | _, us⟩
  · rw [h] at hlen
    obtain ⟨h₁, h₂⟩ := hf a us hlen
    rw [Ends, Attempt.bind_of_done h]
    exact ⟨h₁, Nat.le_trans h₂ hlen⟩
  · rw [h] at hlen
    rw [Ends, Attempt.bind_of_failed h]
    exact ⟨nofun, hlen⟩
  · exact absurd (congrArg Prod.fst h) hfuel

theorem Eats.bind {m : Parse α} {f : α → Parse β} {ts : List Token} (hm : Eats m ts)
    (hf : ∀ a us, us.length < ts.length → Ends (f a) us) : Eats (m >>= f) ts := by
  obtain ⟨⟨hfuel, hlen⟩, hlt⟩ := hm
  rcases h : m ts with ⟨a | e | _, us⟩
  · have hus : us.length < ts.length := by
      have := hlt a (by rw [h])
      rwa [h] at this
    obtain ⟨h₁, h₂⟩ := hf a us hus
    rw [Eats, Ends, Attempt.bind_of_done h]
    exact ⟨⟨h₁, by omega⟩, fun _ _ => by omega⟩
  · rw [h] at hlen
    rw [Eats, Ends, Attempt.bind_of_failed h]
    exact ⟨⟨nofun, hlen⟩, nofun⟩
  · exact absurd (congrArg Prod.fst h) hfuel

theorem ends_ask {f : α → Parse β} {q : List Token → α} {ts : List Token} (h : Ends (f (q ts)) ts) :
    Ends ((.ask q : Parse α) >>= f) ts := h

theorem eats_ask {f : α → Parse β} {q : List Token → α} {ts : List Token} (h : Eats (f (q ts)) ts) :
    Eats ((.ask q : Parse α) >>= f) ts := h

theorem behind_length_le (ts : List Token) : (behind ts).length ≤ ts.length := by
  cases ts with
  | nil => exact Nat.le_refl _
  | cons t ts =>
    by_cases h : t.isEnd <;> simp [behind, h]

theorem behind_length_lt {ts : List Token} (h : (current ts).kind ≠ .endOfText) :
    (behind ts).length < ts.length := by
  cases ts with
  | nil => exact absurd rfl h
  | cons t ts =>
    have hend : t.isEnd = false := by simpa [Token.isEnd, current] using h
    simp [behind, hend]

theorem behind_of_end {ts : List Token} (h : (current ts).kind = .endOfText) : behind ts = ts := by
  cases ts with
  | nil => rfl
  | cons t ts =>
    have hend : t.isEnd = true := by simpa [Token.isEnd, current] using h
    simp [behind, hend]

theorem ends_advance (ts : List Token) : Ends advance ts :=
  ⟨nofun, behind_length_le ts⟩

theorem ends_advance_bind {f : Unit → Parse β} {ts : List Token} (h : Ends (f ()) (behind ts)) :
    Ends (advance >>= f) ts :=
  ⟨h.1, Nat.le_trans h.2 (behind_length_le ts)⟩

theorem eats_advance {ts : List Token} (h : (current ts).kind ≠ .endOfText) : Eats advance ts :=
  ⟨ends_advance ts, fun _ _ => behind_length_lt h⟩

theorem ends_accept (kind : TokenKind) (ts : List Token) : Ends (accept kind) ts := by
  refine ends_ask ?_
  split
  · exact (ends_advance ts).bind fun _ us _ => ends_pure true us
  · exact ends_pure false ts

theorem eats_consume {kind : TokenKind} (hkind : kind ≠ .endOfText) (ts : List Token) :
    Eats (consume kind) ts := by
  refine eats_ask ?_
  split
  · next h => exact eats_advance (by simp at h; rwa [h])
  · exact eats_unexpected _ ts

theorem eats_name (role : NameRole) (ts : List Token) : Eats (name role) ts := by
  refine eats_ask ?_
  split
  · next h => exact (eats_advance (by simp [h])).bind fun _ us _ => ends_pure _ us
  · exact eats_unexpected _ ts

theorem eats_commaList {item : Parse α} : ∀ {n : Nat} {ts : List Token}, ts.length < n →
    (∀ us : List Token, us.length ≤ ts.length → Eats item us) → Eats (commaList n item) ts
  | n + 1, ts, hn, hitem => by
    refine (hitem ts (Nat.le_refl _)).bind fun first us hus => ?_
    refine (ends_accept .comma us).bind fun more vs hvs => ?_
    split
    · refine (eats_commaList (by omega) fun ws hws => hitem ws (by omega)).1.bind fun rest ws _ => ?_
      exact ends_pure _ ws
    · exact ends_pure _ vs

theorem eats_tuple {item : Parse α} {n : Nat} {ts : List Token} (hn : ts.length ≤ n)
    (hitem : ∀ us : List Token, us.length < ts.length → Eats item us) : Eats (tuple n item) ts := by
  refine (eats_consume (by decide) ts).bind fun _ us hus => ends_ask ?_
  split
  · exact (eats_consume (by decide) us).1.bind fun _ vs _ => ends_pure _ vs
  · refine (eats_commaList (by omega) fun vs hvs => hitem vs (by omega)).1.bind fun items vs _ => ?_
    exact (eats_consume (by decide) vs).1.bind fun _ ws _ => ends_pure _ ws

theorem eats_negated {ts : List Token} (h : (current ts).kind ≠ .endOfText) : Eats negated ts := by
  refine (eats_advance h).bind fun _ us _ => ends_ask ?_
  split
  · exact (ends_advance us).bind fun _ vs _ => ends_pure _ vs
  · exact (eats_unexpected _ us).1

theorem eats_operand {n : Nat} {inner : Parse Expression} {ts : List Token} (hn : ts.length ≤ n)
    (hinner : ∀ us : List Token, us.length < ts.length → Eats inner us) :
    Eats (operand n inner (current ts).kind) ts := by
  unfold operand
  split
  · next h => exact (eats_advance (by simp [h])).bind fun _ us _ => ends_pure _ us
  · next h =>
    refine (eats_advance (by simp [h])).bind fun _ us hus => ends_ask ?_
    split
    · refine (eats_tuple (by omega) fun vs hvs => hinner vs (by omega)).1.bind fun args vs _ => ?_
      exact ends_pure _ vs
    · exact ends_pure _ us
  · next h =>
    refine (eats_advance (by simp [h])).bind fun _ us hus => ?_
    refine (hinner us hus).1.bind fun e vs _ => ?_
    exact (eats_consume (by decide) vs).1.bind fun _ ws _ => ends_pure _ ws
  · next h =>
    split
    · exact eats_negated (by simp [h])
    · exact eats_unexpected _ ts
  · exact eats_unexpected _ ts

theorem primary_at_end (n : Nat) {ts : List Token} (h : (current ts).kind = .endOfText) :
    primary (n + 1) ts = unexpected .expression ts := by
  rw [primary]
  change operand n (binary n 0) (current ts).kind ts = _
  rw [h]
  rfl

theorem eats_binary_at_end {n level : Nat} {ts : List Token} (hn : 2 ≤ n)
    (h : (current ts).kind = .endOfText) : Eats (binary n level) ts := by
  obtain ⟨n, rfl⟩ : ∃ k, n = k + 2 := ⟨n - 2, by omega⟩
  rw [Eats, Ends, binary, Attempt.bind_of_failed (primary_at_end n h)]
  exact ⟨⟨nofun, Nat.le_refl _⟩, nofun⟩

/-- Behind an operator, whatever its kind, an operand has its fuel. -/
theorem eats_behind_operator {n : Nat} {ts : List Token} {op : BinaryOp} (hop : (current ts).operator? = some op)
    (hn : 2 * ts.length ≤ n)
    (hbinary : ∀ us : List Token, 2 * us.length + 2 ≤ n → ∀ level, Eats (binary n level) us)
    (level : Nat) : Eats (binary n level) (behind ts) := by
  by_cases hend : (current ts).kind = .endOfText
  · have hpos : 0 < ts.length := by
      cases ts with
      | nil => cases hop
      | cons t ts => exact Nat.succ_pos _
    rw [behind_of_end hend]
    exact eats_binary_at_end (by omega) hend
  · have hlt := behind_length_lt hend
    exact hbinary _ (by omega) level

theorem eats_expressions : ∀ (n : Nat) (ts : List Token),
    (2 * ts.length + 2 ≤ n → ∀ level, Eats (binary n level) ts) ∧
    (2 * ts.length + 1 ≤ n → ∀ level left, Ends (climb n level left) ts) ∧
    (2 * ts.length + 1 ≤ n → Eats (primary n) ts) := by
  intro n
  induction n with
  | zero => exact fun ts => ⟨fun h => by omega, fun h => by omega, fun h => by omega⟩
  | succ n ih =>
    intro ts
    refine ⟨fun hn level => ?_, fun hn level left => ?_, fun hn => ?_⟩
    · rw [binary]
      exact ((ih ts).2.2 (by omega)).bind fun left us _ => (ih us).2.1 (by omega) level left
    · rw [climb]
      refine ends_ask ?_
      split
      · exact ends_pure _ ts
      · next op hop =>
        split
        · exact ends_pure _ ts
        · have hle := behind_length_le ts
          refine ends_advance_bind ?_
          refine ((eats_behind_operator hop (by omega) (fun us => (ih us).1) _).bind fun right us hus => ?_).1
          exact (ih us).2.1 (by omega) level _
    · rw [primary]
      exact eats_ask (eats_operand (by omega) fun us hus => (ih us).1 (by omega) 0)

theorem eats_expression {n : Nat} {ts : List Token} (hn : 2 * ts.length + 2 ≤ n) : Eats (expression n) ts :=
  (eats_expressions n ts).1 hn 0

theorem eats_condition {n : Nat} {ts : List Token} (hn : 2 * ts.length ≤ n) : Eats (condition n) ts := by
  refine (eats_consume (by decide) ts).bind fun _ us hus => ?_
  refine (eats_expression (by omega)).1.bind fun e vs _ => ?_
  exact (eats_consume (by decide) vs).1.bind fun _ ws _ => ends_pure _ ws

theorem ends_untilBrace {item : Parse Statement} : ∀ {n : Nat} {ts : List Token}, ts.length < n →
    (∀ us : List Token, us.length ≤ ts.length → Eats item us) → Ends (untilBrace n item) ts
  | n + 1, ts, hn, hitem => by
    rw [untilBrace]
    refine ends_ask ?_
    split
    · exact ends_pure _ ts
    · refine ends_ask ?_
      split
      · exact (eats_unexpected _ ts).1
      · refine ((hitem ts (Nat.le_refl _)).bind fun first us hus => ?_).1
        refine (ends_untilBrace (by omega) fun vs hvs => hitem vs (by omega)).bind fun rest vs _ => ?_
        exact ends_pure _ vs

theorem ends_untilEnd {item : Parse Statement} : ∀ {n : Nat} {ts : List Token}, ts.length < n →
    (∀ us : List Token, us.length ≤ ts.length → Eats item us) → Ends (untilEnd n item) ts
  | n + 1, ts, hn, hitem => by
    rw [untilEnd]
    refine ends_ask ?_
    split
    · exact ends_pure _ ts
    · refine ((hitem ts (Nat.le_refl _)).bind fun first us hus => ?_).1
      refine (ends_untilEnd (by omega) fun vs hvs => hitem vs (by omega)).bind fun rest vs _ => ?_
      exact ends_pure _ vs

theorem eats_braced {item : Parse Statement} {n : Nat} {ts : List Token} (hn : ts.length ≤ n)
    (hitem : ∀ us : List Token, us.length < ts.length → Eats item us) : Eats (braced n item) ts := by
  refine (eats_consume (by decide) ts).bind fun _ us hus => ?_
  refine (ends_untilBrace (by omega) fun vs hvs => hitem vs (by omega)).bind fun body vs _ => ?_
  exact (eats_consume (by decide) vs).1.bind fun _ ws _ => ends_pure _ ws

theorem eats_evaluation {n : Nat} {ts : List Token} (hn : 2 * ts.length + 2 ≤ n) :
    Eats (evaluation n) ts :=
  (eats_expression hn).bind fun _ us _ => ends_pure _ us

theorem eats_assignment {n : Nat} {ts : List Token} (hn : 2 * ts.length ≤ n) : Eats (assignment n) ts := by
  refine (eats_name .var ts).bind fun x us hus => ?_
  refine (eats_consume (by decide) us).1.bind fun _ vs hvs => ?_
  exact (eats_expression (by omega)).1.bind fun e ws _ => ends_pure _ ws

section Keywords

variable {n : Nat} {ts : List Token}

theorem eats_result (h : (current ts).kind ≠ .endOfText) (hn : 2 * ts.length ≤ n) : Eats (result n) ts := by
  refine (eats_advance h).bind fun _ us hus => ?_
  exact (eats_expression (by omega)).1.bind fun e vs _ => ends_pure _ vs

theorem eats_declaration (h : (current ts).kind ≠ .endOfText) (hn : 2 * ts.length ≤ n) :
    Eats (declaration n) ts := by
  refine (eats_advance h).bind fun _ us hus => ?_
  refine (eats_name .var us).1.bind fun x vs hvs => ?_
  refine (ends_accept .assign vs).bind fun given ws hws => ?_
  split
  · exact (eats_expression (by omega)).1.bind fun e xs _ => ends_pure _ xs
  · exact ends_pure _ ws

variable {item : Parse Statement}

theorem eats_functionDefinition (h : (current ts).kind ≠ .endOfText) (hn : ts.length ≤ n)
    (hitem : ∀ us : List Token, us.length < ts.length → Eats item us) :
    Eats (functionDefinition n item) ts := by
  refine (eats_advance h).bind fun _ us hus => ?_
  refine (eats_name .function us).1.bind fun f vs hvs => ?_
  refine (eats_tuple (by omega) fun ws _ => eats_name .parameter ws).1.bind fun params ws hws => ?_
  exact (eats_braced (by omega) fun xs hxs => hitem xs (by omega)).1.bind fun body xs _ => ends_pure _ xs

theorem eats_loop (h : (current ts).kind ≠ .endOfText) (hn : 2 * ts.length ≤ n)
    (hitem : ∀ us : List Token, us.length < ts.length → Eats item us) : Eats (loop n item) ts := by
  refine (eats_advance h).bind fun _ us hus => ?_
  refine (eats_condition (by omega)).1.bind fun c vs hvs => ?_
  exact (hitem vs (by omega)).1.bind fun body ws _ => ends_pure _ ws

theorem eats_conditional (h : (current ts).kind ≠ .endOfText) (hn : 2 * ts.length ≤ n)
    (hitem : ∀ us : List Token, us.length < ts.length → Eats item us) : Eats (conditional n item) ts := by
  refine (eats_advance h).bind fun _ us hus => ?_
  refine (eats_condition (by omega)).1.bind fun c vs hvs => ?_
  refine (hitem vs (by omega)).1.bind fun thenBranch ws hws => ?_
  refine (ends_accept _ ws).bind fun more xs hxs => ?_
  split
  · exact (hitem xs (by omega)).1.bind fun elseBranch ys _ => ends_pure _ ys
  · exact ends_pure _ xs

end Keywords

theorem eats_keywordStatement {n : Nat} {ts : List Token} {item : Parse Statement}
    (h : (current ts).kind ≠ .endOfText) (hn : 2 * ts.length + 2 ≤ n)
    (hitem : ∀ us : List Token, us.length < ts.length → Eats item us) (k : Keyword) :
    Eats (keywordStatement n item k) ts := by
  cases k with
  | function => exact eats_functionDefinition h (by omega) hitem
  | var => exact eats_declaration h (by omega)
  | loop => exact eats_loop h (by omega) hitem
  | conditional => exact eats_conditional h (by omega) hitem
  | result => exact eats_result h (by omega)
  | alternative => exact eats_evaluation hn

theorem eats_statementFrom {n : Nat} {ts : List Token} {item : Parse Statement}
    (hn : 2 * ts.length + 2 ≤ n) (hitem : ∀ us : List Token, us.length < ts.length → Eats item us) :
    Eats (statementFrom n item (current ts).kind) ts := by
  unfold statementFrom
  split
  · next k h => exact eats_keywordStatement (by simp [h]) hn hitem k
  · exact (eats_braced (by omega) hitem).bind fun body us _ => ends_pure _ us
  · refine eats_ask ?_
    split
    · exact eats_assignment (by omega)
    · exact eats_evaluation hn
  · exact eats_evaluation hn

theorem eats_statement : ∀ {n : Nat} {ts : List Token}, 2 * ts.length + 3 ≤ n → Eats (statement n) ts
  | n + 1, ts, hn => by
    rw [statement]
    exact eats_ask (eats_statementFrom (by omega) fun us hus => eats_statement (by omega))

/-- Fuel enough for a whole program. -/
def enough (ts : List Token) : Nat := 2 * ts.length + 3

theorem ends_program (ts : List Token) : Ends (program (enough ts)) ts :=
  ends_untilEnd (by unfold enough; omega) fun us hus => eats_statement (by unfold enough; omega)

end IntScript.Parse
