import IntScript.Proofs.IndexedReaders
import IntScript.Proofs.Seam

set_option autoImplicit false

/-! # No index out of range

Whatever the tokens are, as long as one of them is an end token, reading by index ends as reading from a list does,
and without a fault. One invariant of the cursor goes through all readers and survives every way in which they end:
the index has only grown, and is not behind the first end token. -/

namespace IntScript

namespace Indexed

open Attempt

variable {α β γ : Type} {ts : List Token} {stop : Nat} {c : Cursor}

/-- There is an end token at `stop`, and behind a minus sign only integers whose opposite is a value. -/
structure Guarded (ts : List Token) (stop : Nat) : Prop where
  ends : ∃ t, ts[stop]? = some t ∧ t.kind = .endOfText
  opposite : ∀ {i : Nat} {t u : Token} {us : List Token} {v : Int}, ts.drop i = t :: u :: us →
    t.kind = .operator .sub → u.kind = .integer v → Value.ofInt? (-v) = some (Int64.ofInt (-v))

theorem Guarded.lt_length (hg : Guarded ts stop) : stop < ts.length := by
  obtain ⟨t, ht, -⟩ := hg.ends
  exact (List.getElem?_eq_some_iff.1 ht).1

/-- The cursor reads these tokens, has only gone forward, and has not gone behind `stop`. -/
structure Sound (ts : List Token) (stop : Nat) (c : Cursor) : Prop where
  guarded : Guarded ts stop
  tokens : c.tokens = ts
  within : c.index ≤ stop
  ordered : (c.index :: c.past).Pairwise (· ≥ ·)

namespace Sound

theorem index_lt (hc : Sound ts stop c) : c.index < c.tokens.length := by
  rw [hc.tokens]
  exact Nat.lt_of_le_of_lt hc.within hc.guarded.lt_length

theorem rest_eq (hc : Sound ts stop c) : c.rest = Parse.current c.rest :: c.tokens.drop (c.index + 1) := by
  rw [Cursor.rest, List.drop_eq_getElem_cons hc.index_lt]
  rfl

theorem token_index (hc : Sound ts stop c) : c.tokens[c.index]? = some (Parse.current c.rest) := by
  rw [Cursor.rest, List.drop_eq_getElem_cons hc.index_lt]
  exact List.getElem?_eq_getElem hc.index_lt

theorem next (hc : Sound ts stop c) (h : (Parse.current c.rest).kind ≠ .endOfText) : Sound ts stop c.next := by
  refine ⟨hc.guarded, hc.tokens, ?_, List.pairwise_cons.2 ⟨fun i hi => ?_, hc.ordered⟩⟩
  · refine Nat.lt_of_le_of_ne hc.within fun heq => h ?_
    obtain ⟨t, ht, hend⟩ := hc.guarded.ends
    have htoken := hc.token_index
    rw [hc.tokens, heq, ht] at htoken
    cases htoken
    exact hend
  · rcases List.mem_cons.1 hi with rfl | hi
    · exact Nat.le_succ _
    · exact Nat.le_succ_of_le (List.rel_of_pairwise_cons hc.ordered hi)

theorem next_rest (hc : Sound ts stop c) (h : (Parse.current c.rest).kind ≠ .endOfText) :
    c.next.rest = Parse.behind c.rest := by
  rw [hc.rest_eq, Parse.behind_cons h]
  rfl

end Sound

section Looking

theorem tokenAt_apply {i : Nat} {t : Token} (h : c.tokens[i]? = some t) : tokenAt i c = (.done t, c) := by
  simp only [tokenAt, h]

theorem less_apply {i : Nat} (hi : 0 < i) (c : Cursor) : less i c = (.done (i - 1), c) := by
  cases i with
  | zero => exact absurd hi (Nat.lt_irrefl 0)
  | succ i => rfl

theorem peek_apply (hc : Sound ts stop c) : peek c = (.done (Parse.current c.rest), c) := by
  have hlt := hc.index_lt
  have hlast := less_apply (Nat.zero_lt_of_lt hlt) c
  change (less c.tokens.length >>= fun last => .ask Cursor.index >>= fun i => tokenAt (min i last)) c = _
  rw [bind_of_done hlast]
  change tokenAt (min c.index (c.tokens.length - 1)) c = _
  rw [Nat.min_eq_left (by omega), tokenAt_apply hc.token_index]

theorem peekKind_apply (hc : Sound ts stop c) : peekKind c = (.done (Parse.current c.rest).kind, c) := by
  rw [peekKind, bind_of_done (peek_apply hc)]
  rfl

theorem atEnd_apply (hc : Sound ts stop c) : atEnd c = (.done (Parse.current c.rest).isEnd, c) := by
  rw [atEnd, bind_of_done (peek_apply hc)]
  rfl

theorem operator?_apply (hc : Sound ts stop c) : operator? c = (.done (Parse.current c.rest).operator?, c) := by
  rw [operator?, bind_of_done (peek_apply hc)]
  rfl

theorem check_apply (hc : Sound ts stop c) {k : TokenKind} (hk : k ≠ .endOfText) :
    check k c = (.done ((Parse.current c.rest).kind == k), c) := by
  rw [check, bind_of_done (atEnd_apply hc), Token.isEnd]
  by_cases hend : (Parse.current c.rest).kind = .endOfText
  · rw [hend, beq_eq_false_iff_ne.2 hk.symm]
    rfl
  · rw [beq_eq_false_iff_ne.2 hend, if_neg (by simp), bind_of_done (peek_apply hc)]
    rfl

theorem checkNext_apply (hc : Sound ts stop c) (k : TokenKind) :
    checkNext k c = (.done (Parse.nextIs k c.rest), c) := by
  have hnext : c.tokens[c.index + 1]? = (c.tokens.drop (c.index + 1)).head? := List.head?_drop.symm
  rw [hc.rest_eq, checkNext, ask, hnext]
  cases c.tokens.drop (c.index + 1) with
  | nil => rfl
  | cons u us => rfl

theorem lookBack_apply (hc : Sound ts stop c) (hpos : 0 < c.index) : lookBack c = (.done (), c) := by
  have hlt := hc.index_lt
  obtain ⟨t, ht⟩ : ∃ t, c.tokens[c.index - 1]? = some t := ⟨_, List.getElem?_eq_getElem (by omega)⟩
  change (less c.index >>= fun previous => tokenAt previous >>= fun _ => Pure.pure ()) c = _
  rw [bind_of_done (less_apply hpos c), bind_of_done (tokenAt_apply ht)]
  rfl

theorem advance_at_end (hc : Sound ts stop c) (hpos : 0 < c.index)
    (hend : (Parse.current c.rest).kind = .endOfText) : advance c = (.done (), c) := by
  rw [advance, bind_of_done (atEnd_apply hc), Token.isEnd, if_pos (beq_iff_eq.2 hend)]
  exact lookBack_apply hc hpos

theorem advance_before_end (hc : Sound ts stop c) (h : (Parse.current c.rest).kind ≠ .endOfText) :
    advance c = (.done (), c.next) := by
  rw [advance, bind_of_done (atEnd_apply hc), Token.isEnd, if_neg fun hend => h (beq_iff_eq.1 hend)]
  exact lookBack_apply (hc.next h) (Nat.succ_pos _)

end Looking

/-- The reader by index ends as the reader from the list of the tokens that are left, and the cursor stays sound. -/
def FollowsAt (ts : List Token) (stop : Nat) (m : Read α) (m' : Parse α) (c : Cursor) : Prop :=
  ∃ d, Sound ts stop d ∧ c.index ≤ d.index ∧ m c = ((m' c.rest).1.mapError .refused, d) ∧ (m' c.rest).2 = d.rest

def Follows (ts : List Token) (stop : Nat) (m : Read α) (m' : Parse α) : Prop :=
  ∀ c, Sound ts stop c → FollowsAt ts stop m m' c

section Rules

variable {m : Read α} {m' : Parse α} {f : α → Read β} {f' : α → Parse β}

theorem FollowsAt.bind (hm : FollowsAt ts stop m m' c)
    (hf : ∀ a d, m' c.rest = (.done a, d.rest) → Sound ts stop d → c.index ≤ d.index →
      FollowsAt ts stop (f a) (f' a) d) : FollowsAt ts stop (m >>= f) (m' >>= f') c := by
  obtain ⟨d, hd, hle, hrun, hrest⟩ := hm
  rcases hfirst : m' c.rest with ⟨a | e | _, us⟩
  · rw [hfirst] at hrun hrest
    obtain rfl : us = d.rest := hrest
    rw [FollowsAt, bind_of_done hrun, bind_of_done hfirst]
    obtain ⟨d', hd', hle', hgoes⟩ := hf a d hfirst hd hle
    exact ⟨d', hd', Nat.le_trans hle hle', hgoes⟩
  · rw [hfirst] at hrun hrest
    rw [FollowsAt, bind_of_failed hrun, bind_of_failed hfirst]
    exact ⟨d, hd, hle, rfl, hrest⟩
  · rw [hfirst] at hrun hrest
    rw [FollowsAt, bind_of_outOfFuel hrun, bind_of_outOfFuel hfirst]
    exact ⟨d, hd, hle, rfl, hrest⟩

theorem Follows.bind (hm : Follows ts stop m m') (hf : ∀ a, Follows ts stop (f a) (f' a)) :
    Follows ts stop (m >>= f) (m' >>= f') :=
  fun c hc => (hm c hc).bind fun a d _ hd _ => hf a d hd

theorem follows_pure (a : α) : Follows ts stop (Pure.pure a) (Pure.pure a) :=
  fun c hc => ⟨c, hc, Nat.le_refl _, rfl, rfl⟩

theorem follows_outOfFuel : Follows ts stop (outOfFuel : Read α) outOfFuel :=
  fun c hc => ⟨c, hc, Nat.le_refl _, rfl, rfl⟩

theorem follows_unexpected (expected : Expectation) :
    Follows ts stop (unexpected expected : Read α) (Parse.unexpected expected) := by
  intro c hc
  refine ⟨c, hc, Nat.le_refl _, ?_, rfl⟩
  rw [unexpected, bind_of_done (peek_apply hc)]
  rfl

/-- Questions that are answered alike. -/
theorem followsAt_ask {q : Read γ} {q' : List Token → γ} {g : γ → Read β} {g' : γ → Parse β}
    (hq : q c = (.done (q' c.rest), c)) (h : FollowsAt ts stop (g (q' c.rest)) (g' (q' c.rest)) c) :
    FollowsAt ts stop (q >>= g) (.ask q' >>= g') c := by
  rw [FollowsAt, bind_of_done hq]
  exact h

theorem follows_peekKind {g : TokenKind → Read β} {g' : TokenKind → Parse β}
    (h : ∀ c, Sound ts stop c → FollowsAt ts stop (g (Parse.current c.rest).kind) (g' (Parse.current c.rest).kind) c) :
    Follows ts stop (peekKind >>= g) (Parse.peek >>= g') :=
  fun c hc => followsAt_ask (peekKind_apply hc) (h c hc)

theorem followsAt_check {k : TokenKind} {g : Bool → Read β} {g' : Bool → Parse β} (hc : Sound ts stop c)
    (hk : k ≠ .endOfText)
    (hyes : (Parse.current c.rest).kind = k → FollowsAt ts stop (g true) (g' true) c)
    (hno : FollowsAt ts stop (g false) (g' false) c) :
    FollowsAt ts stop (check k >>= g) (Parse.check k >>= g') c := by
  refine followsAt_ask (check_apply hc hk) ?_
  cases hkind : (Parse.current c.rest).kind == k with
  | true => exact hyes (beq_iff_eq.1 hkind)
  | false => exact hno

theorem follows_atEnd {g : Bool → Read β} {g' : Bool → Parse β} (hyes : Follows ts stop (g true) (g' true))
    (hno : Follows ts stop (g false) (g' false)) :
    Follows ts stop (atEnd >>= g) (Parse.check .endOfText >>= g') := by
  intro c hc
  refine followsAt_ask (atEnd_apply hc) ?_
  cases (Parse.current c.rest).kind == .endOfText with
  | true => exact hyes c hc
  | false => exact hno c hc

theorem followsAt_advance (hc : Sound ts stop c) (h : (Parse.current c.rest).kind ≠ .endOfText) :
    FollowsAt ts stop advance Parse.advance c := by
  refine ⟨c.next, hc.next h, Nat.le_succ _, ?_, (hc.next_rest h).symm⟩
  rw [advance_before_end hc h]
  rfl

/-- Behind the start, a token need not be passed to be looked back at. -/
theorem followsAt_advance_behind (hc : Sound ts stop c) (hpos : 0 < c.index) :
    FollowsAt ts stop advance Parse.advance c := by
  by_cases hend : (Parse.current c.rest).kind = .endOfText
  · refine ⟨c, hc, Nat.le_refl _, ?_, Parse.behind_of_end hend⟩
    rw [advance_at_end hc hpos hend]
    rfl
  · exact followsAt_advance hc hend

theorem followsAt_advance_bind {g : Unit → Read β} {g' : Unit → Parse β} (hc : Sound ts stop c)
    (h : (Parse.current c.rest).kind ≠ .endOfText) (hg : Follows ts stop (g ()) (g' ())) :
    FollowsAt ts stop (advance >>= g) (Parse.advance >>= g') c :=
  (followsAt_advance hc h).bind fun _ d _ hd _ => hg d hd

theorem follows_accept {k : TokenKind} (hk : k ≠ .endOfText) : Follows ts stop (accept k) (Parse.accept k) := by
  intro c hc
  refine followsAt_check hc hk (fun hkind => ?_) (follows_pure false c hc)
  exact followsAt_advance_bind hc (hkind ▸ hk) (follows_pure true)

theorem follows_consume {k : TokenKind} (hk : k ≠ .endOfText) : Follows ts stop (consume k) (Parse.consume k) := by
  intro c hc
  refine followsAt_check hc hk (fun hkind => ?_) (follows_unexpected _ c hc)
  exact followsAt_advance hc (hkind ▸ hk)

theorem follows_name (role : NameRole) : Follows ts stop (name role) (Parse.name role) := by
  refine follows_peekKind fun c hc => ?_
  generalize hk : (Parse.current c.rest).kind = k
  cases k with
  | identifier x => exact followsAt_advance_bind hc (by simp [hk]) (follows_pure x)
  | _ => exact follows_unexpected _ c hc

end Rules

section Expressions

variable {n : Nat}

theorem follows_commaList {item : Read α} {item' : Parse α} (hitem : Follows ts stop item item') (n : Nat) :
    Follows ts stop (commaList n item) (Parse.commaList n item') := by
  induction n with
  | zero => exact follows_outOfFuel
  | succ n ih =>
    refine hitem.bind fun first => (follows_accept (by decide)).bind fun more => ?_
    cases more with
    | true => exact ih.bind fun rest => follows_pure (first :: rest)
    | false => exact follows_pure [first]

theorem follows_tuple {item : Read α} {item' : Parse α} (hitem : Follows ts stop item item') (n : Nat) :
    Follows ts stop (tuple n item) (Parse.tuple n item') := by
  refine (follows_consume (by decide)).bind fun _ c hc => followsAt_check hc (by decide) (fun _ => ?_) ?_
  · exact (follows_consume (by decide)).bind (fun _ => follows_pure []) c hc
  · refine (follows_commaList hitem n).bind (fun items => ?_) c hc
    exact (follows_consume (by decide)).bind fun _ => follows_pure items

theorem followsAt_negated (hc : Sound ts stop c) (hsub : (Parse.current c.rest).kind = .operator .sub) :
    FollowsAt ts stop negated Parse.negated c := by
  have hend : (Parse.current c.rest).kind ≠ .endOfText := by simp [hsub]
  refine (followsAt_advance hc hend).bind fun _ d hmove hd _ => ?_
  refine followsAt_ask (peekKind_apply hd) ?_
  generalize hk : (Parse.current d.rest).kind = k
  cases k with
  | integer v =>
    refine (followsAt_advance hd (by simp [hk])).bind fun _ d' _ hd' _ => ?_
    -- the integer stands directly behind the minus sign
    have hrest : d.rest = c.tokens.drop (c.index + 1) := by
      have hbehind : Parse.behind c.rest = d.rest := congrArg Prod.snd hmove
      rw [← hbehind, hc.rest_eq, Parse.behind_cons hend]
    have htokens : ts.drop c.index = Parse.current c.rest :: Parse.current d.rest :: d.tokens.drop (d.index + 1) := by
      rw [← hd.rest_eq, hrest, ← hc.rest_eq, Cursor.rest, hc.tokens]
    have hvalue := hc.guarded.opposite htokens hsub hk
    rw [opposite, hvalue]
    exact follows_pure _ d' hd'
  | _ => exact follows_unexpected _ d hd

theorem followsAt_operand {inner : Read Expression} {inner' : Parse Expression}
    (hinner : Follows ts stop inner inner') (n : Nat) (hc : Sound ts stop c) :
    FollowsAt ts stop (operand n inner (Parse.current c.rest).kind)
      (Parse.operand n inner' (Parse.current c.rest).kind) c := by
  generalize hk : (Parse.current c.rest).kind = k
  cases k with
  | integer i => exact followsAt_advance_bind hc (by simp [hk]) (follows_pure _)
  | identifier x =>
    refine followsAt_advance_bind hc (by simp [hk]) fun d hd => ?_
    refine followsAt_check hd (by decide) (fun _ => ?_) (follows_pure _ d hd)
    exact (follows_tuple hinner n).bind (fun args => follows_pure _) d hd
  | leftParen =>
    refine followsAt_advance_bind hc (by simp [hk]) (hinner.bind fun e => ?_)
    exact (follows_consume (by decide)).bind fun _ => follows_pure e
  | operator op =>
    rw [operand, Parse.operand]
    by_cases hsub : op = .sub
    · rw [if_pos hsub, if_pos hsub]
      exact followsAt_negated hc (by rw [hk, hsub])
    · rw [if_neg hsub, if_neg hsub]
      exact follows_unexpected _ c hc
  | _ => exact follows_unexpected _ c hc

/-- A first operand has been passed, so that there is a token to look back at from the operators behind it. -/
theorem Sound.pos_of_primary {d : Cursor} {e : Expression} (hc : Sound ts stop c) (hd : Sound ts stop d)
    (h : Parse.primary n c.rest = (.done e, d.rest)) : 0 < d.index := by
  have hle : n ≤ max n (2 * c.rest.length + 1) := Nat.le_max_left _ _
  have hlong := (Parse.local_expressions hle).2.2.same h (by simp)
  have hlt := ((Parse.eats_expressions _ c.rest).2.2 (Nat.le_max_right n _)).2 e (by rw [hlong])
  rw [hlong, Cursor.rest, Cursor.rest, List.length_drop, List.length_drop, hc.tokens, hd.tokens] at hlt
  omega

theorem follows_expressions (n : Nat) :
    (∀ level, Follows ts stop (binary n level) (Parse.binary n level)) ∧
      (∀ level left c, Sound ts stop c → 0 < c.index →
        FollowsAt ts stop (climb n level left) (Parse.climb n level left) c) ∧
      Follows ts stop (primary n) (Parse.primary n) := by
  induction n with
  | zero => exact ⟨fun _ => follows_outOfFuel, fun _ _ c hc _ => follows_outOfFuel c hc, follows_outOfFuel⟩
  | succ n ih =>
    obtain ⟨hbinary, hclimb, hprimary⟩ := ih
    refine ⟨fun level c hc => ?_, fun level left c hc hpos => ?_, ?_⟩
    · refine (hprimary c hc).bind fun left d hleft hd _ => ?_
      exact hclimb level left d hd (hc.pos_of_primary hd hleft)
    · refine followsAt_ask (operator?_apply hc) ?_
      cases (Parse.current c.rest).operator? with
      | none => exact follows_pure left c hc
      | some op =>
        by_cases hlevel : op.level < level
        · simp only [hlevel, if_true]
          exact follows_pure left c hc
        · simp only [hlevel, if_false]
          -- the operator may be the end token itself: then nothing moves
          refine (followsAt_advance_behind hc hpos).bind fun _ d _ hd hle => ?_
          refine (hbinary (op.level + 1) d hd).bind fun right d' _ hd' hle' => ?_
          exact hclimb level (.binary op left right) d' hd' (by omega)
    · exact follows_peekKind fun c hc => followsAt_operand (hbinary 0) n hc

theorem follows_expression (n : Nat) : Follows ts stop (expression n) (Parse.expression n) :=
  (follows_expressions n).1 0

theorem follows_condition (n : Nat) : Follows ts stop (condition n) (Parse.condition n) := by
  refine (follows_consume (by decide)).bind fun _ => (follows_expression n).bind fun e => ?_
  exact (follows_consume (by decide)).bind fun _ => follows_pure e

end Expressions

section Statements

variable {item : Read Statement} {item' : Parse Statement}

theorem follows_untilBrace (hitem : Follows ts stop item item') (n : Nat) :
    Follows ts stop (untilBrace n item) (Parse.untilBrace n item') := by
  induction n with
  | zero => exact follows_outOfFuel
  | succ n ih =>
    intro c hc
    refine followsAt_check hc (by decide) (fun _ => follows_pure [] c hc) ?_
    refine follows_atEnd (follows_unexpected _) ?_ c hc
    exact hitem.bind fun first => ih.bind fun rest => follows_pure (first :: rest)

theorem follows_braced (hitem : Follows ts stop item item') (n : Nat) :
    Follows ts stop (braced n item) (Parse.braced n item') := by
  refine (follows_consume (by decide)).bind fun _ => (follows_untilBrace hitem n).bind fun body => ?_
  exact (follows_consume (by decide)).bind fun _ => follows_pure body

theorem follows_untilEnd (hitem : Follows ts stop item item') (n : Nat) :
    Follows ts stop (untilEnd n item) (Parse.untilEnd n item') := by
  induction n with
  | zero => exact follows_outOfFuel
  | succ n ih =>
    refine follows_atEnd (follows_pure []) ?_
    exact hitem.bind fun first => ih.bind fun rest => follows_pure (first :: rest)

theorem follows_evaluation (n : Nat) : Follows ts stop (evaluation n) (Parse.evaluation n) :=
  (follows_expression n).bind fun _ => follows_pure _

theorem follows_assignment (n : Nat) : Follows ts stop (assignment n) (Parse.assignment n) := by
  refine (follows_name .var).bind fun x => (follows_consume (by decide)).bind fun _ => ?_
  exact (follows_expression n).bind fun e => follows_pure _

theorem followsAt_keywordStatement (hitem : Follows ts stop item item') (n : Nat) (hc : Sound ts stop c)
    {k : Keyword} (hk : (Parse.current c.rest).kind = .keyword k) :
    FollowsAt ts stop (keywordStatement n item k) (Parse.keywordStatement n item' k) c := by
  have hend : (Parse.current c.rest).kind ≠ .endOfText := by simp [hk]
  cases k with
  | function =>
    refine followsAt_advance_bind hc hend ((follows_name .function).bind fun f => ?_)
    refine (follows_tuple (follows_name .parameter) n).bind fun params => ?_
    exact (follows_braced hitem n).bind fun body => follows_pure _
  | var =>
    refine followsAt_advance_bind hc hend ((follows_name .var).bind fun x => ?_)
    refine (follows_accept (by decide)).bind fun given => ?_
    cases given with
    | true => exact (follows_expression n).bind fun e => follows_pure _
    | false => exact follows_pure _
  | loop =>
    refine followsAt_advance_bind hc hend ((follows_condition n).bind fun e => ?_)
    exact hitem.bind fun body => follows_pure _
  | conditional =>
    refine followsAt_advance_bind hc hend ((follows_condition n).bind fun e => hitem.bind fun s => ?_)
    refine (follows_accept (by decide)).bind fun more => ?_
    cases more with
    | true => exact hitem.bind fun s' => follows_pure _
    | false => exact follows_pure _
  | result => exact followsAt_advance_bind hc hend ((follows_expression n).bind fun e => follows_pure _)
  | alternative => exact follows_evaluation n c hc

theorem followsAt_statementFrom (hitem : Follows ts stop item item') (n : Nat) (hc : Sound ts stop c) :
    FollowsAt ts stop (statementFrom n item (Parse.current c.rest).kind)
      (Parse.statementFrom n item' (Parse.current c.rest).kind) c := by
  generalize hk : (Parse.current c.rest).kind = k
  cases k with
  | keyword k => exact followsAt_keywordStatement hitem n hc hk
  | leftBrace => exact (follows_braced hitem n).bind (fun body => follows_pure _) c hc
  | identifier x =>
    refine followsAt_ask (checkNext_apply hc .assign) ?_
    cases Parse.nextIs .assign c.rest with
    | true => exact follows_assignment n c hc
    | false => exact follows_evaluation n c hc
  | _ => exact follows_evaluation n c hc

theorem follows_statement (n : Nat) : Follows ts stop (statement n) (Parse.statement n) := by
  induction n with
  | zero => exact follows_outOfFuel
  | succ n ih => exact follows_peekKind fun c hc => followsAt_statementFrom ih n hc

theorem follows_program (n : Nat) : Follows ts stop (program n) (Parse.program n) :=
  follows_untilEnd (follows_statement n) n

end Statements

end Indexed

theorem Parse.untilEnd_done_at_end {n : Nat} {item : Parse Statement} {ts us : List Token} {body : Block}
    (h : untilEnd n item ts = (.done body, us)) : (current us).kind = .endOfText := by
  induction n generalizing ts body with
  | zero => cases h
  | succ n ih =>
    by_cases hend : (current ts).kind = .endOfText
    · rw [untilEnd_of_end n item hend] at h
      cases h
      exact hend
    · rw [untilEnd_of_statement n item hend] at h
      obtain ⟨first, mid, -, h⟩ := Attempt.bind_eq_done.1 h
      obtain ⟨rest, last, hrest, h⟩ := Attempt.bind_eq_done.1 h
      obtain ⟨-, rfl⟩ := (Attempt.pure_eq_done _ _ _ _).1 h
      exact ih hrest

/-- The tokens at which each of a number of requests stops, for the next one to go on from there. -/
def parseStops : Nat → List Token → List (List Token)
  | 0, _ => []
  | k + 1, ts => (parseTokens ts).2 :: parseStops k (parseTokens ts).2

namespace Indexed

variable {ts : List Token} {stop fuel : Nat} {c : Cursor}

def answer : Except SyntaxError Block → Outcome Fault Block
  | .ok body => .done body
  | .error e => .failed (.refused e)

/-- One request: no fault, and not for want of fuel, and the cursor is where the list of tokens is. -/
theorem request_sound (hc : Sound ts stop c) (hfuel : Parse.enough ts ≤ fuel) :
    ∃ d, Sound ts stop d ∧ c.index ≤ d.index ∧ program fuel c = (answer (parseTokens c.rest).1, d) ∧
      (parseTokens c.rest).2 = d.rest := by
  have henough : Parse.enough c.rest ≤ fuel := by
    unfold Parse.enough at hfuel ⊢
    rw [Cursor.rest, List.length_drop, hc.tokens]
    omega
  obtain ⟨d, hd, hle, hrun, hrest⟩ := follows_program fuel c hc
  rw [Parse.program_of_enough henough] at hrun hrest
  refine ⟨d, hd, hle, hrun.trans ?_, hrest⟩
  cases (parseTokens c.rest).1 with
  | ok body => rfl
  | error e => rfl

theorem Sound.index_eq (hc : Sound ts stop c) (hfirst : ∀ i t, i < stop → ts[i]? = some t → t.kind ≠ .endOfText)
    (hend : (Parse.current c.rest).kind = .endOfText) : c.index = stop := by
  refine Nat.le_antisymm hc.within (Nat.le_of_not_lt fun hlt => ?_)
  have htoken := hc.token_index
  rw [hc.tokens] at htoken
  exact hfirst _ _ hlt htoken hend

theorem requests_eq (hc : Sound ts stop c) (hfuel : Parse.enough ts ≤ fuel) (k : Nat) :
    (requests fuel k c).map Prod.fst = (parseTimes k c.rest).map answer ∧
      (requests fuel k c).map (fun call => call.2.rest) = parseStops k c.rest := by
  induction k generalizing c with
  | zero => exact ⟨rfl, rfl⟩
  | succ k ih =>
    obtain ⟨d, hd, -, hrun, hrest⟩ := request_sound hc hfuel
    obtain ⟨hanswers, hstops⟩ := ih hd
    rw [requests, List.map_cons, List.map_cons, hrun, hanswers, hstops, ← hrest]
    exact ⟨rfl, rfl⟩

theorem program_done_at_end {body : Block} (hc : Sound ts stop c) (h : (program fuel c).1 = .done body) :
    (Parse.current (program fuel c).2.rest).kind = .endOfText := by
  obtain ⟨d, -, -, hrun, hrest⟩ := follows_program fuel c hc
  rw [hrun] at h ⊢
  rcases hlist : Parse.program fuel c.rest with ⟨body' | e | _, us⟩
  · rw [hlist] at hrest
    rw [← hrest]
    exact Parse.untilEnd_done_at_end hlist
  · rw [hlist] at h
    cases h
  · rw [hlist] at h
    cases h

theorem requests_sound (hc : Sound ts stop c) (hfuel : Parse.enough ts ≤ fuel) (k : Nat) :
    ∀ call ∈ requests fuel k c, Sound ts stop call.2 ∧
      ∀ body, call.1 = .done body → (Parse.current call.2.rest).kind = .endOfText := by
  induction k generalizing c with
  | zero => exact fun call hcall => absurd hcall List.not_mem_nil
  | succ k ih =>
    obtain ⟨d, hd, -, hrun, -⟩ := request_sound hc hfuel
    intro call hcall
    rcases List.mem_cons.1 hcall with rfl | hcall
    · exact ⟨by rwa [hrun], fun body hbody => program_done_at_end hc hbody⟩
    · rw [hrun] at hcall
      exact ih hd call hcall

/-- Tokens that are the same up to `stop` give the same answers, from wherever the cursor stands. -/
theorem parseTimes_congr {common us : List Token} (hlength : common.length = stop + 1)
    (hc : Sound (common ++ us) stop c) (vs : List Token) (k : Nat) :
    parseTimes k ((common ++ vs).drop c.index) = parseTimes k c.rest := by
  induction k generalizing c with
  | zero => rfl
  | succ k ih =>
    obtain ⟨d, hd, hle, -, hrest⟩ := request_sound hc (Nat.le_refl _)
    have hwithin := hd.within
    have hsplit : ∀ ws : List Token, (common ++ ws).drop c.index =
        (common.drop c.index).take (d.index - c.index) ++ (common ++ ws).drop d.index := by
      intro ws
      have hparts := List.take_append_drop (d.index - c.index) (common.drop c.index)
      rw [List.drop_drop, Nat.add_sub_of_le hle] at hparts
      rw [List.drop_append_of_le_length (by omega), List.drop_append_of_le_length (by omega), ← List.append_assoc,
        hparts]
    have hhead : ∀ ws : List Token, ((common ++ ws).drop d.index).head? = common[d.index]? := by
      intro ws
      rw [List.head?_drop, List.getElem?_append_left (by omega)]
    rcases hread : parseTokens c.rest with ⟨r, rest⟩
    rw [hread] at hrest
    obtain rfl : rest = d.rest := hrest
    have hother : parseTokens ((common ++ vs).drop c.index) = (r, (common ++ vs).drop d.index) := by
      rw [Cursor.rest, hc.tokens, hsplit us, Cursor.rest, hd.tokens] at hread
      rw [hsplit vs]
      exact parseTokens_behind hread ((hhead vs).trans (hhead us).symm)
    rw [parseTimes, parseTimes, hother, hread]
    exact congrArg (r :: ·) (ih hd)

theorem sound_start (hg : Guarded ts stop) : Sound ts stop (.start ts) :=
  ⟨hg, rfl, Nat.zero_le _, List.pairwise_singleton _ _⟩

theorem parseTimes_of_take {us : List Token} (hg : Guarded ts stop)
    (hus : us.take (stop + 1) = ts.take (stop + 1)) (k : Nat) : parseTimes k us = parseTimes k ts := by
  have hlength : (ts.take (stop + 1)).length = stop + 1 := List.length_take_of_le hg.lt_length
  have hts := List.take_append_drop (stop + 1) ts
  have hothers := List.take_append_drop (stop + 1) us
  rw [hus] at hothers
  rw [← hts] at hg
  have hsame : parseTimes k (ts.take (stop + 1) ++ us.drop (stop + 1)) =
      parseTimes k (ts.take (stop + 1) ++ ts.drop (stop + 1)) := parseTimes_congr hlength (sound_start hg) _ k
  rwa [hothers, hts] at hsame

end Indexed

open Indexed

def Token.HoldsValue (t : Token) : Prop :=
  ∀ i, t.kind = .integer i → -0x8000000000000000 ≤ i ∧ i < 0x8000000000000000

theorem Indexed.guarded_findIdx {ts : List Token} (hlast : ts.getLast?.map Token.kind = some .endOfText)
    (hvalues : ∀ t ∈ ts, t.HoldsValue)
    (hminus : ¬ [.operator .sub, .integer (-0x8000000000000000)] <:+: kinds ts) :
    Guarded ts (ts.findIdx Token.isEnd) := by
  refine ⟨?_, fun {i t u us v} hdrop ht hu => ?_⟩
  · obtain ⟨last, hlast, hend⟩ := Option.map_eq_some_iff.1 hlast
    have hlt : ts.findIdx Token.isEnd < ts.length :=
      List.findIdx_lt_length_of_exists ⟨last, List.mem_of_getLast? hlast, beq_iff_eq.2 hend⟩
    exact ⟨_, List.getElem?_eq_getElem hlt, beq_iff_eq.1 (List.findIdx_getElem (w := hlt))⟩
  · have hts : ts.take i ++ t :: u :: us = ts := hdrop ▸ List.take_append_drop i ts
    have hinfix : [t.kind, u.kind] <:+: kinds ts :=
      ⟨kinds (ts.take i), kinds us, by simpa using congrArg kinds hts⟩
    have hmem : u ∈ ts := List.mem_of_mem_drop (hdrop ▸ List.mem_cons_of_mem t List.mem_cons_self)
    obtain ⟨hlow, hhigh⟩ := hvalues u hmem v hu
    have hne : v ≠ -0x8000000000000000 := by
      rintro rfl
      exact hminus (by rwa [ht, hu] at hinfix)
    rw [Value.ofInt?, if_pos]
    simp only [Bool.and_eq_true, decide_eq_true_eq]
    omega

/-- Tokens of any kinds and texts, with an end token for the last of them, are read without a fault, however often a
program is asked for. -/
theorem reading_by_index_is_safe {ts : List Token} (hlast : ts.getLast?.map Token.kind = some .endOfText)
    (hvalues : ∀ t ∈ ts, t.HoldsValue)
    (hminus : ¬ [.operator .sub, .integer (-0x8000000000000000)] <:+: kinds ts)
    {fuel : Nat} (hfuel : Parse.enough ts ≤ fuel) (k : Nat) :
    (requests fuel k (.start ts)).map Prod.fst = (parseTimes k ts).map answer ∧
      (requests fuel k (.start ts)).map (fun call => call.2.rest) = parseStops k ts ∧
      (∀ call ∈ requests fuel k (.start ts), (call.2.index :: call.2.past).Pairwise (· ≥ ·) ∧
        (∀ i ∈ call.2.index :: call.2.past, i ≤ ts.findIdx Token.isEnd) ∧
        ∀ body, call.1 = .done body → call.2.index = ts.findIdx Token.isEnd) ∧
      ∀ us : List Token, us.take (ts.findIdx Token.isEnd + 1) = ts.take (ts.findIdx Token.isEnd + 1) →
        parseTimes k us = parseTimes k ts := by
  have hg := guarded_findIdx hlast hvalues hminus
  have hstart := sound_start hg
  have hfirst : ∀ i t, i < ts.findIdx Token.isEnd → ts[i]? = some t → t.kind ≠ .endOfText := by
    intro i t hi ht
    obtain ⟨hlt, rfl⟩ := List.getElem?_eq_some_iff.1 ht
    exact beq_eq_false_iff_ne.1 (List.not_of_lt_findIdx hi)
  obtain ⟨hanswers, hstops⟩ := requests_eq hstart hfuel k
  refine ⟨hanswers, hstops, fun call hcall => ?_, fun us hus => parseTimes_of_take hg hus k⟩
  obtain ⟨hsound, hdone⟩ := requests_sound hstart hfuel k call hcall
  refine ⟨hsound.ordered, fun i hi => ?_, fun body hbody => hsound.index_eq hfirst (hdone body hbody)⟩
  rcases List.mem_cons.1 hi with rfl | hi
  · exact hsound.within
  · exact Nat.le_trans (List.rel_of_pairwise_cons hsound.ordered hi) hsound.within

/-- The first end token bears the text of an operator, so that an operand is looked for behind it. -/
def operatorAtEnd : List Token :=
  [⟨.identifier "x", "y", ⟨1, 1⟩⟩, ⟨.endOfText, "+", ⟨1, 2⟩⟩, ⟨.operator .sub, "1", ⟨1, 3⟩⟩, ⟨.endOfText, "", ⟨1, 4⟩⟩]

theorem operatorAtEnd_read_safely :
    (requests 11 2 (.start operatorAtEnd)).map Prod.fst =
        [.failed (.refused ⟨⟨1, 2⟩, .expression, .endOfText⟩), .done []] ∧
      ∀ call ∈ requests 11 2 (.start operatorAtEnd), ∀ i ∈ call.2.index :: call.2.past, i ≤ 1 := by
  have hvalues : ∀ t ∈ operatorAtEnd, t.HoldsValue := by
    simp [operatorAtEnd, Token.HoldsValue]
  have hminus : ¬ [.operator .sub, .integer (-0x8000000000000000)] <:+: kinds operatorAtEnd := by
    simp [operatorAtEnd, List.infix_cons_iff]
  obtain ⟨hanswers, -, hcalls, -⟩ := reading_by_index_is_safe rfl hvalues hminus (Nat.le_refl 11) 2
  exact ⟨hanswers.trans rfl, fun call hcall => (hcalls call hcall).2.1⟩

end IntScript
