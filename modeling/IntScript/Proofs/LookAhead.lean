import IntScript.Proofs.ParseLaws

set_option autoImplicit false

namespace IntScript

namespace Parse

open Attempt

variable {α β : Type} {m m' : Parse α} {f f' : α → Parse β} {ts : List Token} {n n' : Nat}

/-- Where the first reader stops, the second stops likewise, whatever stands behind the token at the cursor. -/
def LocalAt (m m' : Parse α) (ts : List Token) : Prop :=
  ∀ r us, m ts = (r, us) → r ≠ .outOfFuel →
    ∃ read, ts = read ++ us ∧ ∀ vs, vs.head? = us.head? → m' (read ++ vs) = (r, vs)

def Local (m m' : Parse α) : Prop := ∀ ts, LocalAt m m' ts

theorem Local.same {r : Outcome SyntaxError α} {us : List Token} (h : Local m m') (hrun : m ts = (r, us))
    (hr : r ≠ .outOfFuel) : m' ts = (r, us) := by
  obtain ⟨read, rfl, hread⟩ := h ts r us hrun hr
  exact hread us rfl

theorem head?_append_congr {us vs : List Token} (read : List Token) (h : vs.head? = us.head?) :
    (read ++ vs).head? = (read ++ us).head? := by
  rw [List.head?_append, List.head?_append, h]

theorem current_congr {us vs : List Token} (h : vs.head? = us.head?) : current vs = current us := by
  cases us with
  | nil =>
    obtain rfl : vs = [] := List.head?_eq_none_iff.1 h
    rfl
  | cons u us =>
    obtain ⟨rest, rfl⟩ := List.head?_eq_some_iff.1 h
    rfl

section Rules

theorem local_outOfFuel : Local outOfFuel m' := by
  intro ts r us h hr
  cases h
  exact absurd rfl hr

theorem local_pure (a : α) : Local (Pure.pure a : Parse α) (Pure.pure a) := by
  intro ts r us h _
  cases h
  exact ⟨[], rfl, fun vs _ => rfl⟩

theorem local_unexpected (expected : Expectation) :
    Local (unexpected expected : Parse α) (unexpected expected) := by
  intro ts r us h _
  cases h
  refine ⟨[], rfl, fun vs hvs => ?_⟩
  change unexpected expected vs = _
  rw [unexpected, current_congr hvs]

theorem LocalAt.bind (hm : LocalAt m m' ts) (hf : ∀ a, Local (f a) (f' a)) : LocalAt (m >>= f) (m' >>= f') ts := by
  intro r us h hr
  rcases hfirst : m ts with ⟨a | e | _, mid⟩
  · rw [bind_of_done hfirst] at h
    obtain ⟨read, hts, hread⟩ := hm _ _ hfirst nofun
    obtain ⟨read', hmid, hread'⟩ := hf a mid r us h hr
    refine ⟨read ++ read', by rw [hts, hmid, List.append_assoc], fun vs hvs => ?_⟩
    have hhead : (read' ++ vs).head? = mid.head? := hmid ▸ head?_append_congr read' hvs
    rw [List.append_assoc, bind_of_done (hread _ hhead)]
    exact hread' vs hvs
  · rw [bind_of_failed hfirst] at h
    obtain ⟨read, hts, hread⟩ := hm _ _ hfirst nofun
    cases h
    exact ⟨read, hts, fun vs hvs => bind_of_failed (hread vs hvs) f'⟩
  · rw [bind_of_outOfFuel hfirst] at h
    cases h
    exact absurd rfl hr

theorem Local.bind (hm : Local m m') (hf : ∀ a, Local (f a) (f' a)) : Local (m >>= f) (m' >>= f') :=
  fun ts => (hm ts).bind hf

/-- A question that only the token at the cursor answers. -/
theorem localAt_ask {q : List Token → α} (hq : ∀ us, us.head? = ts.head? → q us = q ts)
    (h : LocalAt (f (q ts)) (f' (q ts)) ts) : LocalAt (.ask q >>= f) (.ask q >>= f') ts := by
  intro r us hrun hr
  obtain ⟨read, rfl, hread⟩ := h r us hrun hr
  refine ⟨read, rfl, fun vs hvs => ?_⟩
  change f' (q (read ++ vs)) (read ++ vs) = _
  rw [hq _ (head?_append_congr read hvs)]
  exact hread vs hvs

theorem local_ask {q : List Token → α} (hq : ∀ us vs, vs.head? = us.head? → q vs = q us)
    (h : ∀ a, Local (f a) (f' a)) : Local (.ask q >>= f) (.ask q >>= f') :=
  fun ts => localAt_ask (hq ts) (h _ ts)

theorem local_check {k : TokenKind} {g g' : Bool → Parse β} (hyes : Local (g true) (g' true))
    (hno : Local (g false) (g' false)) : Local (check k >>= g) (check k >>= g') := by
  refine local_ask (fun us vs h => by rw [current_congr h]) fun b => ?_
  cases b with
  | true => exact hyes
  | false => exact hno

theorem local_advance : Local advance advance := by
  intro ts r us h _
  cases ts with
  | nil =>
    cases h
    refine ⟨[], rfl, fun vs hvs => ?_⟩
    obtain rfl : vs = [] := List.head?_eq_none_iff.1 hvs
    rfl
  | cons t ts =>
    by_cases hend : t.isEnd = true
    · -- at an end token nothing moves
      have hstay : ∀ rest, behind (t :: rest) = t :: rest := fun rest => if_pos hend
      change (Outcome.done (), behind (t :: ts)) = (r, us) at h
      rw [hstay] at h
      cases h
      refine ⟨[], rfl, fun vs hvs => ?_⟩
      obtain ⟨rest, rfl⟩ := List.head?_eq_some_iff.1 hvs
      change (Outcome.done (), behind (t :: rest)) = _
      rw [hstay]
    · have hgo : ∀ rest, behind (t :: rest) = rest := fun rest => if_neg hend
      change (Outcome.done (), behind (t :: ts)) = (r, us) at h
      rw [hgo] at h
      cases h
      refine ⟨[t], rfl, fun vs hvs => ?_⟩
      change (Outcome.done (), behind (t :: vs)) = _
      rw [hgo]

theorem local_accept (k : TokenKind) : Local (accept k) (accept k) :=
  local_check (local_advance.bind fun _ => local_pure true) (local_pure false)

theorem local_consume (k : TokenKind) : Local (consume k) (consume k) :=
  local_check local_advance (local_unexpected _)

theorem local_name (role : NameRole) : Local (name role) (name role) := by
  refine local_ask (fun us vs h => by rw [current_congr h]) fun k => ?_
  cases k with
  | identifier x => exact local_advance.bind fun _ => local_pure x
  | _ => exact local_unexpected _

end Rules

section Expressions

theorem local_commaList {item item' : Parse α} (hitem : Local item item') (hn : n ≤ n') :
    Local (commaList n item) (commaList n' item') := by
  induction n generalizing n' with
  | zero => exact local_outOfFuel
  | succ n ih =>
    obtain ⟨k, rfl⟩ := Nat.exists_eq_add_of_lt hn
    refine hitem.bind fun first => (local_accept .comma).bind fun more => ?_
    cases more with
    | true => exact (ih (by omega)).bind fun rest => local_pure (first :: rest)
    | false => exact local_pure [first]

theorem local_tuple {item item' : Parse α} (hitem : Local item item') (hn : n ≤ n') :
    Local (tuple n item) (tuple n' item') := by
  refine (local_consume .leftParen).bind fun _ => local_check ?_ ?_
  · exact (local_consume .rightParen).bind fun _ => local_pure []
  · refine (local_commaList hitem hn).bind fun items => ?_
    exact (local_consume .rightParen).bind fun _ => local_pure items

theorem local_negated : Local negated negated := by
  refine local_advance.bind fun _ => local_ask (fun us vs h => by rw [current_congr h]) fun k => ?_
  cases k with
  | integer i => exact local_advance.bind fun _ => local_pure _
  | _ => exact local_unexpected _

theorem local_operand {inner inner' : Parse Expression} (hinner : Local inner inner') (hn : n ≤ n') (k : TokenKind) :
    Local (operand n inner k) (operand n' inner' k) := by
  cases k with
  | integer i => exact local_advance.bind fun _ => local_pure _
  | identifier x =>
    refine local_advance.bind fun _ => local_check ?_ (local_pure _)
    exact (local_tuple hinner hn).bind fun args => local_pure _
  | leftParen =>
    refine local_advance.bind fun _ => hinner.bind fun e => ?_
    exact (local_consume .rightParen).bind fun _ => local_pure e
  | operator op =>
    rw [operand, operand]
    by_cases hsub : op = .sub
    · rw [if_pos hsub]
      exact local_negated
    · rw [if_neg hsub]
      exact local_unexpected _
  | _ => exact local_unexpected _

theorem local_expressions (hn : n ≤ n') :
    (∀ level, Local (binary n level) (binary n' level)) ∧
      (∀ level left, Local (climb n level left) (climb n' level left)) ∧ Local (primary n) (primary n') := by
  induction n generalizing n' with
  | zero => exact ⟨fun _ => local_outOfFuel, fun _ _ => local_outOfFuel, local_outOfFuel⟩
  | succ n ih =>
    obtain ⟨k, rfl⟩ := Nat.exists_eq_add_of_lt hn
    have hle : n ≤ n + k := by omega
    obtain ⟨hbinary, hclimb, hprimary⟩ := ih hle
    refine ⟨fun level => ?_, fun level left => ?_, ?_⟩
    · exact hprimary.bind fun left => hclimb level left
    · refine local_ask (fun us vs h => by rw [current_congr h]) fun found => ?_
      cases found with
      | none => exact local_pure left
      | some op =>
        by_cases hlevel : op.level < level
        · simp only [hlevel, if_true]
          exact local_pure left
        · simp only [hlevel, if_false]
          refine local_advance.bind fun _ => ?_
          exact (hbinary (op.level + 1)).bind fun right => hclimb level (.binary op left right)
    · refine local_ask (fun us vs h => by rw [current_congr h]) fun kind => ?_
      exact local_operand (hbinary 0) hle kind

theorem local_expression (hn : n ≤ n') : Local (expression n) (expression n') := (local_expressions hn).1 0

theorem local_condition (hn : n ≤ n') : Local (condition n) (condition n') := by
  refine (local_consume .leftParen).bind fun _ => (local_expression hn).bind fun e => ?_
  exact (local_consume .rightParen).bind fun _ => local_pure e

end Expressions

section Statements

variable {item item' : Parse Statement}

theorem local_untilBrace (hitem : Local item item') (hn : n ≤ n') : Local (untilBrace n item) (untilBrace n' item') := by
  induction n generalizing n' with
  | zero => exact local_outOfFuel
  | succ n ih =>
    obtain ⟨k, rfl⟩ := Nat.exists_eq_add_of_lt hn
    refine local_check (local_pure []) (local_check (local_unexpected _) ?_)
    exact hitem.bind fun first => (ih (by omega)).bind fun rest => local_pure (first :: rest)

theorem local_braced (hitem : Local item item') (hn : n ≤ n') : Local (braced n item) (braced n' item') := by
  refine (local_consume .leftBrace).bind fun _ => (local_untilBrace hitem hn).bind fun body => ?_
  exact (local_consume .rightBrace).bind fun _ => local_pure body

theorem local_untilEnd (hitem : Local item item') (hn : n ≤ n') : Local (untilEnd n item) (untilEnd n' item') := by
  induction n generalizing n' with
  | zero => exact local_outOfFuel
  | succ n ih =>
    obtain ⟨k, rfl⟩ := Nat.exists_eq_add_of_lt hn
    refine local_check (local_pure []) ?_
    exact hitem.bind fun first => (ih (by omega)).bind fun rest => local_pure (first :: rest)

theorem local_functionDefinition (hitem : Local item item') (hn : n ≤ n') :
    Local (functionDefinition n item) (functionDefinition n' item') := by
  refine local_advance.bind fun _ => (local_name .function).bind fun f => ?_
  refine (local_tuple (local_name .parameter) hn).bind fun params => ?_
  exact (local_braced hitem hn).bind fun body => local_pure _

theorem local_declaration (hn : n ≤ n') : Local (declaration n) (declaration n') := by
  refine local_advance.bind fun _ => (local_name .var).bind fun x => (local_accept .assign).bind fun more => ?_
  cases more with
  | true => exact (local_expression hn).bind fun e => local_pure _
  | false => exact local_pure _

theorem local_loop (hitem : Local item item') (hn : n ≤ n') : Local (loop n item) (loop n' item') := by
  refine local_advance.bind fun _ => (local_condition hn).bind fun c => ?_
  exact hitem.bind fun body => local_pure _

theorem local_conditional (hitem : Local item item') (hn : n ≤ n') : Local (conditional n item) (conditional n' item') := by
  refine local_advance.bind fun _ => (local_condition hn).bind fun c => hitem.bind fun s => ?_
  refine (local_accept _).bind fun more => ?_
  cases more with
  | true => exact hitem.bind fun s' => local_pure _
  | false => exact local_pure _

theorem local_result (hn : n ≤ n') : Local (result n) (result n') :=
  local_advance.bind fun _ => (local_expression hn).bind fun _ => local_pure _

theorem local_assignment (hn : n ≤ n') : Local (assignment n) (assignment n') := by
  refine (local_name .var).bind fun x => (local_consume .assign).bind fun _ => ?_
  exact (local_expression hn).bind fun e => local_pure _

theorem local_evaluation (hn : n ≤ n') : Local (evaluation n) (evaluation n') :=
  (local_expression hn).bind fun _ => local_pure _

theorem local_keywordStatement (hitem : Local item item') (hn : n ≤ n') (k : Keyword) :
    Local (keywordStatement n item k) (keywordStatement n' item' k) := by
  cases k with
  | function => exact local_functionDefinition hitem hn
  | var => exact local_declaration hn
  | loop => exact local_loop hitem hn
  | conditional => exact local_conditional hitem hn
  | result => exact local_result hn
  | alternative => exact local_evaluation hn

/-- The reader has left the token at the cursor behind, unless it ran out of fuel. -/
def Leaves (m : Parse α) (ts : List Token) : Prop :=
  ∀ r us, m ts = (r, us) → r ≠ .outOfFuel → us.length < ts.length

theorem Leaves.bind (hm : Leaves m ts) (hf : ∀ a, Local (f a) (f a)) : Leaves (m >>= f) ts := by
  intro r us h hr
  rcases hfirst : m ts with ⟨a | e | _, mid⟩
  · have hlt := hm _ _ hfirst nofun
    rw [bind_of_done hfirst] at h
    obtain ⟨read, rfl, -⟩ := hf a mid r us h hr
    rw [List.length_append] at hlt
    omega
  · rw [bind_of_failed hfirst] at h
    cases h
    exact hm _ _ hfirst nofun
  · rw [bind_of_outOfFuel hfirst] at h
    cases h
    exact absurd rfl hr

theorem leaves_outOfFuel : Leaves (outOfFuel : Parse α) ts := by
  intro r us h hr
  cases h
  exact absurd rfl hr

theorem leaves_advance (h : (current ts).kind ≠ .endOfText) : Leaves advance ts := by
  obtain ⟨t, us, rfl, ht⟩ := exists_of_current h rfl
  intro r vs hrun _
  change (Outcome.done (), behind (t :: us)) = (r, vs) at hrun
  rw [behind_cons (ht ▸ h)] at hrun
  cases hrun
  exact Nat.lt_succ_self _

variable {x : String}

theorem leaves_ask {q : List Token → α} (h : Leaves (f (q ts)) ts) : Leaves (.ask q >>= f) ts := h

theorem leaves_name {role : NameRole} (h : (current ts).kind = .identifier x) : Leaves (name role) ts := by
  have hgo : Leaves advance ts := leaves_advance (by simp [h])
  refine leaves_ask ?_
  rw [h]
  exact hgo.bind fun _ => local_pure x

theorem leaves_evaluation (h : (current ts).kind = .identifier x) (n : Nat) : Leaves (evaluation n) ts := by
  have hgo : Leaves advance ts := leaves_advance (by simp [h])
  have hprimary : ∀ k, Leaves (primary k) ts := by
    intro k
    cases k with
    | zero => exact leaves_outOfFuel
    | succ k =>
      refine leaves_ask ?_
      rw [h]
      refine hgo.bind fun _ => local_check ?_ (local_pure _)
      exact (local_tuple ((local_expressions (Nat.le_refl k)).1 0) (Nat.le_refl k)).bind fun args => local_pure _
  refine Leaves.bind ?_ fun _ => local_pure _
  cases n with
  | zero => exact leaves_outOfFuel
  | succ n => exact (hprimary n).bind fun left => (local_expressions (Nat.le_refl n)).2.1 0 left

theorem leaves_assignment (h : (current ts).kind = .identifier x) (n : Nat) : Leaves (assignment n) ts := by
  refine (leaves_name h).bind fun _ => (local_consume .assign).bind fun _ => ?_
  exact (local_expression (Nat.le_refl n)).bind fun _ => local_pure _

theorem nextIs_congr {k : TokenKind} (t : Token) {us vs : List Token} (h : vs.head? = us.head?) :
    nextIs k (t :: vs) = nextIs k (t :: us) := by
  cases us with
  | nil =>
    obtain rfl : vs = [] := List.head?_eq_none_iff.1 h
    rfl
  | cons u us =>
    obtain ⟨rest, rfl⟩ := List.head?_eq_some_iff.1 h
    rfl

-- The one question about a second token is safe, for whichever way it is answered that token is reached.
theorem localAt_checkNext {k : TokenKind} {g g' : Bool → Parse β}
    (h : LocalAt (g (nextIs k ts)) (g' (nextIs k ts)) ts) (hleaves : Leaves (g (nextIs k ts)) ts) :
    LocalAt (checkNext k >>= g) (checkNext k >>= g') ts := by
  intro r us hrun hr
  have hlt := hleaves r us hrun hr
  obtain ⟨read, rfl, hread⟩ := h r us hrun hr
  refine ⟨read, rfl, fun vs hvs => ?_⟩
  cases read with
  | nil => exact absurd hlt (Nat.lt_irrefl _)
  | cons t read =>
    change g' (nextIs k (t :: (read ++ vs))) (t :: read ++ vs) = _
    rw [nextIs_congr t (head?_append_congr read hvs)]
    exact hread vs hvs

theorem localAt_statementFrom (hitem : Local item item') (hn : n ≤ n') (ts : List Token) :
    LocalAt (statementFrom n item (current ts).kind) (statementFrom n' item' (current ts).kind) ts := by
  generalize hk : (current ts).kind = k
  cases k with
  | keyword k => exact local_keywordStatement hitem hn k ts
  | leftBrace => exact (local_braced hitem hn).bind (fun body => local_pure _) ts
  | identifier x =>
    rw [statementFrom, statementFrom]
    refine localAt_checkNext ?_ ?_
    · cases nextIs .assign ts with
      | true => exact local_assignment hn ts
      | false => exact local_evaluation hn ts
    · cases nextIs .assign ts with
      | true => exact leaves_assignment hk n
      | false => exact leaves_evaluation hk n
  | _ => exact local_evaluation hn ts

theorem local_statement (hn : n ≤ n') : Local (statement n) (statement n') := by
  induction n generalizing n' with
  | zero => exact local_outOfFuel
  | succ n ih =>
    obtain ⟨k, rfl⟩ := Nat.exists_eq_add_of_lt hn
    intro ts
    refine localAt_ask (fun us h => by rw [current_congr h]) ?_
    exact localAt_statementFrom (ih (by omega)) (by omega) ts

theorem local_program (hn : n ≤ n') : Local (program n) (program n') := local_untilEnd (local_statement hn) hn

theorem program_of_enough (hn : enough ts ≤ n) :
    program n ts = (.ofExcept (parseTokens ts).1, (parseTokens ts).2) := by
  unfold parseTokens
  split
  next outcome us h =>
  have hne : outcome ≠ .outOfFuel := fun houtcome => (ends_program ts).1 (by rw [h, houtcome])
  rw [(local_program hn).same h hne]
  cases outcome with
  | done body => rfl
  | failed e => rfl
  | outOfFuel => exact absurd rfl hne

end Statements

end Parse

/-- Other tokens behind the one at which reading stopped change nothing. -/
theorem parseTokens_behind {before us vs : List Token} {r : Except SyntaxError Block}
    (h : parseTokens (before ++ us) = (r, us)) (hvs : vs.head? = us.head?) : parseTokens (before ++ vs) = (r, vs) := by
  have hrun := Parse.program_of_enough (Nat.le_max_left (Parse.enough (before ++ us)) (Parse.enough (before ++ vs)))
  have hother := Parse.program_of_enough (Nat.le_max_right (Parse.enough (before ++ us)) (Parse.enough (before ++ vs)))
  rw [h] at hrun
  obtain ⟨read, heq, hread⟩ := Parse.local_program (Nat.le_refl _) _ _ _ hrun (Outcome.ofExcept_ne_outOfFuel r)
  obtain rfl : before = read := List.append_cancel_right heq
  rw [hread vs hvs] at hother
  obtain ⟨hr, hrest⟩ := Prod.mk.inj hother
  exact Prod.ext (Outcome.ofExcept_inj hr).symm hrest.symm

/-- Put other tokens behind the one at which reading failed, and it fails in the same way. -/
theorem parseTokens_error_behind {before us vs : List Token} {e : SyntaxError}
    (h : Parse.program (Parse.enough (before ++ us)) (before ++ us) = (.failed e, us)) (hvs : vs.head? = us.head?) :
    (parseTokens (before ++ vs)).1 = .error e := by
  rcases hread : parseTokens (before ++ us) with ⟨r, rest⟩
  rw [Parse.program_of_enough (Nat.le_refl _), hread] at h
  obtain ⟨hr, rfl⟩ := Prod.mk.inj h
  obtain rfl : r = .error e := Outcome.ofExcept_inj hr
  rw [parseTokens_behind hread hvs]

end IntScript
