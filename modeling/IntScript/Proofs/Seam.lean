import IntScript.Proofs.Continuation
import IntScript.Proofs.LookAhead

set_option autoImplicit false

/-! # Text behind a program

A reader that stopped at the end of the tokens stops at the same place if more tokens follow instead, provided that they
begin a statement that cannot be taken for more of the last one. Inside, what was read is settled by one token of
look-ahead; so only the right edge of each phrase is looked at here. -/

namespace IntScript

namespace Parse

open Attempt

variable {α β : Type} {m m' : Parse α} {f f' : α → Parse β} {ts : List Token} {n n' : Nat}

/-- A statement or nothing follows, and its first token does not continue what was read. -/
structure Fits (read vs : List Token) : Prop where
  starts : (current vs).kind.startsStatement = true ∨ (current vs).kind = .endOfText
  notOperator : (current vs).operator? = none
  notCall : (current vs).kind = .leftParen → ∀ t ∈ read.getLast?, ∀ x, t.kind ≠ .identifier x

theorem Fits.drop {read read' vs : List Token} (h : Fits (read ++ read') vs) : Fits read' vs := by
  refine ⟨h.starts, h.notOperator, fun hparen t ht => h.notCall hparen t ?_⟩
  rw [List.getLast?_append, Option.mem_def.1 ht]
  rfl

theorem Fits.not_kind {read vs : List Token} {k : TokenKind} (h : Fits read vs) (hk : k.startsStatement = false)
    (hend : k ≠ .endOfText) : (current vs).kind ≠ k := by
  rintro rfl
  rcases h.starts with hstarts | hstops
  · rw [hstarts] at hk
    cases hk
  · exact hend hstops

/-- Where the first reader stops at the end, the second stops likewise before whatever fits. -/
def KeepsAt (m m' : Parse α) (ts : List Token) : Prop :=
  ∀ a p, m ts = (.done a, [.endAt p]) →
    ∃ read, ts = read ++ [.endAt p] ∧ ∀ vs, Fits read vs → m' (read ++ vs) = (.done a, vs)

def Keeps (m m' : Parse α) : Prop := ∀ ts, KeepsAt m m' ts

/-- The reader is not content with the end of the tokens. -/
def Demands (m : Parse α) : Prop := ∀ p a us, m [.endAt p] ≠ (.done a, us)

section Rules

theorem keeps_outOfFuel : Keeps outOfFuel m' := nofun

theorem keeps_unexpected (expected : Expectation) : Keeps (unexpected expected) m' := nofun

theorem keeps_pure (a : α) : Keeps (Pure.pure a : Parse α) (Pure.pure a) := by
  intro ts b p h
  cases h
  exact ⟨[], rfl, fun vs _ => rfl⟩

theorem demands_outOfFuel : Demands (outOfFuel : Parse α) := nofun

theorem demands_unexpected (expected : Expectation) : Demands (unexpected expected : Parse α) := nofun

theorem Demands.bind (hm : Demands m) : Demands (m >>= f) := by
  intro p b us h
  obtain ⟨a, mid, hfirst, -⟩ := bind_eq_done.1 h
  exact hm p a mid hfirst

theorem demands_ask {q : List Token → α} (h : ∀ p, Demands (f (q [.endAt p]))) : Demands (.ask q >>= f) :=
  fun p => h p p

theorem demands_consume {k : TokenKind} (hk : k ≠ .endOfText) : Demands (consume k) := by
  apply demands_ask
  intro p
  have hno : (TokenKind.endOfText == k) = false := beq_eq_false_iff_ne.2 hk.symm
  change Demands (if (TokenKind.endOfText == k) = true then advance else unexpected (.token k))
  rw [hno]
  exact demands_unexpected _

theorem demands_name (role : NameRole) : Demands (name role) := by
  apply demands_ask
  intro p
  exact demands_unexpected _

theorem LocalAt.before_end {read' : List Token} {a : α} {p : Position} (hlocal : LocalAt m m' ts)
    (h : m ts = (.done a, read' ++ [.endAt p])) (hedge : read' = [] → KeepsAt m m' ts) :
    ∃ read, ts = read ++ (read' ++ [.endAt p]) ∧
      ∀ vs, Fits (read ++ read') vs → m' (read ++ (read' ++ vs)) = (.done a, read' ++ vs) := by
  obtain ⟨read, hts, hread⟩ := hlocal _ _ h nofun
  refine ⟨read, hts, fun vs hvs => ?_⟩
  cases read' with
  | cons t rest => exact hread _ rfl
  | nil =>
    obtain ⟨same, heq, hsame⟩ := hedge rfl a p h
    obtain rfl : read = same := List.append_cancel_right (hts.symm.trans heq)
    rw [List.append_nil] at hvs
    exact hsame vs hvs

/-- The first reader stops at the end only if the second reads nothing. -/
theorem KeepsAt.bind_of (hlocal : LocalAt m m' ts) (hf : ∀ a, Keeps (f a) (f' a))
    (hedge : KeepsAt m m' ts ∨ ∀ a, Demands (f a)) : KeepsAt (m >>= f) (m' >>= f') ts := by
  intro b p h
  obtain ⟨a, mid, hfirst, hsecond⟩ := bind_eq_done.1 h
  obtain ⟨read', rfl, hread'⟩ := hf a mid b p hsecond
  have hreached : read' = [] → KeepsAt m m' ts := by
    rintro rfl
    exact hedge.resolve_right fun hdemands => hdemands a p b _ hsecond
  obtain ⟨read, rfl, hread⟩ := hlocal.before_end hfirst hreached
  refine ⟨read ++ read', (List.append_assoc _ _ _).symm, fun vs hvs => ?_⟩
  rw [List.append_assoc, bind_of_done (hread vs hvs)]
  exact hread' vs hvs.drop

theorem KeepsAt.bind (hm : KeepsAt m m' ts) (hlocal : LocalAt m m' ts) (hf : ∀ a, Keeps (f a) (f' a)) :
    KeepsAt (m >>= f) (m' >>= f') ts := .bind_of hlocal hf (.inl hm)

theorem Keeps.bind (hm : Keeps m m') (hlocal : Local m m') (hf : ∀ a, Keeps (f a) (f' a)) :
    Keeps (m >>= f) (m' >>= f') := fun ts => (hm ts).bind (hlocal ts) hf

/-- If more must follow, the first reader does not stop at the end. -/
theorem keeps_then (hlocal : Local m m') (hf : ∀ a, Keeps (f a) (f' a)) (hdemands : ∀ a, Demands (f a)) :
    Keeps (m >>= f) (m' >>= f') := fun ts => .bind_of (hlocal ts) hf (.inr hdemands)

/-- A question that only the token at the cursor answers; at the end, what fits must give the same answer. -/
theorem keepsAt_ask {q : List Token → α} (hq : ∀ us vs, vs.head? = us.head? → q vs = q us)
    (hend : ∀ b p, ts = [.endAt p] → f (q ts) ts = (.done b, ts) → ∀ vs, Fits [] vs → q vs = q ts)
    (h : KeepsAt (f (q ts)) (f' (q ts)) ts) : KeepsAt (.ask q >>= f) (.ask q >>= f') ts := by
  intro b p hrun
  obtain ⟨read, rfl, hread⟩ := h b p hrun
  refine ⟨read, rfl, fun vs hvs => ?_⟩
  have hsame : q (read ++ vs) = q (read ++ [.endAt p]) := by
    cases read with
    | nil => exact hend b p rfl hrun vs hvs
    | cons t rest => exact hq _ _ rfl
  change f' (q (read ++ vs)) (read ++ vs) = _
  rw [hsame]
  exact hread vs hvs

theorem keepsAt_advance (h : (current ts).kind ≠ .endOfText) : KeepsAt advance advance ts := by
  obtain ⟨t, us, rfl, ht⟩ := exists_of_current h rfl
  have hgo : ∀ rest, advance (t :: rest) = (.done (), rest) := by
    intro rest
    exact congrArg (Outcome.done (), ·) (behind_cons (ht ▸ h))
  intro a p hrun
  rw [hgo] at hrun
  cases hrun
  exact ⟨[t], rfl, fun vs _ => hgo vs⟩

variable {k : TokenKind}

theorem keeps_consume (hk : k ≠ .endOfText) : Keeps (consume k) (consume k) := by
  intro ts
  refine keepsAt_ask (fun us vs h => by rw [current_congr h]) (fun b p hts hrun => ?_) ?_
  · subst hts
    exact absurd hrun (demands_consume hk p b _)
  · split
    · next hfound => exact keepsAt_advance ((beq_iff_eq.1 hfound).symm ▸ hk)
    · exact keeps_unexpected _ ts

theorem keeps_accept (hk : k.startsStatement = false) (hne : k ≠ .endOfText) : Keeps (accept k) (accept k) := by
  intro ts
  refine keepsAt_ask (fun us vs h => by rw [current_congr h]) (fun b p hts _ vs hvs => ?_) ?_
  · subst hts
    exact (beq_eq_false_iff_ne.2 (hvs.not_kind hk hne)).trans (beq_eq_false_iff_ne.2 hne.symm).symm
  · split
    · next hfound =>
      have hhere : (current ts).kind ≠ .endOfText := (beq_iff_eq.1 hfound).symm ▸ hne
      exact (keepsAt_advance hhere).bind (local_advance ts) fun _ => keeps_pure true
    · exact keeps_pure false ts

theorem keeps_name (role : NameRole) : Keeps (name role) (name role) := by
  intro ts
  refine keepsAt_ask (fun us vs h => by rw [current_congr h]) (fun b p hts hrun => ?_) ?_
  · subst hts
    exact absurd hrun (demands_name role p b _)
  · split
    · next x hx =>
      have hhere : (current ts).kind ≠ .endOfText := by simp [hx]
      exact (keepsAt_advance hhere).bind (local_advance ts) fun _ => keeps_pure x
    · exact keeps_unexpected _ ts

theorem keeps_closed {g : α → β} (hlocal : Local m m') (hk : k ≠ .endOfText) :
    Keeps (m >>= fun a => consume k >>= fun _ => Pure.pure (g a))
      (m' >>= fun a => consume k >>= fun _ => Pure.pure (g a)) :=
  keeps_then hlocal (fun _ => (keeps_consume hk).bind (local_consume k) fun _ => keeps_pure _)
    fun _ => (demands_consume hk).bind

end Rules

section Expressions

variable {inner inner' : Parse Expression}

theorem demands_commaList {item : Parse α} (h : Demands item) (n : Nat) : Demands (commaList n item) := by
  cases n with
  | zero => exact demands_outOfFuel
  | succ n => exact h.bind

theorem keeps_tuple {item item' : Parse α} (hitem : Local item item') (hdemands : Demands item) (hn : n ≤ n') :
    Keeps (tuple n item) (tuple n' item') := by
  have hopen : Keeps (consume .leftParen) (consume .leftParen) := keeps_consume (by decide)
  have hclose : Keeps (consume .rightParen) (consume .rightParen) := keeps_consume (by decide)
  refine hopen.bind (local_consume _) fun _ ts => ?_
  refine keepsAt_ask (fun us vs h => by rw [current_congr h]) (fun b p hts hrun => ?_) ?_
  · subst hts
    exact absurd hrun ((demands_commaList hdemands n).bind p b _)
  · split
    · exact hclose.bind (local_consume _) (fun _ => keeps_pure []) ts
    · exact keeps_closed (local_commaList hitem hn) (by decide) ts

theorem keeps_negated : Keeps negated negated := by
  refine keeps_then local_advance (fun _ ts => ?_) fun _ => demands_ask fun p => demands_unexpected _
  refine keepsAt_ask (fun us vs h => by rw [current_congr h]) (fun b p hts hrun => ?_) ?_
  · subst hts
    cases hrun
  · split
    · next i hi =>
      have hhere : (current ts).kind ≠ .endOfText := by simp [hi]
      exact (keepsAt_advance hhere).bind (local_advance ts) fun _ => keeps_pure _
    · exact keeps_unexpected _ ts

theorem operand_name_apply (n : Nat) (inner : Parse Expression) (x : String) {t : Token} (ht : t.kind ≠ .endOfText)
    (rest : List Token) : operand n inner (.identifier x) (t :: rest) =
      if (current rest).kind = .leftParen then
        (tuple n inner >>= fun args => Pure.pure (Expression.call x args)) rest
      else (.done (.var x), rest) := by
  change (if ((current (behind (t :: rest))).kind == .leftParen) = true then
      tuple n inner >>= fun args => Pure.pure (Expression.call x args)
    else Pure.pure (Expression.var x) : Parse Expression) (behind (t :: rest)) = _
  rw [behind_cons ht]
  by_cases hparen : (current rest).kind = .leftParen
  · rw [if_pos hparen, if_pos (beq_iff_eq.2 hparen)]
  · rw [if_neg hparen, if_neg fun h => hparen (beq_iff_eq.1 h)]
    rfl

theorem keepsAt_operand_name (hinner : Local inner inner') (hdemands : Demands inner) (hn : n ≤ n') {x : String}
    (hx : (current ts).kind = .identifier x) :
    KeepsAt (operand n inner (.identifier x)) (operand n' inner' (.identifier x)) ts := by
  have hcall : Keeps (tuple n inner >>= fun args => Pure.pure (Expression.call x args))
      (tuple n' inner' >>= fun args => Pure.pure (Expression.call x args)) :=
    (keeps_tuple hinner hdemands hn).bind (local_tuple hinner hn) fun args => keeps_pure _
  obtain ⟨t, us, rfl, ht⟩ := exists_of_current (by simp) hx
  have hgo : t.kind ≠ .endOfText := by simp [ht]
  intro e p hrun
  rw [operand_name_apply n inner x hgo] at hrun
  split at hrun
  · next hparen =>
    obtain ⟨read, rfl, hread⟩ := hcall us e p hrun
    refine ⟨t :: read, rfl, fun vs hvs => ?_⟩
    cases read with
    | nil => cases hparen
    | cons u read =>
      have hsame : (current (u :: (read ++ vs))).kind = .leftParen := hparen
      change operand n' inner' (.identifier x) (t :: (u :: (read ++ vs))) = _
      rw [operand_name_apply n' inner' x hgo, if_pos hsame]
      have hlast : Fits ([t] ++ u :: read) vs := hvs
      exact hread vs hlast.drop
  · cases hrun
    refine ⟨[t], rfl, fun vs hvs => ?_⟩
    have hnot : (current vs).kind ≠ .leftParen := fun h => hvs.notCall h t rfl x ht
    change operand n' inner' (.identifier x) (t :: vs) = _
    rw [operand_name_apply n' inner' x hgo, if_neg hnot]

theorem keepsAt_operand (hinner : Local inner inner') (hdemands : Demands inner) (hn : n ≤ n') (ts : List Token) :
    KeepsAt (operand n inner (current ts).kind) (operand n' inner' (current ts).kind) ts := by
  generalize hkind : (current ts).kind = kind
  cases kind with
  | integer i =>
    have hhere : (current ts).kind ≠ .endOfText := by simp [hkind]
    exact (keepsAt_advance hhere).bind (local_advance ts) fun _ => keeps_pure _
  | identifier x => exact keepsAt_operand_name hinner hdemands hn hkind
  | leftParen =>
    exact keeps_then local_advance (fun _ => keeps_closed hinner (by decide)) (fun _ => hdemands.bind) ts
  | operator op =>
    rw [operand, operand]
    by_cases hsub : op = .sub
    · rw [if_pos hsub]
      exact keeps_negated ts
    · rw [if_neg hsub]
      exact keeps_unexpected _ ts
  | _ => exact keeps_unexpected _ ts

theorem demands_primary (n : Nat) : Demands (primary n) := by
  cases n with
  | zero => exact demands_outOfFuel
  | succ n => exact demands_ask fun p => demands_unexpected _

theorem demands_binary (n level : Nat) : Demands (binary n level) := by
  cases n with
  | zero => exact demands_outOfFuel
  | succ n => exact (demands_primary n).bind

theorem keeps_expressions (hn : n ≤ n') :
    (∀ level, Keeps (binary n level) (binary n' level)) ∧
      (∀ level left, Keeps (climb n level left) (climb n' level left)) ∧ Keeps (primary n) (primary n') := by
  induction n generalizing n' with
  | zero => exact ⟨fun _ => keeps_outOfFuel, fun _ _ => keeps_outOfFuel, keeps_outOfFuel⟩
  | succ n ih =>
    obtain ⟨k, rfl⟩ := Nat.exists_eq_add_of_lt hn
    have hle : n ≤ n + k := by omega
    obtain ⟨hbinary, hclimb, hprimary⟩ := ih hle
    obtain ⟨lbinary, -, lprimary⟩ := local_expressions hle
    refine ⟨fun level => ?_, fun level left ts => ?_, fun ts => ?_⟩
    · exact hprimary.bind lprimary fun left => hclimb level left
    · refine keepsAt_ask (fun us vs h => by rw [current_congr h]) (fun b p hts _ vs hvs => ?_) ?_
      · subst hts
        exact hvs.notOperator
      · split
        · exact keeps_pure left ts
        · next op hop =>
          split
          · exact keeps_pure left ts
          · refine keeps_then local_advance (fun _ => ?_) (fun _ => (demands_binary n _).bind) ts
            exact (hbinary _).bind (lbinary _) fun right => hclimb level (.binary op left right)
    · refine keepsAt_ask (fun us vs h => by rw [current_congr h]) (fun b p hts hrun => ?_) ?_
      · subst hts
        cases hrun
      · exact keepsAt_operand (lbinary 0) (demands_binary n 0) hle ts

theorem keeps_expression (hn : n ≤ n') : Keeps (expression n) (expression n') := (keeps_expressions hn).1 0

theorem demands_expression (n : Nat) : Demands (expression n) := demands_binary n 0

theorem keeps_condition (hn : n ≤ n') : Keeps (condition n) (condition n') := by
  have hopen : Keeps (consume .leftParen) (consume .leftParen) := keeps_consume (by decide)
  exact hopen.bind (local_consume _) fun _ => keeps_closed (local_expression hn) (by decide)

end Expressions

section Statements

variable {item item' : Parse Statement}

theorem keeps_braced (hitem : Local item item') (hn : n ≤ n') : Keeps (braced n item) (braced n' item') := by
  have hopen : Keeps (consume .leftBrace) (consume .leftBrace) := keeps_consume (by decide)
  exact hopen.bind (local_consume _) fun _ => keeps_closed (local_untilBrace hitem hn) (by decide)

theorem demands_braced (n : Nat) (item : Parse Statement) : Demands (braced n item) :=
  Demands.bind (demands_consume (by decide))

theorem keeps_functionDefinition (hitem : Local item item') (hn : n ≤ n') :
    Keeps (functionDefinition n item) (functionDefinition n' item') := by
  have hparams : Demands (tuple n (name .parameter)) := Demands.bind (demands_consume (by decide))
  have hbody : ∀ f params, Keeps (braced n item >>= fun body => Pure.pure (.function f params body))
      (braced n' item' >>= fun body => Pure.pure (Statement.function f params body)) := fun f params =>
    (keeps_braced hitem hn).bind (local_braced hitem hn) fun body => keeps_pure _
  refine keeps_then local_advance (fun _ => ?_) fun _ => (demands_name _).bind
  refine keeps_then (local_name _) (fun f => ?_) fun _ => hparams.bind
  exact keeps_then (local_tuple (local_name _) hn) (hbody f) fun _ => (demands_braced n item).bind

theorem keeps_declaration (hn : n ≤ n') : Keeps (declaration n) (declaration n') := by
  have hassign : Keeps (accept .assign) (accept .assign) := keeps_accept rfl (by decide)
  refine keeps_then local_advance (fun _ => ?_) fun _ => (demands_name _).bind
  refine (keeps_name _).bind (local_name _) fun x => hassign.bind (local_accept _) fun more => ?_
  cases more with
  | true => exact (keeps_expression hn).bind (local_expression hn) fun e => keeps_pure _
  | false => exact keeps_pure _

theorem demands_condition (n : Nat) : Demands (condition n) := Demands.bind (demands_consume (by decide))

theorem keeps_loop (hitem : Local item item') (hkeeps : Keeps item item') (hn : n ≤ n') :
    Keeps (loop n item) (loop n' item') := by
  refine keeps_then local_advance (fun _ => ?_) fun _ => (demands_condition n).bind
  refine (keeps_condition hn).bind (local_condition hn) fun c => ?_
  exact hkeeps.bind hitem fun body => keeps_pure _

/-- What follows a conditional is not its alternative. -/
theorem keeps_conditional (hitem : Local item item') (hkeeps : Keeps item item') (hn : n ≤ n') :
    Keeps (conditional n item) (conditional n' item') := by
  have helse : Keeps (accept (.keyword .alternative)) (accept (.keyword .alternative)) := keeps_accept rfl (by decide)
  refine keeps_then local_advance (fun _ => ?_) fun _ => (demands_condition n).bind
  refine (keeps_condition hn).bind (local_condition hn) fun c => ?_
  refine hkeeps.bind hitem fun s => helse.bind (local_accept _) fun more => ?_
  cases more with
  | true => exact hkeeps.bind hitem fun s' => keeps_pure _
  | false => exact keeps_pure _

theorem keeps_result (hn : n ≤ n') : Keeps (result n) (result n') := by
  refine keeps_then local_advance (fun _ => ?_) fun _ => (demands_expression n).bind
  exact (keeps_expression hn).bind (local_expression hn) fun _ => keeps_pure _

theorem keeps_assignment (hn : n ≤ n') : Keeps (assignment n) (assignment n') := by
  have hassign : Keeps (consume .assign) (consume .assign) := keeps_consume (by decide)
  refine (keeps_name _).bind (local_name _) fun x => hassign.bind (local_consume _) fun _ => ?_
  exact (keeps_expression hn).bind (local_expression hn) fun e => keeps_pure _

theorem keeps_evaluation (hn : n ≤ n') : Keeps (evaluation n) (evaluation n') :=
  (keeps_expression hn).bind (local_expression hn) fun _ => keeps_pure _

theorem keeps_keywordStatement (hitem : Local item item') (hkeeps : Keeps item item') (hn : n ≤ n') (k : Keyword) :
    Keeps (keywordStatement n item k) (keywordStatement n' item' k) := by
  cases k with
  | function => exact keeps_functionDefinition hitem hn
  | var => exact keeps_declaration hn
  | loop => exact keeps_loop hitem hkeeps hn
  | conditional => exact keeps_conditional hitem hkeeps hn
  | result => exact keeps_result hn
  | alternative => exact keeps_evaluation hn

/-- Behind a name at the end comes no assignment. -/
theorem keepsAt_checkNext {g g' : Bool → Parse β} (hhere : (current ts).kind ≠ .endOfText)
    (h : KeepsAt (g (nextIs .assign ts)) (g' (nextIs .assign ts)) ts) :
    KeepsAt (checkNext .assign >>= g) (checkNext .assign >>= g') ts := by
  intro b p hrun
  obtain ⟨read, rfl, hread⟩ := h b p hrun
  refine ⟨read, rfl, fun vs hvs => ?_⟩
  have hsame : nextIs .assign (read ++ vs) = nextIs .assign (read ++ [.endAt p]) := by
    rcases read with _ | ⟨t, _ | ⟨u, read⟩⟩
    · exact absurd rfl hhere
    · cases vs with
      | nil => rfl
      | cons v vs => exact beq_eq_false_iff_ne.2 (hvs.not_kind rfl (by decide))
    · rfl
  change g' (nextIs .assign (read ++ vs)) (read ++ vs) = _
  rw [hsame]
  exact hread vs hvs

theorem keepsAt_statementFrom (hitem : Local item item') (hkeeps : Keeps item item') (hn : n ≤ n') (ts : List Token) :
    KeepsAt (statementFrom n item (current ts).kind) (statementFrom n' item' (current ts).kind) ts := by
  generalize hkind : (current ts).kind = kind
  cases kind with
  | keyword k => exact keeps_keywordStatement hitem hkeeps hn k ts
  | leftBrace => exact (keeps_braced hitem hn).bind (local_braced hitem hn) (fun body => keeps_pure _) ts
  | identifier x =>
    have hhere : (current ts).kind ≠ .endOfText := by simp [hkind]
    apply keepsAt_checkNext hhere
    cases nextIs .assign ts with
    | true => exact keeps_assignment hn ts
    | false => exact keeps_evaluation hn ts
  | _ => exact keeps_evaluation hn ts

theorem demands_statement (n : Nat) : Demands (statement n) := by
  cases n with
  | zero => exact demands_outOfFuel
  | succ n => exact demands_ask fun p => (demands_expression n).bind

theorem keeps_statement (hn : n ≤ n') : Keeps (statement n) (statement n') := by
  induction n generalizing n' with
  | zero => exact keeps_outOfFuel
  | succ n ih =>
    obtain ⟨k, rfl⟩ := Nat.exists_eq_add_of_lt hn
    have hle : n ≤ n + k := by omega
    intro ts
    refine keepsAt_ask (fun us vs h => by rw [current_congr h]) (fun b p hts hrun => ?_) ?_
    · subst hts
      exact absurd hrun (demands_statement (n + 1) p b _)
    · exact keepsAt_statementFrom (local_statement hle) (ih hle) hle ts

theorem untilEnd_of_end (n : Nat) (item : Parse Statement) (h : (current ts).kind = .endOfText) :
    untilEnd (n + 1) item ts = (.done [], ts) := by
  change (if ((current ts).kind == .endOfText) = true then Pure.pure [] else _ : Parse Block) ts = _
  rw [if_pos (beq_iff_eq.2 h)]
  rfl

theorem untilEnd_of_statement (n : Nat) (item : Parse Statement) (h : (current ts).kind ≠ .endOfText) :
    untilEnd (n + 1) item ts =
      (item >>= fun first => untilEnd n item >>= fun rest => Pure.pure (first :: rest)) ts := by
  change (if ((current ts).kind == .endOfText) = true then Pure.pure [] else
    item >>= fun first => untilEnd n item >>= fun rest => Pure.pure (first :: rest) : Parse Block) ts = _
  rw [if_neg fun hend => h (beq_iff_eq.1 hend)]

/-- Statements read up to the end, and then those of the tokens that stand there instead. -/
theorem untilEnd_append (hitem : Local item item') (hkeeps : Keeps item item') (hself : Local item' item') {k : Nat}
    {body rest : Block} {p : Position} {vs us : List Token} (hrest : untilEnd k item' vs = (.done rest, us))
    (h : untilEnd n item ts = (.done body, [.endAt p])) :
    ∃ read, ts = read ++ [.endAt p] ∧
      (Fits read vs → untilEnd (n + k) item' (read ++ vs) = (.done (body ++ rest), us)) := by
  induction n generalizing ts body with
  | zero => cases h
  | succ n ih =>
    have hfuel : n + 1 + k = n + k + 1 := by omega
    by_cases hend : (current ts).kind = .endOfText
    · rw [untilEnd_of_end n item hend] at h
      cases h
      refine ⟨[], rfl, fun _ => ?_⟩
      -- what follows has been read with less fuel
      exact (local_untilEnd hself (Nat.le_add_left k (n + 1))).same hrest nofun
    · rw [untilEnd_of_statement n item hend] at h
      obtain ⟨first, mid, hfirst, h⟩ := bind_eq_done.1 h
      obtain ⟨more, last, hmore, h⟩ := bind_eq_done.1 h
      obtain ⟨rfl, rfl⟩ := (pure_eq_done _ _ _ _).1 h
      obtain ⟨read', rfl, hread'⟩ := ih hmore
      obtain ⟨read, rfl, hread⟩ := (hitem ts).before_end hfirst fun _ => hkeeps ts
      refine ⟨read ++ read', (List.append_assoc _ _ _).symm, fun hvs => ?_⟩
      have hhere : (current (read ++ (read' ++ vs))).kind ≠ .endOfText := by
        cases read with
        | cons t read => exact hend
        | nil =>
          cases read' with
          | cons t read' => exact hend
          | nil => exact absurd rfl hend
      rw [hfuel, List.append_assoc, untilEnd_of_statement _ _ hhere, bind_of_done (hread vs hvs),
        bind_of_done (hread' hvs.drop)]
      rfl

/-- Statements before the end, and those of tokens that fit there, make one program. -/
theorem program_append {k : Nat} {body rest : Block} {p : Position} {vs us : List Token}
    (h : program n ts = (.done body, [.endAt p])) (hrest : program k vs = (.done rest, us)) :
    ∃ read, ts = read ++ [.endAt p] ∧ (Fits read vs → program (n + k) (read ++ vs) = (.done (body ++ rest), us)) := by
  have hle : n ≤ n + k := Nat.le_add_right n k
  have hself := local_statement (Nat.le_refl (n + k))
  -- with the fuel of both for each statement
  have hmore : untilEnd k (statement (n + k)) vs = (.done rest, us) :=
    (local_untilEnd (local_statement (Nat.le_add_left k n)) (Nat.le_refl k)).same hrest nofun
  exact untilEnd_append (local_statement hle) (keeps_statement hle) hself hmore h

end Statements

end Parse

theorem parseTokens_of_program {n : Nat} {ts us : List Token} {body : Block}
    (h : Parse.program n ts = (.done body, us)) : (parseTokens ts).1 = .ok body := by
  have hlong := (Parse.local_program (Nat.le_max_left n (Parse.enough ts))).same h nofun
  rw [Parse.program_of_enough (Nat.le_max_right n (Parse.enough ts))] at hlong
  exact Outcome.ofExcept_inj (Prod.mk.inj hlong).1

end IntScript
