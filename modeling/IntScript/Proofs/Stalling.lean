import IntScript.Proofs.GrammarSound
import IntScript.Proofs.Rendering

set_option autoImplicit false

namespace IntScript

namespace Grammar

variable {α β : Type} {D : Kinds → α → Prop} {ks more : Kinds} {a : α}

/-- With some more kinds behind them, the kinds make a phrase. -/
def Begins (D : Kinds → α → Prop) (ks : Kinds) : Prop := ∃ more a, Kinds.Scannable more ∧ D (ks ++ more) a

theorem Begins.whole (h : D ks a) : Begins D ks := ⟨[], a, .nil, (List.append_nil ks).symm ▸ h⟩

theorem Begins.drop (h : Begins D (ks ++ more)) (hmore : Kinds.Scannable more) : Begins D ks := by
  obtain ⟨rest, a, hrest, ha⟩ := h
  exact ⟨more ++ rest, a, hmore.append hrest, List.append_assoc ks more rest ▸ ha⟩

theorem scannable_zero : Kinds.Scannable [.integer 0] := .cons ⟨Int.le_refl 0, by decide⟩ .nil

theorem operand_zero : Operand [.integer 0] (.literal 0) := .integer Int64.toInt_zero

theorem expr_zero : Expr [.integer 0] (.literal 0) := (Layer.operand operand_zero).loosen (Nat.zero_le 6)

theorem isName_x : IsName "x" := by
  refine ⟨⟨'x', [], rfl, .inr (.inl (by decide)), by simp⟩, fun k => ?_⟩
  cases k <;> decide

theorem scannable_x : Kinds.Scannable [.identifier "x"] := .cons isName_x .nil

theorem begins_operand : Begins Operand [] := ⟨[.integer 0], .literal 0, scannable_zero, operand_zero⟩

theorem begins_stmt : Begins Stmt [] := ⟨[.integer 0], .evaluate (.literal 0), scannable_zero, .evaluate expr_zero⟩

end Grammar

open Attempt Grammar

namespace Parse

variable {α β γ : Type} {m : Parse α} {D : Kinds → γ → Prop} {past : Kinds} {ts : List Token} {n : Nat}

/-- If the reader fails, it is at the token at the cursor, and what it has passed, behind what was passed before,
begins a phrase. -/
def StallsAt (m : Parse α) (D : Kinds → γ → Prop) (past : Kinds) (ts : List Token) : Prop :=
  ∀ e us, m ts = (.failed e, us) →
    e.position = (current us).position ∧ ∃ ks, Passed ts ks us ∧ Begins D (past ++ ks)

def Stalls (m : Parse α) (D : Kinds → α → Prop) : Prop := ∀ ts, Scanned ts → StallsAt m D [] ts

section Rules

variable {f : Unit → Parse β} {k : TokenKind}

theorem stallsAt_pure {a : α} : StallsAt (Pure.pure a : Parse α) D past ts := by
  intro e us hrun
  cases hrun

theorem stallsAt_outOfFuel : StallsAt (outOfFuel : Parse α) D past ts := by
  intro e us hrun
  cases hrun

theorem stallsAt_unexpected {expected : Expectation} (h : Begins D past) :
    StallsAt (unexpected expected : Parse α) D past ts := by
  intro e us hrun
  cases hrun
  exact ⟨rfl, [], Passed.refl ts, by rwa [List.append_nil]⟩

theorem stallsAt_ask {q : List Token → α} {g : α → Parse β} (h : StallsAt (g (q ts)) D past ts) :
    StallsAt ((.ask q : Parse α) >>= g) D past ts := h

/-- A reader that goes on from where another one stopped. -/
theorem StallsAt.after {g : Parse β} {ks : Kinds} {us : List Token} (hpassed : Passed ts ks us)
    (h : StallsAt g D (past ++ ks) us) {e : SyntaxError} {vs : List Token} (hrun : g us = (.failed e, vs)) :
    e.position = (current vs).position ∧ ∃ ks, Passed ts ks vs ∧ Begins D (past ++ ks) := by
  obtain ⟨hposition, ks', hks', hbegins⟩ := h e vs hrun
  exact ⟨hposition, ks ++ ks', hpassed.append hks', List.append_assoc past ks ks' ▸ hbegins⟩

theorem stallsAt_advance (hk : k ≠ .endOfText) (h : (current ts).kind = k)
    (hf : ∀ us, Passed ts [k] us → StallsAt (f ()) D (past ++ [k]) us) : StallsAt (advance >>= f) D past ts := by
  obtain ⟨t, us, rfl, rfl⟩ := exists_of_current hk h
  intro e vs hrun
  change f () (behind (t :: us)) = (.failed e, vs) at hrun
  rw [behind_cons hk] at hrun
  have hpassed : Passed (t :: us) [t.kind] us := Passed.head hk us
  exact (hf us hpassed).after hpassed hrun

theorem stallsAt_consume (hk : k ≠ .endOfText) (hbegins : Begins D past)
    (hf : ∀ us, Passed ts [k] us → StallsAt (f ()) D (past ++ [k]) us) : StallsAt (consume k >>= f) D past ts := by
  rw [consume, bind_assoc]
  refine stallsAt_ask ?_
  split
  · next h => exact stallsAt_advance hk (by simpa using h) hf
  · exact stallsAt_unexpected hbegins

theorem stallsAt_accept {g : Bool → Parse β} (hk : k ≠ .endOfText)
    (hyes : ∀ us, Passed ts [k] us → StallsAt (g true) D (past ++ [k]) us) (hno : StallsAt (g false) D past ts) :
    StallsAt (accept k >>= g) D past ts := by
  rw [accept, bind_assoc]
  refine stallsAt_ask ?_
  split
  · next h =>
    rw [bind_assoc]
    exact stallsAt_advance hk (by simpa using h) hyes
  · exact hno

theorem stallsAt_name {role : NameRole} {g : String → Parse β} (hbegins : Begins D past)
    (hg : ∀ x us, Passed ts [.identifier x] us → StallsAt (g x) D (past ++ [.identifier x]) us) :
    StallsAt (name role >>= g) D past ts := by
  rw [name, bind_assoc]
  refine stallsAt_ask ?_
  split
  · next x h =>
    rw [bind_assoc]
    have hx : TokenKind.identifier x ≠ .endOfText := by simp
    exact stallsAt_advance hx h fun us hus => hg x us hus
  · exact stallsAt_unexpected hbegins

/-- A phrase inside a phrase: whole, it can be gone on with. -/
theorem StallsAt.bind {E : Kinds → α → Prop} {P : α → Kinds → List Token → Prop} {g : α → Parse β}
    (hm : StallsAt m E [] ts) (hread : m.Ensures ts fun a us => ∃ ks, Passed ts ks us ∧ P a ks us)
    (hwhole : ∀ ks a, E ks a → Begins D (past ++ ks))
    (hg : ∀ a ks us, Passed ts ks us → P a ks us → StallsAt (g a) D (past ++ ks) us) :
    StallsAt (m >>= g) D past ts := by
  intro e us hrun
  rcases hfirst : m ts with ⟨a | e' | _, mid⟩
  · rw [bind_of_done hfirst] at hrun
    obtain ⟨ks, hpassed, ha⟩ := hread a mid hfirst
    exact (hg a ks mid hpassed ha).after hpassed hrun
  · rw [bind_of_failed hfirst] at hrun
    cases hrun
    obtain ⟨hposition, ks, hpassed, more, a, hmore, ha⟩ := hm e us hfirst
    have hbegins := hwhole (ks ++ more) a ha
    rw [← List.append_assoc] at hbegins
    exact ⟨hposition, ks, hpassed, hbegins.drop hmore⟩
  · rw [bind_of_outOfFuel hfirst] at hrun
    cases hrun

theorem Stalls.bind {E : Kinds → α → Prop} {g : α → Parse β} (hm : Stalls m E) (hread : Reads m E) (hts : Scanned ts)
    (hwhole : ∀ ks a, E ks a → Begins D (past ++ ks))
    (hg : ∀ a ks us, Passed ts ks us → E ks a → StallsAt (g a) D (past ++ ks) us) :
    StallsAt (m >>= g) D past ts :=
  (hm ts hts).bind (hread ts hts) hwhole hg

end Rules

section Tuples

variable {E : Kinds → α → Prop} {item : Parse α}

theorem stalls_name (role : NameRole) : Stalls (name role) Name := by
  intro ts _
  rw [← bind_pure (name role)]
  exact stallsAt_name ⟨_, "x", scannable_x, .intro "x"⟩ fun _ _ _ => stallsAt_pure

theorem stalls_commaList (hitem : Stalls item E) (hread : Reads item E) (n : Nat) :
    Stalls (commaList n item) (Items E) := by
  induction n with
  | zero => exact fun ts _ => stallsAt_outOfFuel
  | succ n ih =>
    intro ts hts
    rw [commaList]
    refine hitem.bind hread hts (fun ks a ha => .whole (.last ha)) fun a ks us hus ha => ?_
    refine stallsAt_accept (by decide) (fun vs hvs => ?_) stallsAt_pure
    have hvs' := hvs.scanned (hus.scanned hts)
    refine ih.bind (reads_commaList hread n) hvs' (fun rest as has => ?_) fun _ _ _ _ _ => stallsAt_pure
    have hall : Items E (ks ++ .comma :: rest) (a :: as) := .more ha has
    exact .whole (by simpa using hall)

theorem stalls_tuple (hitem : Stalls item E) (hread : Reads item E) (n : Nat) : Stalls (tuple n item) (Tuple E) := by
  intro ts hts
  have hnone : Begins (Tuple E) [] := ⟨[.leftParen, .rightParen], [], .cons trivial (.cons trivial .nil), .empty⟩
  have hopen : Begins (Tuple E) [.leftParen] := ⟨[.rightParen], [], .cons trivial .nil, .empty⟩
  have hitems : ∀ ks as, Items E ks as → Begins (Tuple E) ([.leftParen] ++ ks) :=
    fun ks as has => ⟨[.rightParen], as, .cons trivial .nil, .items has⟩
  refine stallsAt_consume (by decide) hnone fun us hus => ?_
  refine stallsAt_ask ?_
  split
  · exact stallsAt_consume (by decide) hopen fun _ _ => stallsAt_pure
  · refine (stalls_commaList hitem hread n).bind (reads_commaList hread n) (hus.scanned hts) hitems ?_
    intro as ks vs hvs has
    exact stallsAt_consume (by decide) (hitems ks as has) fun _ _ => stallsAt_pure

end Tuples

section Expressions

theorem stallsAt_negated (hsub : (current ts).kind = .operator .sub) : StallsAt negated Operand [] ts := by
  refine stallsAt_advance (by decide) hsub fun us hus => stallsAt_ask ?_
  split
  · next i hi => exact stallsAt_advance (by simp) hi fun _ _ => stallsAt_pure
  · exact stallsAt_unexpected ⟨[.integer 0], .literal (-0), scannable_zero, .negated Int64.toInt_zero⟩

theorem stallsAt_operand {inner : Parse Expression} (hinner : Stalls inner Expr) (hread : Reads inner Expr) (n : Nat)
    (hts : Scanned ts) : StallsAt (operand n inner (current ts).kind) Operand [] ts := by
  unfold operand
  split
  · next i hi => exact stallsAt_advance (by simp) hi fun _ _ => stallsAt_pure
  · next x hx =>
    refine stallsAt_advance (by simp) hx fun us hus => stallsAt_ask ?_
    split
    · refine (stalls_tuple hinner hread n).bind (reads_tuple hread n) (hus.scanned hts) ?_ fun _ _ _ _ _ => stallsAt_pure
      exact fun ks args hargs => .whole (.call hargs)
    · exact stallsAt_pure
  · next hparen =>
    have hwhole : ∀ ks e, Expr ks e → Begins Operand ([.leftParen] ++ ks) :=
      fun ks e he => ⟨[.rightParen], e, .cons trivial .nil, .parens he⟩
    refine stallsAt_advance (by decide) hparen fun us hus => ?_
    refine hinner.bind hread (hus.scanned hts) hwhole fun e ks vs hvs he => ?_
    exact stallsAt_consume (by decide) (hwhole ks e he) fun _ _ => stallsAt_pure
  · next op hop =>
    split
    · next hsub => exact stallsAt_negated (hsub ▸ hop)
    · exact stallsAt_unexpected begins_operand
  · exact stallsAt_unexpected begins_operand

-- As while operators are read, the left operand is of a layer that no operator at the cursor exceeds.
theorem stalls_expressions (n : Nat) :
    (∀ level, level ≤ 6 → Stalls (binary n level) (Layer Operand level)) ∧
    (∀ level layer ks left ts, level ≤ layer → layer ≤ 6 → Layer Operand layer ks left → NextBelow (layer + 1) ts →
      Scanned ts → StallsAt (climb n level left) (Layer Operand level) ks ts) ∧
    Stalls (primary n) Operand := by
  induction n with
  | zero =>
    exact ⟨fun _ _ _ _ => stallsAt_outOfFuel, fun _ _ _ _ _ _ _ _ _ _ => stallsAt_outOfFuel,
      fun _ _ => stallsAt_outOfFuel⟩
  | succ n ih =>
    obtain ⟨hbinary, hclimb, hprimary⟩ := ih
    obtain ⟨hreads, -, hreadsPrimary⟩ := ensures_expressions n
    refine ⟨fun level hlevel ts hts => ?_, fun level layer ks left ts hlevel hlayer hleft hnext hts => ?_,
      fun ts hts => ?_⟩
    · rw [binary]
      refine hprimary.bind hreadsPrimary hts (fun ks e he => .whole ((Layer.operand he).loosen hlevel)) ?_
      intro left ks us hus hleft
      have hnext : NextBelow 7 us := fun op _ => Nat.lt_succ_of_lt op.level_lt
      exact hclimb level 6 ks left us hlevel (Nat.le_refl 6) (.operand hleft) hnext (hus.scanned hts)
    · rw [climb]
      refine stallsAt_ask ?_
      rw [current_operator? hts]
      split
      · exact stallsAt_pure
      · next op hop =>
        have hop := TokenKind.operator?_eq_some.1 hop
        have hle : op.level ≤ layer := Nat.le_of_lt_succ (hnext op hop)
        split
        · exact stallsAt_pure
        · next hge =>
          have hlow : level ≤ op.level := Nat.le_of_not_lt hge
          refine stallsAt_advance (by simp) hop fun us hus => ?_
          have hus' := hus.scanned hts
          have hboth : ∀ ks' right, Layer Operand (op.level + 1) ks' right →
              Layer Operand op.level (ks ++ [.operator op] ++ ks') (.binary op left right) := by
            intro ks' right hright
            have hnew : Layer Operand op.level (ks ++ .operator op :: ks') (.binary op left right) :=
              .binary (hleft.loosen hle) hright
            simpa using hnew
          refine (hbinary (op.level + 1) op.level_lt us hus').bind (hreads (op.level + 1) us op.level_lt hus') ?_ ?_
          · exact fun ks' right hright => .whole ((hboth ks' right hright).loosen hlow)
          · rintro right ks' vs hvs ⟨hright, hbelow⟩
            exact hclimb level op.level _ _ vs hlow (Nat.le_of_lt op.level_lt) (hboth ks' right hright) hbelow
              (hvs.scanned hus')
    · rw [primary]
      refine stallsAt_ask (stallsAt_operand (hbinary 0 (Nat.zero_le 6)) (fun us hus => ?_) n hts)
      refine (hreads 0 us (Nat.zero_le 6) hus).mono ?_
      rintro e vs ⟨ks, hvs, he, -⟩
      exact ⟨ks, hvs, he⟩

theorem stalls_expression (n : Nat) : Stalls (expression n) Expr := (stalls_expressions n).1 0 (Nat.zero_le 6)

theorem stalls_condition (n : Nat) :
    Stalls (condition n) fun ks c => ∃ cs, Expr cs c ∧ ks = .leftParen :: cs ++ [.rightParen] := by
  intro ts hts
  refine stallsAt_consume (by decide) ?_ fun us hus => ?_
  · exact ⟨[.leftParen, .integer 0, .rightParen], .literal 0, .cons trivial (scannable_zero.append (.cons trivial .nil)),
      [.integer 0], expr_zero, rfl⟩
  · refine (stalls_expression n).bind (reads_expression n) (hus.scanned hts) (fun cs c hc => ?_) fun c cs vs _ hc => ?_
    · exact ⟨[.rightParen], c, .cons trivial .nil, cs, hc, rfl⟩
    · refine stallsAt_consume (by decide) ?_ fun _ _ => stallsAt_pure
      exact ⟨[.rightParen], c, .cons trivial .nil, cs, hc, rfl⟩

end Expressions

section Statements

variable {item : Parse Statement}

theorem stalls_untilBrace (hitem : Stalls item Stmt) (hread : Reads item Stmt) (n : Nat) :
    Stalls (untilBrace n item) (Many Stmt) := by
  induction n with
  | zero => exact fun ts _ => stallsAt_outOfFuel
  | succ n ih =>
    intro ts hts
    rw [untilBrace]
    refine stallsAt_ask ?_
    split
    · exact stallsAt_pure
    · refine stallsAt_ask ?_
      split
      · exact stallsAt_unexpected (.whole .nil)
      · refine hitem.bind hread hts (fun ks s hs => ⟨[], [s], .nil, .cons hs .nil⟩) fun s ks us hus hs => ?_
        refine ih.bind (reads_untilBrace hread n) (hus.scanned hts) (fun rest body hbody => ?_) ?_
        · exact .whole (.cons hs hbody)
        · exact fun _ _ _ _ _ => stallsAt_pure

theorem stalls_braced (hitem : Stalls item Stmt) (hread : Reads item Stmt) (n : Nat) :
    Stalls (braced n item) fun ks body => ∃ bs, Many Stmt bs body ∧ ks = .leftBrace :: bs ++ [.rightBrace] := by
  intro ts hts
  refine stallsAt_consume (by decide) ?_ fun us hus => ?_
  · exact ⟨[.leftBrace, .rightBrace], [], .cons trivial (.cons trivial .nil), [], .nil, rfl⟩
  · refine (stalls_untilBrace hitem hread n).bind (reads_untilBrace hread n) (hus.scanned hts) ?_ ?_
    · exact fun bs body hbody => ⟨[.rightBrace], body, .cons trivial .nil, bs, hbody, rfl⟩
    · intro body bs vs _ hbody
      refine stallsAt_consume (by decide) ?_ fun _ _ => stallsAt_pure
      exact ⟨[.rightBrace], body, .cons trivial .nil, bs, hbody, rfl⟩

theorem stalls_untilEnd (hitem : Stalls item Stmt) (hread : Reads item Stmt) (n : Nat) :
    Stalls (untilEnd n item) (Many Stmt) := by
  induction n with
  | zero => exact fun ts _ => stallsAt_outOfFuel
  | succ n ih =>
    intro ts hts
    rw [untilEnd]
    refine stallsAt_ask ?_
    split
    · exact stallsAt_pure
    · refine hitem.bind hread hts (fun ks s hs => ⟨[], [s], .nil, .cons hs .nil⟩) fun s ks us hus hs => ?_
      refine StallsAt.bind (ih us (hus.scanned hts)) (ensures_untilEnd hread n (hus.scanned hts)) ?_ ?_
      · exact fun rest body hbody => .whole (.cons hs hbody)
      · exact fun _ _ _ _ _ => stallsAt_pure

theorem stallsAt_functionDefinition (hitem : Stalls item Stmt) (hread : Reads item Stmt) (n : Nat) (hts : Scanned ts)
    (hk : (current ts).kind = .keyword .function) : StallsAt (functionDefinition n item) Stmt [] ts := by
  have hfrom : ∀ f ps params bs body, Tuple Name ps params → Many Stmt bs body →
      Stmt ([.keyword .function] ++ [.identifier f] ++ ps ++ (.leftBrace :: bs ++ [.rightBrace]))
        (.function f params body) := by
    intro f ps params bs body hparams hbody
    have hdef := Stmt.function (f := f) hparams hbody
    simpa using hdef
  have hbraces : Kinds.Scannable [.leftBrace, .rightBrace] := .cons trivial (.cons trivial .nil)
  have hparens : Kinds.Scannable [.leftParen, .rightParen] := .cons trivial (.cons trivial .nil)
  refine stallsAt_advance (by decide) hk fun us hus => ?_
  refine stallsAt_name ?_ fun f vs hvs => ?_
  · exact ⟨[.identifier "x"] ++ [.leftParen, .rightParen] ++ [.leftBrace, .rightBrace], .function "x" [] [],
      (scannable_x.append hparens).append hbraces, hfrom "x" _ [] [] [] .empty .nil⟩
  · have hvs := hus.append hvs
    refine (stalls_tuple (stalls_name .parameter) (reads_name .parameter) n).bind (reads_tuple (reads_name .parameter) n)
      (hvs.scanned hts) (fun ps params hparams => ?_) fun params ps ws hws hparams => ?_
    · exact ⟨[.leftBrace, .rightBrace], .function f params [], hbraces, hfrom f ps params [] [] hparams .nil⟩
    · refine (stalls_braced hitem hread n).bind (reads_braced hread n) ((hvs.append hws).scanned hts) ?_ ?_
      · rintro _ body ⟨bs, hbody, rfl⟩
        exact .whole (hfrom f ps params bs body hparams hbody)
      · exact fun _ _ _ _ _ => stallsAt_pure

theorem stallsAt_declaration (n : Nat) (hts : Scanned ts) (hk : (current ts).kind = .keyword .var) :
    StallsAt (declaration n) Stmt [] ts := by
  refine stallsAt_advance (by decide) hk fun us hus => ?_
  refine stallsAt_name ⟨[.identifier "x"], .declare "x" none, scannable_x, .declare "x"⟩ fun x vs hvs => ?_
  refine stallsAt_accept (by decide) (fun ws hws => ?_) stallsAt_pure
  refine (stalls_expression n).bind (reads_expression n) (((hus.append hvs).append hws).scanned hts) ?_ ?_
  · exact fun ks e he => .whole (.declareAs he)
  · exact fun _ _ _ _ _ => stallsAt_pure

theorem stallsAt_loop (hitem : Stalls item Stmt) (hread : Reads item Stmt) (n : Nat) (hts : Scanned ts)
    (hk : (current ts).kind = .keyword .loop) : StallsAt (loop n item) Stmt [] ts := by
  have hfrom : ∀ cs c ks body, Expr cs c → Stmt ks body →
      Stmt ([.keyword .loop] ++ (.leftParen :: cs ++ [.rightParen]) ++ ks) (.loop c body) := by
    intro cs c ks body hc hbody
    simpa using Stmt.loop hc hbody
  refine stallsAt_advance (by decide) hk fun us hus => ?_
  refine (stalls_condition n).bind (reads_condition n) (hus.scanned hts) ?_ ?_
  · rintro _ c ⟨cs, hc, rfl⟩
    exact ⟨[.integer 0], _, scannable_zero, hfrom cs c _ _ hc (.evaluate expr_zero)⟩
  · rintro c _ vs hvs ⟨cs, hc, rfl⟩
    refine hitem.bind hread ((hus.append hvs).scanned hts) (fun ks body hbody => ?_) fun _ _ _ _ _ => stallsAt_pure
    exact .whole (hfrom cs c ks body hc hbody)

theorem stallsAt_conditional (hitem : Stalls item Stmt) (hread : Reads item Stmt) (n : Nat) (hts : Scanned ts)
    (hk : (current ts).kind = .keyword .conditional) : StallsAt (conditional n item) Stmt [] ts := by
  have hfrom : ∀ cs c ks s, Expr cs c → Stmt ks s →
      Stmt ([.keyword .conditional] ++ (.leftParen :: cs ++ [.rightParen]) ++ ks) (.ifThen c s) := by
    intro cs c ks s hc hs
    simpa using Stmt.ifThen hc hs
  refine stallsAt_advance (by decide) hk fun us hus => ?_
  refine (stalls_condition n).bind (reads_condition n) (hus.scanned hts) ?_ ?_
  · rintro _ c ⟨cs, hc, rfl⟩
    exact ⟨[.integer 0], _, scannable_zero, hfrom cs c _ _ hc (.evaluate expr_zero)⟩
  · rintro c _ vs hvs ⟨cs, hc, rfl⟩
    have hvs := hus.append hvs
    refine hitem.bind hread (hvs.scanned hts) (fun ks s hs => .whole (hfrom cs c ks s hc hs)) fun s ks ws hws hs => ?_
    refine stallsAt_accept (by decide) (fun xs hxs => ?_) stallsAt_pure
    refine hitem.bind hread (((hvs.append hws).append hxs).scanned hts) (fun ks' s' hs' => ?_)
      fun _ _ _ _ _ => stallsAt_pure
    have hboth := Stmt.ifElse hc hs hs'
    exact .whole (by simpa using hboth)

theorem stallsAt_result (n : Nat) (hts : Scanned ts) (hk : (current ts).kind = .keyword .result) :
    StallsAt (result n) Stmt [] ts := by
  refine stallsAt_advance (by decide) hk fun us hus => ?_
  refine (stalls_expression n).bind (reads_expression n) (hus.scanned hts) ?_ fun _ _ _ _ _ => stallsAt_pure
  exact fun ks e he => .whole (.result he)

theorem stalls_assignment (n : Nat) : Stalls (assignment n) Stmt := by
  intro ts hts
  refine stallsAt_name begins_stmt fun x us hus => ?_
  have hvar : Expr [.identifier x] (.var x) := (Layer.operand (.var x)).loosen (Nat.zero_le 6)
  refine stallsAt_consume (by decide) (.whole (.evaluate hvar)) fun vs hvs => ?_
  refine (stalls_expression n).bind (reads_expression n) ((hus.append hvs).scanned hts) ?_
    fun _ _ _ _ _ => stallsAt_pure
  exact fun ks e he => .whole (.assign he)

theorem stalls_evaluation (n : Nat) : Stalls (evaluation n) Stmt := by
  intro ts hts
  refine (stalls_expression n).bind (reads_expression n) hts ?_ fun _ _ _ _ _ => stallsAt_pure
  exact fun ks e he => .whole (.evaluate he)

theorem stallsAt_keywordStatement (hitem : Stalls item Stmt) (hread : Reads item Stmt) (n : Nat) (hts : Scanned ts)
    {k : Keyword} (hk : (current ts).kind = .keyword k) : StallsAt (keywordStatement n item k) Stmt [] ts := by
  cases k with
  | function => exact stallsAt_functionDefinition hitem hread n hts hk
  | var => exact stallsAt_declaration n hts hk
  | loop => exact stallsAt_loop hitem hread n hts hk
  | conditional => exact stallsAt_conditional hitem hread n hts hk
  | result => exact stallsAt_result n hts hk
  | alternative => exact stalls_evaluation n ts hts

theorem stallsAt_statementFrom (hitem : Stalls item Stmt) (hread : Reads item Stmt) (n : Nat) (hts : Scanned ts) :
    StallsAt (statementFrom n item (current ts).kind) Stmt [] ts := by
  unfold statementFrom
  split
  · next k hk => exact stallsAt_keywordStatement hitem hread n hts hk
  · refine (stalls_braced hitem hread n).bind (reads_braced hread n) hts ?_ fun _ _ _ _ _ => stallsAt_pure
    rintro _ body ⟨bs, hbody, rfl⟩
    exact .whole (.block hbody)
  · refine stallsAt_ask ?_
    split
    · exact stalls_assignment n ts hts
    · exact stalls_evaluation n ts hts
  · exact stalls_evaluation n ts hts

theorem stalls_statement (n : Nat) : Stalls (statement n) Stmt := by
  induction n with
  | zero => exact fun ts _ => stallsAt_outOfFuel
  | succ n ih =>
    intro ts hts
    rw [statement]
    exact stallsAt_ask (stallsAt_statementFrom ih (reads_statement n) n hts)

theorem stalls_program (n : Nat) : Stalls (program n) (Many Stmt) :=
  stalls_untilEnd (stalls_statement n) (reads_statement n) n

end Statements

end Parse

end IntScript
