import IntScript.Proofs.ParseLaws

set_option autoImplicit false

namespace IntScript

open Attempt Grammar

theorem Grammar.Layer.loosen {operand : Kinds → Expression → Prop} {j k : Nat} {ks : Kinds} {e : Expression}
    (h : Layer operand j ks e) (hk : k ≤ j) : Layer operand k ks e := by
  obtain ⟨d, rfl⟩ := Nat.exists_eq_add_of_le hk
  induction d with
  | zero => exact h
  | succ d ih => exact ih h.tighter (Nat.le_add_right k d)

theorem BinaryOp.level_lt (op : BinaryOp) : op.level < 6 := by
  cases op <;> decide

theorem TokenKind.operator?_eq_some {k : TokenKind} {op : BinaryOp} : k.operator? = some op ↔ k = .operator op := by
  cases k <;> simp [TokenKind.operator?]

namespace Parse

variable {α β : Type} {m : Parse α} {D : Kinds → α → Prop} {ts us : List Token} {n : Nat}

/-- The reader, when it is done, has passed kinds that derive its value. -/
def ReadsAt (m : Parse α) (D : Kinds → α → Prop) (ts : List Token) : Prop :=
  m.Ensures ts fun a us => ∃ ks, Passed ts ks us ∧ D ks a

def Reads (m : Parse α) (D : Kinds → α → Prop) : Prop := ∀ ts, Scanned ts → ReadsAt m D ts

theorem Reads.ensures {f : α → Parse β} {Q : β → List Token → Prop} (hm : Reads m D) (hts : Scanned ts)
    (hf : ∀ a ks us, Passed ts ks us → D ks a → (f a).Ensures us Q) : (m >>= f).Ensures ts Q :=
  Ensures.bind (hm ts hts) fun a us ⟨ks, hus, ha⟩ => hf a ks us hus ha

theorem reads_name (role : NameRole) : Reads (name role) Name := by
  intro ts _
  rw [← bind_pure (name role)]
  exact ensures_name fun x us hus => ensures_pure ⟨_, hus, .intro x⟩

theorem reads_commaList {item : Parse α} (hitem : Reads item D) (n : Nat) : Reads (commaList n item) (Items D) := by
  induction n with
  | zero => exact fun ts _ => ensures_outOfFuel
  | succ n ih =>
    intro ts hts
    rw [commaList]
    refine hitem.ensures hts fun a ks us hus ha => ?_
    refine ensures_accept (by decide) (fun vs hvs => ?_) fun _ => ?_
    · refine ih.ensures (hvs.scanned (hus.scanned hts)) fun as rest ws hws has => ?_
      refine ensures_pure ⟨_, hus.append (hvs.append hws), ?_⟩
      exact .more ha has
    · exact ensures_pure ⟨ks, hus, .last ha⟩

theorem reads_tuple {item : Parse α} (hitem : Reads item D) (n : Nat) : Reads (tuple n item) (Tuple D) := by
  intro ts hts
  refine ensures_consume (by decide) fun us hus => ?_
  refine ensures_ask ?_
  split
  · refine ensures_consume (by decide) fun vs hvs => ?_
    exact ensures_pure ⟨_, hus.append hvs, .empty⟩
  · refine (reads_commaList hitem n).ensures (hus.scanned hts) fun as ks vs hvs has => ?_
    refine ensures_consume (by decide) fun ws hws => ?_
    exact ensures_pure ⟨_, (hus.append hvs).append hws, .items has⟩

section Expressions

theorem current_operator? (hts : Scanned ts) : (current ts).operator? = (current ts).kind.operator? := by
  cases ts with
  | nil => decide
  | cons t ts => exact hts.head.operator

theorem readsAt_negated (hts : Scanned ts) (hsub : (current ts).kind = .operator .sub) :
    ReadsAt negated Operand ts := by
  refine ensures_advance (by decide) hsub fun us hus => ensures_ask ?_
  split
  · next i hi =>
    have hend : TokenKind.integer i ≠ .endOfText := by simp
    refine ensures_advance hend hi fun vs hvs => ?_
    obtain ⟨h₀, h₁⟩ := hvs.integer_range (hus.scanned hts)
    refine ensures_pure ⟨_, hus.append hvs, ?_⟩
    rw [Int64.ofInt_neg]
    exact .negated (Int64.toInt_ofInt_of_le (by omega) (by omega))
  · exact ensures_unexpected

theorem readsAt_operand {inner : Parse Expression} (hinner : Reads inner Expr) (n : Nat) (hts : Scanned ts) :
    ReadsAt (operand n inner (current ts).kind) Operand ts := by
  unfold operand
  split
  · next i hi =>
    have hend : TokenKind.integer i ≠ .endOfText := by simp
    refine ensures_advance hend hi fun us hus => ?_
    obtain ⟨h₀, h₁⟩ := hus.integer_range hts
    refine ensures_pure ⟨_, hus, .integer ?_⟩
    exact Int64.toInt_ofInt_of_le (by omega) (by omega)
  · next x hx =>
    have hend : TokenKind.identifier x ≠ .endOfText := by simp
    refine ensures_advance hend hx fun us hus => ensures_ask ?_
    split
    · refine (reads_tuple hinner n).ensures (hus.scanned hts) fun args ks vs hvs hargs => ?_
      exact ensures_pure ⟨_, hus.append hvs, .call hargs⟩
    · exact ensures_pure ⟨_, hus, .var x⟩
  · next hparen =>
    refine ensures_advance (by decide) hparen fun us hus => ?_
    refine hinner.ensures (hus.scanned hts) fun e ks vs hvs he => ?_
    refine ensures_consume (by decide) fun ws hws => ?_
    exact ensures_pure ⟨_, (hus.append hvs).append hws, .parens he⟩
  · next op hop =>
    split
    · next hsub => exact readsAt_negated hts (hsub ▸ hop)
    · exact ensures_unexpected
  · exact ensures_unexpected

/-- An operator at the cursor is weaker than the level. -/
def NextBelow (level : Nat) (ts : List Token) : Prop := ∀ op, (current ts).kind = .operator op → op.level < level

-- While operators are read, the left operand is of a layer that no operator at the cursor exceeds: at first that
-- of the operands, then that of the last operator.
theorem ensures_expressions (n : Nat) :
    (∀ level ts, level ≤ 6 → Scanned ts → (binary n level).Ensures ts fun e us =>
      ∃ ks, Passed ts ks us ∧ Layer Operand level ks e ∧ NextBelow level us) ∧
    (∀ level layer ks left ts, level ≤ layer → layer ≤ 6 → Layer Operand layer ks left → NextBelow (layer + 1) ts →
      Scanned ts → (climb n level left).Ensures ts fun e us =>
        ∃ ks', Passed ts ks' us ∧ Layer Operand level (ks ++ ks') e ∧ NextBelow level us) ∧
    Reads (primary n) Operand := by
  induction n with
  | zero =>
    exact ⟨fun _ _ _ _ => ensures_outOfFuel, fun _ _ _ _ _ _ _ _ _ _ => ensures_outOfFuel,
      fun _ _ => ensures_outOfFuel⟩
  | succ n ih =>
    obtain ⟨hbinary, hclimb, hprimary⟩ := ih
    refine ⟨fun level ts hlevel hts => ?_, fun level layer ks left ts hlevel hlayer hleft hnext hts => ?_,
      fun ts hts => ?_⟩
    · rw [binary]
      refine hprimary.ensures hts fun left ks us hus hleft => ?_
      have hnext : NextBelow 7 us := fun op _ => Nat.lt_succ_of_lt op.level_lt
      have h := hclimb level 6 ks left us hlevel (Nat.le_refl 6) (.operand hleft) hnext (hus.scanned hts)
      refine h.mono ?_
      rintro e vs ⟨ks', hvs, he, hbelow⟩
      exact ⟨_, hus.append hvs, he, hbelow⟩
    · rw [climb]
      refine ensures_ask ?_
      rw [current_operator? hts]
      split
      · next hnone =>
        refine ensures_pure ⟨[], Passed.refl ts, ?_, fun op hop => ?_⟩
        · rw [List.append_nil]
          exact hleft.loosen hlevel
        · rw [hop] at hnone
          cases hnone
      · next op hop =>
        have hop := TokenKind.operator?_eq_some.1 hop
        have hle : op.level ≤ layer := Nat.le_of_lt_succ (hnext op hop)
        split
        · next hlt =>
          refine ensures_pure ⟨[], Passed.refl ts, ?_, fun op' hop' => ?_⟩
          · rw [List.append_nil]
            exact hleft.loosen hlevel
          · cases hop.symm.trans hop'
            exact hlt
        · next hge =>
          have hend : TokenKind.operator op ≠ .endOfText := by simp
          refine ensures_advance hend hop fun us hus => ?_
          refine (hbinary (op.level + 1) us op.level_lt (hus.scanned hts)).bind ?_
          rintro right vs ⟨ks', hvs, hright, hbelow⟩
          have hboth : Layer Operand op.level (ks ++ .operator op :: ks') (.binary op left right) :=
            .binary (hleft.loosen hle) hright
          have h := hclimb level op.level _ _ vs (Nat.le_of_not_lt hge) (Nat.le_of_lt op.level_lt) hboth hbelow
            (hvs.scanned (hus.scanned hts))
          refine h.mono ?_
          rintro e ws ⟨ks'', hws, he, hbelow⟩
          refine ⟨_, (hus.append hvs).append hws, ?_, hbelow⟩
          simpa using he
    · rw [primary]
      refine ensures_ask (readsAt_operand (fun us hus => ?_) n hts)
      refine (hbinary 0 us (Nat.zero_le 6) hus).mono ?_
      rintro e vs ⟨ks, hvs, he, -⟩
      exact ⟨ks, hvs, he⟩

theorem reads_expression (n : Nat) : Reads (expression n) Expr := by
  intro ts hts
  refine ((ensures_expressions n).1 0 ts (Nat.zero_le 6) hts).mono ?_
  rintro e us ⟨ks, hus, he, -⟩
  exact ⟨ks, hus, he⟩

theorem reads_condition (n : Nat) :
    Reads (condition n) fun ks c => ∃ cs, Expr cs c ∧ ks = .leftParen :: cs ++ [.rightParen] := by
  intro ts hts
  refine ensures_consume (by decide) fun us hus => ?_
  refine (reads_expression n).ensures (hus.scanned hts) fun c cs vs hvs hc => ?_
  refine ensures_consume (by decide) fun ws hws => ?_
  exact ensures_pure ⟨_, (hus.append hvs).append hws, cs, hc, rfl⟩

end Expressions

section Statements

variable {item : Parse Statement}

theorem reads_untilBrace (hitem : Reads item Stmt) (n : Nat) : Reads (untilBrace n item) (Many Stmt) := by
  induction n with
  | zero => exact fun ts _ => ensures_outOfFuel
  | succ n ih =>
    intro ts hts
    rw [untilBrace]
    refine ensures_ask ?_
    split
    · exact ensures_pure ⟨[], Passed.refl ts, .nil⟩
    · refine ensures_ask ?_
      split
      · exact ensures_unexpected
      · refine hitem.ensures hts fun s ks us hus hs => ?_
        refine ih.ensures (hus.scanned hts) fun body rest vs hvs hbody => ?_
        exact ensures_pure ⟨_, hus.append hvs, .cons hs hbody⟩

theorem reads_braced (hitem : Reads item Stmt) (n : Nat) :
    Reads (braced n item) fun ks body => ∃ bs, Many Stmt bs body ∧ ks = .leftBrace :: bs ++ [.rightBrace] := by
  intro ts hts
  refine ensures_consume (by decide) fun us hus => ?_
  refine (reads_untilBrace hitem n).ensures (hus.scanned hts) fun body bs vs hvs hbody => ?_
  refine ensures_consume (by decide) fun ws hws => ?_
  exact ensures_pure ⟨_, (hus.append hvs).append hws, bs, hbody, rfl⟩

theorem ensures_untilEnd (hitem : Reads item Stmt) (n : Nat) (hts : Scanned ts) :
    (untilEnd n item).Ensures ts fun body us =>
      ∃ ks, Passed ts ks us ∧ Many Stmt ks body ∧ (current us).kind = .endOfText := by
  induction n generalizing ts with
  | zero => exact ensures_outOfFuel
  | succ n ih =>
    rw [untilEnd]
    refine ensures_ask ?_
    split
    · next hend => exact ensures_pure ⟨[], Passed.refl ts, .nil, by simpa using hend⟩
    · refine hitem.ensures hts fun s ks us hus hs => ?_
      refine (ih (hus.scanned hts)).bind ?_
      rintro body vs ⟨rest, hvs, hbody, hend⟩
      exact ensures_pure ⟨_, hus.append hvs, .cons hs hbody, hend⟩

theorem readsAt_functionDefinition (hitem : Reads item Stmt) (n : Nat) (hts : Scanned ts)
    (hk : (current ts).kind = .keyword .function) :
    ReadsAt (functionDefinition n item) Stmt ts := by
  refine ensures_advance (by decide) hk fun us hus => ?_
  refine ensures_name fun f vs hvs => ?_
  have hvs := hus.append hvs
  refine (reads_tuple (reads_name .parameter) n).ensures (hvs.scanned hts) fun params ps ws hws hparams => ?_
  have hws := hvs.append hws
  refine (reads_braced hitem n).ensures (hws.scanned hts) ?_
  rintro body _ xs hxs ⟨bs, hbody, rfl⟩
  refine ensures_pure ⟨_, hws.append hxs, ?_⟩
  simpa using Stmt.function (f := f) hparams hbody

theorem readsAt_declaration (n : Nat) (hts : Scanned ts) (hk : (current ts).kind = .keyword .var) :
    ReadsAt (declaration n) Stmt ts := by
  refine ensures_advance (by decide) hk fun us hus => ?_
  refine ensures_name fun x vs hvs => ?_
  have hvs := hus.append hvs
  refine ensures_accept (by decide) (fun ws hws => ?_) fun _ => ?_
  · have hws := hvs.append hws
    refine (reads_expression n).ensures (hws.scanned hts) fun e ks xs hxs he => ?_
    exact ensures_pure ⟨_, hws.append hxs, .declareAs he⟩
  · exact ensures_pure ⟨_, hvs, .declare x⟩

theorem readsAt_loop (hitem : Reads item Stmt) (n : Nat) (hts : Scanned ts)
    (hk : (current ts).kind = .keyword .loop) :
    ReadsAt (loop n item) Stmt ts := by
  refine ensures_advance (by decide) hk fun us hus => ?_
  refine (reads_condition n).ensures (hus.scanned hts) ?_
  rintro c _ vs hvs ⟨cs, hc, rfl⟩
  have hvs := hus.append hvs
  refine hitem.ensures (hvs.scanned hts) fun body bs ws hws hbody => ?_
  refine ensures_pure ⟨_, hvs.append hws, ?_⟩
  simpa using Stmt.loop hc hbody

theorem readsAt_conditional (hitem : Reads item Stmt) (n : Nat) (hts : Scanned ts)
    (hk : (current ts).kind = .keyword .conditional) :
    ReadsAt (conditional n item) Stmt ts := by
  refine ensures_advance (by decide) hk fun us hus => ?_
  refine (reads_condition n).ensures (hus.scanned hts) ?_
  rintro c _ vs hvs ⟨cs, hc, rfl⟩
  have hvs := hus.append hvs
  refine hitem.ensures (hvs.scanned hts) fun s ks ws hws hs => ?_
  have hws := hvs.append hws
  refine ensures_accept (by decide) (fun xs hxs => ?_) fun _ => ?_
  · have hxs := hws.append hxs
    refine hitem.ensures (hxs.scanned hts) fun s' ks' ys hys hs' => ?_
    refine ensures_pure ⟨_, hxs.append hys, ?_⟩
    simpa using Stmt.ifElse hc hs hs'
  · refine ensures_pure ⟨_, hws, ?_⟩
    simpa using Stmt.ifThen hc hs

theorem readsAt_result (n : Nat) (hts : Scanned ts) (hk : (current ts).kind = .keyword .result) :
    ReadsAt (result n) Stmt ts := by
  refine ensures_advance (by decide) hk fun us hus => ?_
  refine (reads_expression n).ensures (hus.scanned hts) fun e ks vs hvs he => ?_
  exact ensures_pure ⟨_, hus.append hvs, .result he⟩

theorem reads_assignment (n : Nat) : Reads (assignment n) Stmt := by
  intro ts hts
  refine ensures_name fun x us hus => ?_
  refine ensures_consume (by decide) fun vs hvs => ?_
  have hvs := hus.append hvs
  refine (reads_expression n).ensures (hvs.scanned hts) fun e ks ws hws he => ?_
  exact ensures_pure ⟨_, hvs.append hws, .assign he⟩

theorem reads_evaluation (n : Nat) : Reads (evaluation n) Stmt := by
  intro ts hts
  refine (reads_expression n).ensures hts fun e ks us hus he => ?_
  exact ensures_pure ⟨ks, hus, .evaluate he⟩

theorem readsAt_keywordStatement (hitem : Reads item Stmt) (n : Nat) (hts : Scanned ts) {k : Keyword}
    (hk : (current ts).kind = .keyword k) :
    ReadsAt (keywordStatement n item k) Stmt ts := by
  cases k with
  | function => exact readsAt_functionDefinition hitem n hts hk
  | var => exact readsAt_declaration n hts hk
  | loop => exact readsAt_loop hitem n hts hk
  | conditional => exact readsAt_conditional hitem n hts hk
  | result => exact readsAt_result n hts hk
  | alternative => exact reads_evaluation n ts hts

theorem readsAt_statementFrom (hitem : Reads item Stmt) (n : Nat) (hts : Scanned ts) :
    ReadsAt (statementFrom n item (current ts).kind) Stmt ts := by
  unfold statementFrom
  split
  · next k hk => exact readsAt_keywordStatement hitem n hts hk
  · refine (reads_braced hitem n).ensures hts ?_
    rintro body _ us hus ⟨bs, hbody, rfl⟩
    exact ensures_pure ⟨_, hus, .block hbody⟩
  · refine ensures_ask ?_
    split
    · exact reads_assignment n ts hts
    · exact reads_evaluation n ts hts
  · exact reads_evaluation n ts hts

theorem reads_statement (n : Nat) : Reads (statement n) Stmt := by
  induction n with
  | zero => exact fun ts _ => ensures_outOfFuel
  | succ n ih =>
    intro ts hts
    rw [statement]
    exact ensures_ask (readsAt_statementFrom ih n hts)

end Statements

end Parse

end IntScript
