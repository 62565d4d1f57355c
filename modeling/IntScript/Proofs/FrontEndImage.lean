import IntScript.Proofs.RoundTrip

set_option autoImplicit false

namespace IntScript

open Attempt Grammar

namespace Grammar

variable {α : Type} {P : α → Prop} {ks : Kinds} {as : List α}

theorem Items.forall (h : Items (fun _ a => P a) ks as) : ∀ a ∈ as, P a := by
  induction h with
  | last ha => exact List.forall_mem_singleton.2 ha
  | more ha _ ih => exact List.forall_mem_cons.2 ⟨ha, ih⟩

theorem Tuple.forall (h : Tuple (fun _ a => P a) ks as) : ∀ a ∈ as, P a := by
  cases h with
  | empty => exact fun a ha => absurd ha List.not_mem_nil
  | items has => exact has.forall

end Grammar

theorem Passed.isName {ts us : List Token} {x : String} (h : Passed ts [.identifier x] us) (hts : Scanned ts) :
    IsName x := by
  obtain ⟨t, ht, hk⟩ := h.exists_sound hts (List.mem_singleton.2 rfl)
  exact ht.name x hk

namespace Parse

variable {ts us : List Token} {n : Nat}

theorem scanned_behind (hts : Scanned ts) : Scanned (behind ts) := by
  cases ts with
  | nil => exact hts
  | cons t ts =>
    rw [behind]
    split
    · exact hts
    · exact hts.tail

theorem ensures_negated_exact (hts : Scanned ts) :
    negated.Ensures ts fun e _ =>
      ∃ i v, (current (behind ts)).kind = .integer i ∧ (0 ≤ i ∧ i < 0x8000000000000000) ∧
        e = .literal v ∧ v.toInt = -i := by
  have hadvance : advance.Ensures ts fun _ us => us = behind ts := by
    intro _ us h
    exact (modify_eq_done _ _ _ _).1 h
  refine hadvance.bind ?_
  rintro _ _ rfl
  refine ensures_ask ?_
  split
  · next i hi =>
    have hend : TokenKind.integer i ≠ .endOfText := by simp
    refine ensures_advance hend hi fun us hus => ?_
    have hrange := hus.integer_range (scanned_behind hts)
    exact ensures_pure ⟨i, _, hi, hrange, rfl, Int64.toInt_ofInt_of_le (by omega) (by omega)⟩
  · exact ensures_unexpected

section Expressions

theorem writable_negated (hts : Scanned ts) (hsub : (current ts).kind = .operator .sub) :
    ReadsAt negated (fun _ e => e.Writable) ts := by
  intro e us h
  obtain ⟨ks, hus, -⟩ := readsAt_negated hts hsub e us h
  obtain ⟨i, v, -, hrange, rfl, hv⟩ := ensures_negated_exact hts e us h
  exact ⟨ks, hus, .literal (by omega)⟩

theorem writable_operand {inner : Parse Expression} (hinner : Reads inner fun _ e => e.Writable) (hts : Scanned ts) :
    ReadsAt (operand n inner (current ts).kind) (fun _ e => e.Writable) ts := by
  unfold operand
  split
  · next i hi =>
    have hend : TokenKind.integer i ≠ .endOfText := by simp
    refine ensures_advance hend hi fun us hus => ?_
    have hrange := hus.integer_range hts
    have hvalue : (Int64.ofInt i).toInt = i := Int64.toInt_ofInt_of_le (by omega) (by omega)
    exact ensures_pure ⟨_, hus, .literal (by omega)⟩
  · next x hx =>
    have hend : TokenKind.identifier x ≠ .endOfText := by simp
    refine ensures_advance hend hx fun us hus => ensures_ask ?_
    split
    · refine (reads_tuple hinner n).ensures (hus.scanned hts) fun args ks vs hvs hargs => ?_
      exact ensures_pure ⟨_, hus.append hvs, .call (hus.isName hts) hargs.forall⟩
    · exact ensures_pure ⟨_, hus, .var (hus.isName hts)⟩
  · next hparen =>
    refine ensures_advance (by decide) hparen fun us hus => ?_
    refine hinner.ensures (hus.scanned hts) fun e ks vs hvs he => ?_
    exact ensures_consume (by decide) fun ws hws => ensures_pure ⟨_, (hus.append hvs).append hws, he⟩
  · next op hop =>
    split
    · next hsub => exact writable_negated hts (hsub ▸ hop)
    · exact ensures_unexpected
  · exact ensures_unexpected

theorem writable_expressions (n : Nat) :
    (∀ level, Reads (binary n level) fun _ e => e.Writable) ∧
    (∀ level left, left.Writable → Reads (climb n level left) fun _ e => e.Writable) ∧
    Reads (primary n) fun _ e => e.Writable := by
  induction n with
  | zero =>
    exact ⟨fun _ _ _ => ensures_outOfFuel, fun _ _ _ _ _ => ensures_outOfFuel, fun _ _ => ensures_outOfFuel⟩
  | succ n ih =>
    obtain ⟨hbinary, hclimb, hprimary⟩ := ih
    refine ⟨fun level ts hts => ?_, fun level left hleft ts hts => ?_, fun ts hts => ?_⟩
    · rw [binary]
      refine hprimary.ensures hts fun left ks us hus hleft => ?_
      refine Ensures.mono (hclimb level left hleft us (hus.scanned hts)) ?_
      rintro e vs ⟨ks', hvs, he⟩
      exact ⟨_, hus.append hvs, he⟩
    · rw [climb]
      refine ensures_ask ?_
      rw [current_operator? hts]
      split
      · exact ensures_pure ⟨[], Passed.refl ts, hleft⟩
      · next op hop =>
        split
        · exact ensures_pure ⟨[], Passed.refl ts, hleft⟩
        · have hend : TokenKind.operator op ≠ .endOfText := by simp
          refine ensures_advance hend (TokenKind.operator?_eq_some.1 hop) fun us hus => ?_
          refine (hbinary (op.level + 1)).ensures (hus.scanned hts) fun right ks vs hvs hright => ?_
          have hvs := hus.append hvs
          refine Ensures.mono (hclimb level _ (.binary hleft hright) vs (hvs.scanned hts)) ?_
          rintro e ws ⟨ks', hws, he⟩
          exact ⟨_, hvs.append hws, he⟩
    · rw [primary]
      exact ensures_ask (writable_operand (hbinary 0) hts)

theorem writable_expression (n : Nat) : Reads (expression n) fun _ e => e.Writable := (writable_expressions n).1 0

theorem writable_condition (n : Nat) : Reads (condition n) fun _ c => c.Writable := by
  intro ts hts
  refine ensures_consume (by decide) fun us hus => ?_
  refine (writable_expression n).ensures (hus.scanned hts) fun c ks vs hvs hc => ?_
  exact ensures_consume (by decide) fun ws hws => ensures_pure ⟨_, (hus.append hvs).append hws, hc⟩

end Expressions

section Statements

variable {item : Parse Statement}

/-- The statement can be written, and no alternative is left for a conditional at its end. -/
def Complete (s : Statement) (us : List Token) : Prop :=
  s.Writable ∧ (s.endsOpen = true → (current us).kind ≠ .keyword .alternative)

def CompleteAt (item : Parse Statement) (ts : List Token) : Prop :=
  item.Ensures ts fun s us => (∃ ks, Passed ts ks us) ∧ Complete s us

def ReadsComplete (item : Parse Statement) : Prop := ∀ ts, Scanned ts → CompleteAt item ts

theorem ReadsComplete.ensures {β : Type} {f : Statement → Parse β} {Q : β → List Token → Prop}
    (hitem : ReadsComplete item) (hts : Scanned ts)
    (hf : ∀ s ks us, Passed ts ks us → Complete s us → (f s).Ensures us Q) : (item >>= f).Ensures ts Q :=
  Ensures.bind (hitem ts hts) fun s us ⟨⟨ks, hus⟩, hs⟩ => hf s ks us hus hs

theorem writable_untilBrace (hitem : ReadsComplete item) (n : Nat) :
    Reads (untilBrace n item) fun _ body => ∀ s ∈ body, s.Writable := by
  induction n with
  | zero => exact fun _ _ => ensures_outOfFuel
  | succ n ih =>
    intro ts hts
    rw [untilBrace]
    refine ensures_ask ?_
    split
    · exact ensures_pure ⟨[], Passed.refl ts, fun s hs => absurd hs List.not_mem_nil⟩
    · refine ensures_ask ?_
      split
      · exact ensures_unexpected
      · refine hitem.ensures hts fun s ks us hus hs => ?_
        refine ih.ensures (hus.scanned hts) fun body ks' vs hvs hbody => ?_
        exact ensures_pure ⟨_, hus.append hvs, List.forall_mem_cons.2 ⟨hs.1, hbody⟩⟩

theorem writable_untilEnd (hitem : ReadsComplete item) (n : Nat) :
    Reads (untilEnd n item) fun _ body => ∀ s ∈ body, s.Writable := by
  induction n with
  | zero => exact fun _ _ => ensures_outOfFuel
  | succ n ih =>
    intro ts hts
    rw [untilEnd]
    refine ensures_ask ?_
    split
    · exact ensures_pure ⟨[], Passed.refl ts, fun s hs => absurd hs List.not_mem_nil⟩
    · refine hitem.ensures hts fun s ks us hus hs => ?_
      refine ih.ensures (hus.scanned hts) fun body ks' vs hvs hbody => ?_
      exact ensures_pure ⟨_, hus.append hvs, List.forall_mem_cons.2 ⟨hs.1, hbody⟩⟩

theorem writable_braced (hitem : ReadsComplete item) (n : Nat) :
    Reads (braced n item) fun _ body => ∀ s ∈ body, s.Writable := by
  intro ts hts
  refine ensures_consume (by decide) fun us hus => ?_
  refine (writable_untilBrace hitem n).ensures (hus.scanned hts) fun body ks vs hvs hbody => ?_
  exact ensures_consume (by decide) fun ws hws => ensures_pure ⟨_, (hus.append hvs).append hws, hbody⟩

theorem writable_name (role : NameRole) : Reads (name role) fun _ x => IsName x := by
  intro ts hts
  rw [← bind_pure (name role)]
  exact ensures_name fun x us hus => ensures_pure ⟨_, hus, hus.isName hts⟩

/-- A statement that does not end in a conditional takes no heed of what is behind it. -/
theorem complete_of_closed {s : Statement} (hs : s.Writable) (hopen : s.endsOpen = false) : Complete s us := by
  refine ⟨hs, fun h => ?_⟩
  rw [hopen] at h
  cases h

theorem complete_functionDefinition (hitem : ReadsComplete item) (hts : Scanned ts)
    (hk : (current ts).kind = .keyword .function) :
    CompleteAt (functionDefinition n item) ts := by
  refine ensures_advance (by decide) hk fun us hus => ?_
  refine ensures_name fun f vs hvs => ?_
  have hf := hvs.isName (hus.scanned hts)
  have hvs := hus.append hvs
  refine (reads_tuple (writable_name .parameter) n).ensures (hvs.scanned hts) fun params ks ws hws hparams => ?_
  have hws := hvs.append hws
  refine (writable_braced hitem n).ensures (hws.scanned hts) fun body ks' xs hxs hbody => ?_
  exact ensures_pure ⟨⟨_, hws.append hxs⟩, complete_of_closed (.function hf hparams.forall hbody) rfl⟩

theorem complete_declaration (hts : Scanned ts) (hk : (current ts).kind = .keyword .var) :
    CompleteAt (declaration n) ts := by
  refine ensures_advance (by decide) hk fun us hus => ?_
  refine ensures_name fun x vs hvs => ?_
  have hx := hvs.isName (hus.scanned hts)
  have hvs := hus.append hvs
  refine ensures_accept (by decide) (fun ws hws => ?_) fun _ => ?_
  · have hws := hvs.append hws
    refine (writable_expression n).ensures (hws.scanned hts) fun e ks xs hxs he => ?_
    have hinit : ∀ e' ∈ some e, e'.Writable := by
      rintro _ ⟨⟩
      exact he
    exact ensures_pure ⟨⟨_, hws.append hxs⟩, complete_of_closed (.declare hx hinit) rfl⟩
  · exact ensures_pure ⟨⟨_, hvs⟩, complete_of_closed (.declare hx nofun) rfl⟩

theorem complete_loop (hitem : ReadsComplete item) (hts : Scanned ts) (hk : (current ts).kind = .keyword .loop) :
    CompleteAt (loop n item) ts := by
  refine ensures_advance (by decide) hk fun us hus => ?_
  refine (writable_condition n).ensures (hus.scanned hts) fun c ks vs hvs hc => ?_
  have hvs := hus.append hvs
  refine hitem.ensures (hvs.scanned hts) fun s ks' ws hws hs => ?_
  exact ensures_pure ⟨⟨_, hvs.append hws⟩, .loop hc hs.1, hs.2⟩

/-- An alternative is taken where there is one, so it never stands behind an open conditional. -/
theorem complete_conditional (hitem : ReadsComplete item) (hts : Scanned ts)
    (hk : (current ts).kind = .keyword .conditional) :
    CompleteAt (conditional n item) ts := by
  refine ensures_advance (by decide) hk fun us hus => ?_
  refine (writable_condition n).ensures (hus.scanned hts) fun c ks vs hvs hc => ?_
  have hvs := hus.append hvs
  refine hitem.ensures (hvs.scanned hts) fun s ks' ws hws hs => ?_
  have hws := hvs.append hws
  refine ensures_accept (by decide) (fun xs hxs => ?_) fun hno => ?_
  · have hclosed : s.endsOpen = false := by
      rw [Bool.eq_false_iff]
      exact fun hopen => hs.2 hopen hxs.current
    have hxs := hws.append hxs
    refine hitem.ensures (hxs.scanned hts) fun s' ks'' ys hys hs' => ?_
    exact ensures_pure ⟨⟨_, hxs.append hys⟩, .ifElse hc hs.1 hs'.1 hclosed, hs'.2⟩
  · exact ensures_pure ⟨⟨_, hws⟩, .ifThen hc hs.1, fun _ => hno⟩

theorem complete_result (hts : Scanned ts) (hk : (current ts).kind = .keyword .result) :
    CompleteAt (result n) ts := by
  refine ensures_advance (by decide) hk fun us hus => ?_
  refine (writable_expression n).ensures (hus.scanned hts) fun e ks vs hvs he => ?_
  exact ensures_pure ⟨⟨_, hus.append hvs⟩, complete_of_closed (.result he) rfl⟩

theorem complete_assignment (n : Nat) : ReadsComplete (assignment n) := by
  intro ts hts
  refine ensures_name fun x us hus => ?_
  refine ensures_consume (by decide) fun vs hvs => ?_
  have hvs := hus.append hvs
  refine (writable_expression n).ensures (hvs.scanned hts) fun e ks ws hws he => ?_
  exact ensures_pure ⟨⟨_, hvs.append hws⟩, complete_of_closed (.assign (hus.isName hts) he) rfl⟩

theorem complete_evaluation (n : Nat) : ReadsComplete (evaluation n) := by
  intro ts hts
  refine (writable_expression n).ensures hts fun e ks us hus he => ?_
  exact ensures_pure ⟨⟨ks, hus⟩, complete_of_closed (.evaluate he) rfl⟩

theorem complete_statementFrom (hitem : ReadsComplete item) (hts : Scanned ts) :
    CompleteAt (statementFrom n item (current ts).kind) ts := by
  unfold statementFrom
  split
  · next k hk =>
    cases k with
    | function => exact complete_functionDefinition hitem hts hk
    | var => exact complete_declaration hts hk
    | loop => exact complete_loop hitem hts hk
    | conditional => exact complete_conditional hitem hts hk
    | result => exact complete_result hts hk
    | alternative => exact complete_evaluation n ts hts
  · refine (writable_braced hitem n).ensures hts fun body ks us hus hbody => ?_
    exact ensures_pure ⟨⟨ks, hus⟩, complete_of_closed (.block hbody) rfl⟩
  · refine ensures_ask ?_
    split
    · exact complete_assignment n ts hts
    · exact complete_evaluation n ts hts
  · exact complete_evaluation n ts hts

theorem complete_statement (n : Nat) : ReadsComplete (statement n) := by
  induction n with
  | zero => exact fun _ _ => ensures_outOfFuel
  | succ n ih =>
    intro ts hts
    rw [statement]
    exact ensures_ask (complete_statementFrom ih hts)

end Statements

end Parse

theorem writable_of_parseProgram {source : String} {body : Block} (h : parseProgram source = .ok body) :
    ∀ s ∈ body, s.Writable := by
  rw [parseProgram] at h
  split at h
  · cases h
  · next ts htokens =>
    split at h
    · cases h
    · next hparse =>
      cases h
      obtain ⟨us, hus⟩ := parseTokens_eq_ok.1 hparse
      obtain ⟨-, -, -, -, hscanned⟩ := scanned_of_tokenize htokens
      obtain ⟨ks, -, hbody⟩ := Parse.writable_untilEnd (Parse.complete_statement _) _ ts hscanned body us hus
      exact hbody

/-- The programs that some text stands for are those that can be written, each is read back from its own text, and
the integer behind a minus sign is negated without overflow. -/
theorem front_end_image (body : Block) :
    ((∃ source, parseProgram source = .ok body) ↔ ∀ s ∈ body, s.Writable) ∧
      ((∀ s ∈ body, s.Writable) → parseProgram (render body) = .ok body) ∧
        ∀ source ts us vs e, tokenize source = .ok ts → us <:+ ts → Parse.negated us = (.done e, vs) →
          ∃ i v, (Parse.current (Parse.behind us)).kind = .integer i ∧ e = .literal v ∧ v.toInt = -i := by
  refine ⟨⟨?_, fun hbody => ⟨render body, parseProgram_render hbody⟩⟩, parseProgram_render, ?_⟩
  · rintro ⟨source, hsource⟩
    exact writable_of_parseProgram hsource
  · intro source ts us vs e htokens hus hdone
    obtain ⟨-, -, -, -, hscanned⟩ := scanned_of_tokenize htokens
    have hus : Scanned us := fun t ht => hscanned t (hus.mem ht)
    obtain ⟨i, v, hi, -, he, hv⟩ := Parse.ensures_negated_exact hus e vs hdone
    exact ⟨i, v, hi, he, hv⟩

def leastLiteral : Block :=
  [.ifElse (.var "a") (.block [.ifThen (.var "a") (.evaluate (.literal (-0x7fffffffffffffff)))])
    (.loop (.var "a") (.ifThen (.var "a") (.result (.call "a" []))))]

theorem leastLiteral_writable : ∀ s ∈ leastLiteral, s.Writable := by
  have hname : IsName "a" := by
    refine ⟨⟨'a', [], rfl, .inr (.inl ⟨by decide, by decide⟩), nofun⟩, fun k => ?_⟩
    cases k <;> decide
  have ha : (Expression.var "a").Writable := .var hname
  have hcall : (Expression.call "a" []).Writable := .call hname nofun
  have hleast : (Expression.literal (-0x7fffffffffffffff)).Writable := .literal (by decide)
  refine List.forall_mem_singleton.2 (.ifElse ha (.block ?_) (.loop ha (.ifThen ha (.result hcall))) rfl)
  exact List.forall_mem_singleton.2 (.ifThen ha (.evaluate hleast))

theorem leastLiteral_read_back :
    (∀ s ∈ leastLiteral, s.Writable) ∧ parseProgram (render leastLiteral) = .ok leastLiteral :=
  ⟨leastLiteral_writable, (front_end_image leastLiteral).2.1 leastLiteral_writable⟩

end IntScript
