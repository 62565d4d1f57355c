import IntScript.Proofs.Continuation
import IntScript.Proofs.GrammarSound

set_option autoImplicit false

namespace IntScript

open Attempt Grammar

namespace Parse

variable {α β : Type} {ts : List Token} {ks rest : Kinds} {n : Nat} {R : Kinds → Prop}

/-- The reader does not fail at these tokens, and leaves kinds of the given set. -/
def Accepts (m : Parse α) (ts : List Token) (R : Kinds → Prop) : Prop :=
  m.Succeeds ts fun _ us => ∃ ks, At us ks ∧ R ks

theorem accepts_pure {a : α} (h : At ts ks) (hks : R ks) : Accepts (Pure.pure a : Parse α) ts R :=
  succeeds_pure ⟨ks, h, hks⟩

theorem Accepts.bind {m : Parse α} {f : α → Parse β} {Q : β → List Token → Prop} (hm : Accepts m ts R)
    (hf : ∀ a us ks, At us ks → R ks → (f a).Succeeds us Q) : (m >>= f).Succeeds ts Q :=
  Succeeds.bind hm fun a us ⟨ks, hus, hks⟩ => hf a us ks hus hks

section Tuples

variable {item : Parse α} {D : Kinds → α → Prop} {as : List α}

theorem accepts_commaList
    (hitem : ∀ ts ks a rest, D ks a → Delimited rest → At ts (ks ++ rest) → Accepts item ts (· = rest))
    (h : Items D ks as) (hts : At ts (ks ++ .rightParen :: rest)) :
    Accepts (commaList n item) ts (· = .rightParen :: rest) := by
  induction n generalizing ts ks as with
  | zero => exact succeeds_outOfFuel
  | succ n ih =>
    rw [commaList]
    cases h with
    | last ha =>
      refine (hitem _ _ _ _ ha (.inr rfl) hts).bind ?_
      rintro a us _ hus rfl
      exact succeeds_decline (by simp [hus.current]) (accepts_pure hus rfl)
    | more ha has =>
      rw [List.append_assoc] at hts
      refine (hitem _ _ _ _ ha (.inl rfl) hts).bind ?_
      rintro a us _ hus rfl
      refine succeeds_accept hus (by simp) fun vs hvs => ?_
      refine (ih has hvs).bind ?_
      rintro as ws _ hws rfl
      exact accepts_pure hws rfl

theorem accepts_tuple
    (hitem : ∀ ts ks a rest, D ks a → Delimited rest → At ts (ks ++ rest) → Accepts item ts (· = rest))
    (hstarts : ∀ ks a rest, D ks a → (ks ++ rest).headD .endOfText ≠ .rightParen)
    (h : Tuple D ks as) (hts : At ts (ks ++ rest)) : Accepts (tuple n item) ts (· = rest) := by
  rw [tuple]
  cases h with
  | empty =>
    refine succeeds_consume hts (by simp) fun us hus => succeeds_check hus ?_
    exact succeeds_consume hus (by simp) fun vs hvs => accepts_pure hvs rfl
  | items has =>
    simp only [List.cons_append, List.append_assoc, List.nil_append] at hts
    refine succeeds_consume hts (by simp) fun us hus => ?_
    have hno : (current us).kind ≠ .rightParen := by
      rw [hus.current]
      cases has with
      | last ha => exact hstarts _ _ _ ha
      | more ha _ =>
        rw [List.append_assoc]
        exact hstarts _ _ _ ha
    refine succeeds_check_other hno ?_
    refine (accepts_commaList hitem has hus).bind ?_
    rintro as vs _ hvs rfl
    exact succeeds_consume hvs (by simp) fun ws hws => accepts_pure hws rfl

end Tuples

section Expressions

variable {os : Kinds} {o e : Expression}

theorem accepts_arguments {inner : Parse Expression}
    (hinner : ∀ R ts ks e rest, Closed R → Expr ks e → R rest → At ts (ks ++ rest) → Accepts inner ts R)
    {args : List Expression} (h : Tuple Expr ks args) (hts : At ts (ks ++ rest)) :
    Accepts (tuple n inner) ts (· = rest) := by
  refine accepts_tuple (fun ts ks a rest ha hrest hts => ?_) (fun ks a rest ha => ?_) h hts
  · exact hinner _ ts ks a rest hrest.closed ha rfl hts
  · obtain ⟨k, ks', rfl, hk⟩ := ha.starts
    rintro rfl
    cases hk

theorem accepts_operand {inner : Parse Expression}
    (hinner : ∀ R ts ks e rest, Closed R → Expr ks e → R rest → At ts (ks ++ rest) → Accepts inner ts R)
    (hR : Closed R) (h : Operand os o) (hrest : After R rest) (hts : At ts (os ++ rest)) :
    Accepts (operand n inner (current ts).kind) ts (After R) := by
  cases h with
  | integer _ =>
    rw [hts.current]
    exact succeeds_advance hts (by simp) fun us hus => accepts_pure hus hrest
  | negated _ =>
    rw [hts.current]
    refine succeeds_advance hts (by simp) fun us hus => succeeds_ask ?_
    rw [hus.current]
    exact succeeds_advance hus (by simp) fun vs hvs => accepts_pure hvs hrest
  | var x =>
    rw [hts.current]
    refine succeeds_advance hts (by simp) fun us hus => succeeds_ask ?_
    split
    · next hparen =>
      -- the parenthesis begins what may follow the name; it is read as the arguments of a call
      cases rest with
      | nil => simp [hus.current] at hparen
      | cons k rest =>
        obtain rfl : k = .leftParen := by simpa [hus.current] using hparen
        obtain ⟨cs, c, rest', hc, hrest', rfl⟩ := hrest.call hR
        have hargs : Tuple Expr (.leftParen :: cs ++ [.rightParen]) [c] := .items (.last hc)
        refine (accepts_arguments hinner hargs (by simpa using hus)).bind ?_
        rintro args vs _ hvs rfl
        exact accepts_pure hvs hrest'
    · exact accepts_pure hus hrest
  | call hargs =>
    rw [hts.current]
    refine succeeds_advance hts (by simp) fun us hus => succeeds_ask ?_
    have hparen : (current us).kind = .leftParen := by
      rw [hus.current]
      cases hargs <;> rfl
    rw [if_pos (by simp [hparen])]
    refine (accepts_arguments hinner hargs hus).bind ?_
    rintro args vs _ hvs rfl
    exact accepts_pure hvs hrest
  | @parens ks _ he =>
    rw [hts.current]
    refine succeeds_advance hts (by simp) fun us hus => ?_
    have hclosed : Closed (· = .rightParen :: rest) := Delimited.closed (.inr rfl)
    refine (hinner _ us ks _ _ hclosed he rfl (by simpa using hus)).bind ?_
    rintro e vs _ hvs rfl
    exact succeeds_consume hvs (by simp) fun ws hws => accepts_pure hws hrest

/-- At the weakest level no operator is left before what may follow. -/
theorem accepts_weakest
    (hbinary : ∀ ts os o rest, Operand os o → After R rest → At ts (os ++ rest) →
      (binary n 0).Succeeds ts fun _ us => ∃ ks, At us ks ∧ After R ks ∧ NextBelow 0 us)
    (he : Expr ks e) (hrest : R rest) (hts : At ts (ks ++ rest)) : Accepts (binary n 0) ts R := by
  obtain ⟨os, o, tail, ho, htail, rfl⟩ := he.flat
  rw [List.append_assoc] at hts
  refine (hbinary ts os o _ ho (.tail htail hrest) hts).mono ?_
  rintro e us ⟨ks, hus, hks, hbelow⟩
  refine ⟨ks, hus, hks.rest_of_no_operator fun op hop => ?_⟩
  exact absurd (hbelow op (hus.current.trans hop)) (Nat.not_lt_zero _)

theorem accepts_expressions (n : Nat) :
    (∀ R level ts os o rest, Closed R → Operand os o → After R rest → At ts (os ++ rest) →
      (binary n level).Succeeds ts fun _ us => ∃ ks, At us ks ∧ After R ks ∧ NextBelow level us) ∧
    (∀ R level left ts ks, Closed R → After R ks → At ts ks →
      (climb n level left).Succeeds ts fun _ us => ∃ ks, At us ks ∧ After R ks ∧ NextBelow level us) ∧
    (∀ R ts os o rest, Closed R → Operand os o → After R rest → At ts (os ++ rest) →
      Accepts (primary n) ts (After R)) := by
  induction n with
  | zero =>
    exact ⟨fun _ _ _ _ _ _ _ _ _ _ => succeeds_outOfFuel, fun _ _ _ _ _ _ _ _ => succeeds_outOfFuel,
      fun _ _ _ _ _ _ _ _ _ => succeeds_outOfFuel⟩
  | succ n ih =>
    obtain ⟨hbinary, hclimb, hprimary⟩ := ih
    refine ⟨fun R level ts os o rest hR ho hrest hts => ?_, fun R level left ts ks hR hks hts => ?_,
      fun R ts os o rest hR ho hrest hts => ?_⟩
    · rw [binary]
      refine (hprimary R ts os o rest hR ho hrest hts).bind fun left us ks hus hks => ?_
      exact hclimb R level left us ks hR hks hus
    · rw [climb]
      refine succeeds_ask ?_
      rw [current_operator? hts.1]
      split
      · next hnone =>
        refine succeeds_pure ⟨ks, hts, hks, fun op hop => ?_⟩
        rw [hop] at hnone
        cases hnone
      · next op hop =>
        have hop := TokenKind.operator?_eq_some.1 hop
        split
        · next hlt =>
          refine succeeds_pure ⟨ks, hts, hks, fun op' hop' => ?_⟩
          cases hop.symm.trans hop'
          exact hlt
        · obtain ⟨t, us, rfl, ht⟩ := exists_of_current (by simp) hop
          obtain ⟨hscanned, rfl⟩ := hts
          rw [kinds_cons, ht] at hks
          obtain ⟨os, o, rest, ho, hrest, heq⟩ := hks.operator hR
          have hts : At (t :: us) (.operator op :: (os ++ rest)) := ⟨hscanned, by rw [kinds_cons, ht, heq]⟩
          refine succeeds_advance hts (by simp) fun vs hvs => ?_
          refine (hbinary R (op.level + 1) vs os o rest hR ho hrest hvs).bind ?_
          rintro right ws ⟨ks, hws, hks, -⟩
          exact hclimb R level _ ws ks hR hks hws
    · rw [primary]
      refine succeeds_ask (accepts_operand (fun R ts ks e rest hR he hrest hts => ?_) hR ho hrest hts)
      exact accepts_weakest (fun ts os o rest => hbinary R 0 ts os o rest hR) he hrest hts

theorem accepts_expression (hR : Closed R) (he : Expr ks e) (hrest : R rest) (hts : At ts (ks ++ rest)) :
    Accepts (expression n) ts R :=
  accepts_weakest (fun ts os o rest => (accepts_expressions n).1 R 0 ts os o rest hR) he hrest hts

theorem accepts_condition (he : Expr ks e) (hts : At ts (.leftParen :: (ks ++ .rightParen :: rest))) :
    Accepts (condition n) ts (· = rest) := by
  refine succeeds_consume hts (by simp) fun us hus => ?_
  have hclosed : Closed (· = .rightParen :: rest) := Delimited.closed (.inr rfl)
  refine (accepts_expression hclosed he rfl hus).bind ?_
  rintro c vs _ hvs rfl
  exact succeeds_consume hvs (by simp) fun ws hws => accepts_pure hws rfl

end Expressions

section Statements

variable {item : Parse Statement} {close : Kinds → Prop} {depth : Nat} {s : Statement} {e : Expression}

def AcceptsStatements (item : Parse Statement) : Prop :=
  ∀ {close depth ts ks s rest}, Closing close → Stmt ks s → Rest close depth rest → At ts (ks ++ rest) →
    Accepts item ts (Rest close depth)

theorem closing_rightBrace (rest : Kinds) : Closing (· = .rightBrace :: rest) := by
  rintro _ rfl
  exact .inl rfl

theorem closing_end : Closing (· = [.endOfText]) := by
  rintro _ rfl
  exact .inr rfl

theorem accepts_untilBrace (hitem : AcceptsStatements item) (h : Rest (· = .rightBrace :: rest) 0 ks)
    (hts : At ts ks) : Accepts (untilBrace n item) ts (· = .rightBrace :: rest) := by
  induction n generalizing ts ks with
  | zero => exact succeeds_outOfFuel
  | succ n ih =>
    rw [untilBrace]
    rcases h.zero_cases with rfl | ⟨ss, s, rest', hs, hrest, rfl⟩
    · exact succeeds_check hts (accepts_pure hts rfl)
    · obtain ⟨k, ss', rfl, hk⟩ := hs.starts
      obtain rfl : (current ts).kind = k := hts.current
      refine succeeds_check_other (TokenKind.ne_of_startsStatement hk rfl) ?_
      refine succeeds_check_other (TokenKind.ne_of_startsStatement hk rfl) ?_
      refine (hitem (closing_rightBrace rest) hs hrest hts).bind fun s us ks hus hks => ?_
      refine (ih hks hus).bind ?_
      rintro body vs _ hvs rfl
      exact accepts_pure hvs rfl

theorem accepts_untilEnd (hitem : AcceptsStatements item) (h : Rest (· = [.endOfText]) 0 ks) (hts : At ts ks) :
    Accepts (untilEnd n item) ts (· = [.endOfText]) := by
  induction n generalizing ts ks with
  | zero => exact succeeds_outOfFuel
  | succ n ih =>
    rw [untilEnd]
    rcases h.zero_cases with rfl | ⟨ss, s, rest', hs, hrest, rfl⟩
    · exact succeeds_check hts (accepts_pure hts rfl)
    · obtain ⟨k, ss', rfl, hk⟩ := hs.starts
      obtain rfl : (current ts).kind = k := hts.current
      refine succeeds_check_other (TokenKind.ne_of_startsStatement hk rfl) ?_
      refine (hitem closing_end hs hrest hts).bind fun s us ks hus hks => ?_
      refine (ih hks hus).bind ?_
      rintro body vs _ hvs rfl
      exact accepts_pure hvs rfl

theorem accepts_braced (hitem : AcceptsStatements item) {body : Block} (hbody : Many Stmt ks body)
    (hts : At ts (.leftBrace :: (ks ++ .rightBrace :: rest))) : Accepts (braced n item) ts (· = rest) := by
  refine succeeds_consume hts (by simp) fun us hus => ?_
  refine (accepts_untilBrace hitem (.list hbody rfl) hus).bind ?_
  rintro body vs _ hvs rfl
  exact succeeds_consume hvs (by simp) fun ws hws => accepts_pure hws rfl

theorem accepts_functionDefinition (hitem : AcceptsStatements item) {f : String} {ps bs : Kinds}
    {params : List String} {body : Block} (hparams : Tuple Name ps params) (hbody : Many Stmt bs body)
    (hts : At ts (.keyword .function :: .identifier f :: (ps ++ .leftBrace :: (bs ++ .rightBrace :: rest)))) :
    Accepts (functionDefinition n item) ts (· = rest) := by
  refine succeeds_advance hts (by simp) fun us hus => ?_
  refine succeeds_name hus fun vs hvs => ?_
  have hname : ∀ ts ks x rest, Name ks x → Delimited rest → At ts (ks ++ rest) →
      Accepts (name .parameter) ts (· = rest) := by
    rintro ts _ _ rest ⟨x⟩ - hts
    rw [← bind_pure (name .parameter)]
    exact succeeds_name hts fun us hus => accepts_pure hus rfl
  have hstarts : ∀ ks x rest, Name ks x → (ks ++ rest).headD .endOfText ≠ .rightParen := by
    rintro _ _ rest ⟨x⟩
    simp
  refine (accepts_tuple hname hstarts hparams hvs).bind ?_
  rintro params ws _ hws rfl
  refine (accepts_braced hitem hbody hws).bind ?_
  rintro body xs _ hxs rfl
  exact accepts_pure hxs rfl

theorem accepts_loop (hitem : AcceptsStatements item) (hclose : Closing close) {cs : Kinds} (he : Expr cs e)
    (hs : Stmt ks s) (hrest : Rest close depth rest)
    (hts : At ts (.keyword .loop :: .leftParen :: (cs ++ .rightParen :: (ks ++ rest)))) :
    Accepts (loop n item) ts (Rest close depth) := by
  refine succeeds_advance hts (by simp) fun us hus => ?_
  refine (accepts_condition he hus).bind ?_
  rintro c vs _ hvs rfl
  refine (hitem hclose hs hrest hvs).bind fun body ws ks hws hks => ?_
  exact accepts_pure hws hks

/-- An alternative that is there is taken, whichever conditional it was meant for. -/
theorem accepts_conditional (hitem : AcceptsStatements item) (hclose : Closing close) {cs : Kinds} (he : Expr cs e)
    (hs : Stmt ks s) (hrest : Rest close (depth + 1) rest)
    (hts : At ts (.keyword .conditional :: .leftParen :: (cs ++ .rightParen :: (ks ++ rest)))) :
    Accepts (conditional n item) ts (Rest close depth) := by
  refine succeeds_advance hts (by simp) fun us hus => ?_
  refine (accepts_condition he hus).bind ?_
  rintro c vs _ hvs rfl
  refine (hitem hclose hs hrest hvs).bind fun s ws ks hws hks => ?_
  rcases hks.succ_cases hclose with ⟨ss, s', rest, hs', hrest, rfl⟩ | ⟨hzero, halt⟩
  · refine succeeds_accept hws (by simp) fun xs hxs => ?_
    refine (hitem hclose hs' hrest hxs).bind fun s' ys ks hys hks => ?_
    exact accepts_pure hys hks
  · refine succeeds_decline (by rwa [hws.current]) ?_
    exact accepts_pure hws hzero.of_zero

theorem accepts_declaration {x : String} (hclose : Closing close) (hrest : Rest close depth rest)
    (hts : At ts (.keyword .var :: .identifier x :: rest)) : Accepts (declaration n) ts (Rest close depth) := by
  refine succeeds_advance hts (by simp) fun us hus => ?_
  refine succeeds_name hus fun vs hvs => ?_
  refine succeeds_decline (by rw [hvs.current]; exact hrest.not_assign hclose) ?_
  exact accepts_pure hvs hrest

theorem accepts_declaration_as {x : String} (hclose : Closing close) (he : Expr ks e) (hrest : Rest close depth rest)
    (hts : At ts (.keyword .var :: .identifier x :: .assign :: (ks ++ rest))) :
    Accepts (declaration n) ts (Rest close depth) := by
  refine succeeds_advance hts (by simp) fun us hus => ?_
  refine succeeds_name hus fun vs hvs => ?_
  refine succeeds_accept hvs (by simp) fun ws hws => ?_
  refine (accepts_expression (Rest.closed hclose depth) he hrest hws).bind fun e xs ks hxs hks => ?_
  exact accepts_pure hxs hks

theorem accepts_result (hclose : Closing close) (he : Expr ks e) (hrest : Rest close depth rest)
    (hts : At ts (.keyword .result :: (ks ++ rest))) : Accepts (result n) ts (Rest close depth) := by
  refine succeeds_advance hts (by simp) fun us hus => ?_
  refine (accepts_expression (Rest.closed hclose depth) he hrest hus).bind fun e vs ks hvs hks => ?_
  exact accepts_pure hvs hks

theorem accepts_assignment {x : String} (hclose : Closing close) (he : Expr ks e) (hrest : Rest close depth rest)
    (hts : At ts (.identifier x :: .assign :: (ks ++ rest))) : Accepts (assignment n) ts (Rest close depth) := by
  refine succeeds_name hts fun us hus => ?_
  refine succeeds_consume hus (by simp) fun vs hvs => ?_
  refine (accepts_expression (Rest.closed hclose depth) he hrest hvs).bind fun e ws ks hws hks => ?_
  exact accepts_pure hws hks

theorem accepts_evaluation (hclose : Closing close) (he : Expr ks e) (hrest : Rest close depth rest)
    (hts : At ts (ks ++ rest)) : Accepts (evaluation n) ts (Rest close depth) := by
  refine (accepts_expression (Rest.closed hclose depth) he hrest hts).bind fun e us ks hus hks => ?_
  exact accepts_pure hus hks

theorem accepts_statementFrom (hitem : AcceptsStatements item) (hclose : Closing close) (hs : Stmt ks s)
    (hrest : Rest close depth rest) (hts : At ts (ks ++ rest)) :
    Accepts (statementFrom n item (current ts).kind) ts (Rest close depth) := by
  cases hs with
  | function hparams hbody =>
    rw [hts.current]
    refine (accepts_functionDefinition hitem hparams hbody (by simpa using hts)).mono ?_
    rintro s us ⟨_, hus, rfl⟩
    exact ⟨_, hus, hrest⟩
  | block hbody =>
    rw [hts.current]
    refine (accepts_braced hitem hbody (by simpa using hts)).bind ?_
    rintro body us _ hus rfl
    exact accepts_pure hus hrest
  | declare x =>
    rw [hts.current]
    exact accepts_declaration hclose hrest hts
  | declareAs he =>
    rw [hts.current]
    exact accepts_declaration_as hclose he hrest hts
  | loop he hs =>
    rw [hts.current]
    exact accepts_loop hitem hclose he hs hrest (by simpa using hts)
  | ifThen he hs =>
    rw [hts.current]
    exact accepts_conditional hitem hclose he hs hrest.succ (by simpa using hts)
  | ifElse he hs hs' =>
    rw [hts.current]
    exact accepts_conditional hitem hclose he hs (.alternative hs' hrest) (by simpa using hts)
  | result he =>
    rw [hts.current]
    exact accepts_result hclose he hrest hts
  | assign he =>
    have hnext : nextIs .assign ts = true := by
      rw [hts.nextIs (by simp)]
      simp
    rw [hts.current]
    refine succeeds_ask ?_
    rw [hnext]
    exact accepts_assignment hclose he hrest hts
  | evaluate he =>
    have heval : Accepts (evaluation n) ts (Rest close depth) := accepts_evaluation hclose he hrest hts
    obtain ⟨k, ks', rfl, hk⟩ := he.starts
    rw [hts.current]
    cases k with
    | identifier x =>
      have hnext : nextIs .assign ts = false := by
        rw [hts.nextIs (by simp)]
        exact beq_eq_false_iff_ne.2 (he.not_assign (hrest.not_assign hclose))
      refine succeeds_ask ?_
      rw [hnext]
      exact heval
    | keyword _ => cases hk
    | leftBrace => cases hk
    | _ => exact heval

theorem accepts_statement (n : Nat) : AcceptsStatements (statement n) := by
  induction n with
  | zero => exact fun _ _ _ _ => succeeds_outOfFuel
  | succ n ih =>
    intro close depth ts ks s rest hclose hs hrest hts
    rw [statement]
    exact succeeds_ask (accepts_statementFrom ih hclose hs hrest hts)

end Statements

end Parse

theorem Passed.to_end {body us : List Token} {p : Position} {ks : Kinds} (h : Passed (body ++ [.endAt p]) ks us)
    (hbody : ∀ t ∈ body, t.kind ≠ .endOfText) (hend : (Parse.current us).kind = .endOfText) : us = [.endAt p] := by
  obtain ⟨read, heq, rfl, hread⟩ := h
  rcases List.append_eq_append_iff.1 heq with ⟨skipped, rfl, hskipped⟩ | ⟨left, rfl, rfl⟩
  · cases skipped with
    | nil => exact hskipped.symm
    | cons t skipped =>
      obtain ⟨rfl, -⟩ := List.cons.inj hskipped
      exact absurd (List.mem_map.2 ⟨.endAt p, List.mem_append_right body List.mem_cons_self, rfl⟩) hread
  · cases left with
    | nil => rfl
    | cons t left => exact absurd hend (hbody t (by simp))

theorem file_of_parseTokens {source : String} {ts : List Token} {body : Block} (h : tokenize source = .ok ts)
    (hbody : (parseTokens ts).1 = .ok body) : File (kinds ts) body := by
  obtain ⟨tokens, p, rfl, hend, hscanned⟩ := scanned_of_tokenize h
  obtain ⟨us, hus⟩ := parseTokens_eq_ok.1 hbody
  obtain ⟨ks, hpassed, hks, hcurrent⟩ :=
    Parse.ensures_untilEnd (Parse.reads_statement _) _ hscanned body us hus
  obtain rfl := hpassed.to_end hend hcurrent
  rw [hpassed.kinds_eq]
  exact .intro hks

theorem parseTokens_of_many {ts : List Token} {p : Position} {body : Block} (hts : Scanned (ts ++ [.endAt p]))
    (hbody : Many Stmt (kinds ts) body) : ∃ body', (parseTokens (ts ++ [.endAt p])).1 = .ok body' := by
  have hat : At (ts ++ [.endAt p]) (kinds ts ++ [.endOfText]) := ⟨hts, kinds_append ts _⟩
  obtain ⟨body', us, hbody', -⟩ := parseTokens_of_succeeds
    (Parse.accepts_untilEnd (Parse.accepts_statement _) (.list hbody rfl) hat)
  exact ⟨body', hbody'⟩

theorem parseTokens_of_file {source : String} {ts : List Token} {body : Block} (h : tokenize source = .ok ts)
    (hfile : File (kinds ts) body) : ∃ body', (parseTokens ts).1 = .ok body' := by
  obtain ⟨tokens, p, rfl, hend, hscanned⟩ := scanned_of_tokenize h
  generalize hks : kinds (tokens ++ [Token.endAt p]) = ks at hfile
  cases hfile with
  | intro hbody =>
    rw [kinds_append] at hks
    obtain ⟨rfl, -⟩ := List.append_inj' hks rfl
    exact parseTokens_of_many hscanned hbody

/-- The reader accepts exactly the grammar. -/
theorem parser_accepts_grammar {source : String} {ts : List Token} (h : tokenize source = .ok ts) :
    (∀ body, (parseTokens ts).1 = .ok body → File (kinds ts) body) ∧
      ((∃ body, File (kinds ts) body) → ∃ body, (parseTokens ts).1 = .ok body) :=
  ⟨fun _ hbody => file_of_parseTokens h hbody, fun ⟨_, hfile⟩ => parseTokens_of_file h hfile⟩

def sideBySide : List Token :=
  [⟨.identifier "a", "a", ⟨1, 1⟩⟩, ⟨.leftParen, "(", ⟨1, 3⟩⟩, ⟨.identifier "b", "b", ⟨1, 4⟩⟩,
    ⟨.rightParen, ")", ⟨1, 5⟩⟩, .endAt ⟨1, 6⟩]

theorem tokenize_sideBySide : tokenize "a (b)" = .ok sideBySide := by
  have ha : Segment.first 'a' [' ', '(', 'b', ')'] = (_, [' ', '(', 'b', ')']) := rfl
  have hspace : Segment.first ' ' ['(', 'b', ')'] = (_, ['(', 'b', ')']) := rfl
  have hopen : Segment.first '(' ['b', ')'] = (_, ['b', ')']) := rfl
  have hb : Segment.first 'b' [')'] = (_, [')']) := rfl
  have hclose : Segment.first ')' [] = (_, []) := rfl
  change (Scanner.scanFrom (segments ['a', ' ', '(', 'b', ')']) .start []).1 = _
  rw [segments_of_first ha, segments_of_first hspace, segments_of_first hopen, segments_of_first hb,
    segments_of_first hclose, segments]
  rfl

/-- As two statements; it is read as one call. -/
theorem sideBySide_file : File (kinds sideBySide) [.evaluate (.var "a"), .evaluate (.var "b")] := by
  have ha : Expr [.identifier "a"] (.var "a") := (Layer.operand (.var "a")).loosen (Nat.zero_le 6)
  have hb : Expr [.identifier "b"] (.var "b") := (Layer.operand (.var "b")).loosen (Nat.zero_le 6)
  have hparens : Expr [.leftParen, .identifier "b", .rightParen] (.var "b") :=
    (Layer.operand (.parens hb)).loosen (Nat.zero_le 6)
  exact .intro (.cons (.evaluate ha) (.cons (.evaluate hparens) .nil))

theorem sideBySide_accepted :
    tokenize "a (b)" = .ok sideBySide ∧ (∃ body, (parseTokens sideBySide).1 = .ok body) ∧
      ∀ body, (parseTokens sideBySide).1 = .ok body → File (kinds sideBySide) body := by
  obtain ⟨hsound, hcomplete⟩ := parser_accepts_grammar tokenize_sideBySide
  exact ⟨tokenize_sideBySide, hcomplete ⟨_, sideBySide_file⟩, hsound⟩

end IntScript
