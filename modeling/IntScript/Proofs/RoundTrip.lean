import IntScript.Proofs.Continuation
import IntScript.Proofs.GrammarSound
import IntScript.Proofs.SpellingScanned

set_option autoImplicit false

namespace IntScript

open Attempt Grammar

namespace Parse

variable {α β : Type} {ts : List Token} {rest : Kinds} {n : Nat}

/-- The reader hands the value back and stops at the given kinds. -/
def Returns (m : Parse α) (ts : List Token) (a : α) (rest : Kinds) : Prop :=
  m.Succeeds ts fun b us => b = a ∧ At us rest

theorem returns_pure {a : α} (h : At ts rest) : Returns (Pure.pure a) ts a rest := succeeds_pure ⟨rfl, h⟩

theorem Returns.bind {m : Parse α} {f : α → Parse β} {a : α} {Q : β → List Token → Prop} (hm : Returns m ts a rest)
    (hf : ∀ us, At us rest → (f a).Succeeds us Q) : (m >>= f).Succeeds ts Q := by
  refine Succeeds.bind hm ?_
  rintro _ us ⟨rfl, hus⟩
  exact hf us hus

section Tuples

variable {item : Parse α} {write : α → Kinds}

theorem returns_commaList {a : α} {as : List α}
    (hitem : ∀ b ∈ a :: as, ∀ ts rest, Delimited rest → At ts (write b ++ rest) → Returns item ts b rest)
    (hts : At ts (List.intercalate [.comma] ((a :: as).map write) ++ .rightParen :: rest)) :
    Returns (commaList n item) ts (a :: as) (.rightParen :: rest) := by
  induction n generalizing ts a as with
  | zero => exact succeeds_outOfFuel
  | succ n ih =>
    obtain ⟨ha, has⟩ := List.forall_mem_cons.1 hitem
    rw [commaList]
    cases as with
    | nil =>
      refine (ha ts _ (.inr rfl) (by simpa using hts)).bind fun us hus => ?_
      exact succeeds_decline (by simp [hus.current]) (returns_pure hus)
    | cons b as =>
      simp only [List.map_cons, List.intercalate_cons_cons, List.append_assoc] at hts
      refine (ha ts _ (.inl rfl) hts).bind fun us hus => ?_
      refine succeeds_accept hus (by simp) fun vs hvs => ?_
      exact (ih has (by simpa using hvs)).bind fun ws hws => returns_pure hws

theorem returns_tuple {as : List α}
    (hitem : ∀ b ∈ as, ∀ ts rest, Delimited rest → At ts (write b ++ rest) → Returns item ts b rest)
    (hstarts : ∀ b rest, (write b ++ rest).headD .endOfText ≠ .rightParen)
    (hts : At ts (inTuple (as.map write) ++ rest)) : Returns (tuple n item) ts as rest := by
  simp only [inTuple, inParens, List.cons_append, List.append_assoc, List.nil_append] at hts
  rw [tuple]
  refine succeeds_consume hts (by simp) fun us hus => ?_
  cases as with
  | nil =>
    have hus : At us (.rightParen :: rest) := hus
    refine succeeds_check hus ?_
    exact succeeds_consume hus (by simp) fun vs hvs => returns_pure hvs
  | cons a as =>
    have hno : (current us).kind ≠ .rightParen := by
      rw [hus.current]
      cases as with
      | nil => simpa using hstarts a (.rightParen :: rest)
      | cons b as =>
        simp only [List.map_cons, List.intercalate_cons_cons, List.append_assoc]
        exact hstarts a _
    refine succeeds_check_other hno ?_
    refine (returns_commaList hitem hus).bind fun vs hvs => ?_
    exact succeeds_consume hvs (by simp) fun ws hws => returns_pure hws

end Tuples

section Expressions

def NoOperator (rest : Kinds) : Prop := ∀ op, rest.headD .endOfText ≠ .operator op

theorem noOperator_rightParen (rest : Kinds) : NoOperator (.rightParen :: rest) := nofun

theorem noOperator_of_delimited (h : Delimited rest) : NoOperator rest := by
  intro op heq
  cases rest with
  | nil => cases heq
  | cons k rest =>
    obtain rfl : k = .operator op := heq
    rcases h with h | h <;> cases h

theorem returns_climb_none (level : Nat) (left : Expression) (hrest : NoOperator rest) (hts : At ts rest) :
    Returns (climb n level left) ts left rest := by
  cases n with
  | zero => exact succeeds_outOfFuel
  | succ n =>
    rw [climb]
    refine succeeds_ask ?_
    have hnone : (current ts).operator? = none := by
      rw [current_operator? hts.1, hts.current, Option.eq_none_iff_forall_ne_some]
      exact fun op hop => hrest op (TokenKind.operator?_eq_some.1 hop)
    rw [hnone]
    exact returns_pure hts

/-- What the readers of expressions do with the given fuel at the kinds of an expression. -/
structure ReadsBack (n : Nat) : Prop where
  primary : ∀ (e : Expression) ts rest, At ts (e.kinds ++ rest) → Returns (primary n) ts e rest
  atom : ∀ (e : Expression) ts rest, (∀ op l r, e ≠ .binary op l r) → At ts (e.bareKinds ++ .rightParen :: rest) →
    Returns (Parse.primary n) ts e (.rightParen :: rest)
  bare : ∀ (e : Expression) ts rest, At ts (e.bareKinds ++ .rightParen :: rest) →
    Returns (binary n 0) ts e (.rightParen :: rest)
  binary : ∀ level (e : Expression) ts rest, NoOperator rest → At ts (e.kinds ++ rest) →
    Returns (Parse.binary n level) ts e rest
  climb : ∀ op l (r : Expression) ts rest, NoOperator rest → At ts (.operator op :: (r.kinds ++ rest)) →
    Returns (climb n 0 l) ts (.binary op l r) rest

theorem returns_arguments (hn : ReadsBack n) {args : List Expression}
    (hts : At ts (inTuple (args.map Expression.kinds) ++ rest)) : Returns (tuple n (binary n 0)) ts args rest := by
  refine returns_tuple (fun e _ ts rest hrest hts => ?_) (fun e rest => ?_) hts
  · exact hn.binary 0 e ts rest (noOperator_of_delimited hrest) hts
  · rw [Expression.kinds_headD]
    simp

theorem returns_atom (hn : ReadsBack n) {e : Expression} (he : ∀ op l r, e ≠ .binary op l r)
    (hts : At ts (e.bareKinds ++ .rightParen :: rest)) :
    Returns (operand n (binary n 0) (current ts).kind) ts e (.rightParen :: rest) := by
  cases e with
  | binary op l r => exact absurd rfl (he op l r)
  | call f args =>
    rw [Expression.bareKinds, Expression.kindsEach_eq] at hts
    rw [hts.current]
    refine succeeds_advance hts (by simp) fun us hus => succeeds_check hus ?_
    exact (returns_arguments hn hus).bind fun vs hvs => returns_pure hvs
  | var x =>
    rw [Expression.bareKinds] at hts
    rw [hts.current]
    refine succeeds_advance hts (by simp) fun us hus => ?_
    exact succeeds_check_other (by simp [hus.current]) (returns_pure hus)
  | literal v =>
    rw [Expression.bareKinds] at hts
    split at hts
    · rw [hts.current]
      refine succeeds_advance hts (by simp) fun us hus => succeeds_ask ?_
      rw [hus.current]
      refine succeeds_advance hus (by simp) fun vs hvs => ?_
      rw [Int.neg_neg, Int64.ofInt_toInt]
      exact returns_pure hvs
    · rw [hts.current]
      refine succeeds_advance hts (by simp) fun us hus => ?_
      rw [Int64.ofInt_toInt]
      exact returns_pure hus

namespace ReadsBack

theorem zero : ReadsBack 0 :=
  ⟨fun _ _ _ _ => succeeds_outOfFuel, fun _ _ _ _ _ => succeeds_outOfFuel, fun _ _ _ _ => succeeds_outOfFuel,
    fun _ _ _ _ _ _ => succeeds_outOfFuel, fun _ _ _ _ _ _ _ => succeeds_outOfFuel⟩

theorem succ (hn : ReadsBack n) : ReadsBack (n + 1) where
  primary e ts rest hts := by
    simp only [Expression.kinds, inParens, List.cons_append, List.append_assoc] at hts
    rw [Parse.primary]
    refine succeeds_ask ?_
    rw [hts.current]
    refine succeeds_advance hts (by simp) fun us hus => ?_
    refine (hn.bare e us rest hus).bind fun vs hvs => ?_
    exact succeeds_consume hvs (by simp) fun ws hws => returns_pure hws
  atom e ts rest he hts := by
    rw [Parse.primary]
    exact succeeds_ask (returns_atom hn he hts)
  bare e ts rest hts := by
    rw [Parse.binary]
    have hatom (he : ∀ op l r, e ≠ .binary op l r) :
        Returns (Parse.primary n >>= Parse.climb n 0) ts e (.rightParen :: rest) := by
      refine (hn.atom e ts rest he hts).bind fun us hus => ?_
      exact returns_climb_none 0 e (noOperator_rightParen rest) hus
    cases e with
    | binary op l r =>
      have hts : At ts (l.kinds ++ (.operator op :: (r.kinds ++ .rightParen :: rest))) := by
        simpa [Expression.bareKinds, Expression.kinds] using hts
      refine (hn.primary l ts _ hts).bind fun us hus => ?_
      exact hn.climb op l r us _ (noOperator_rightParen rest) hus
    | _ => exact hatom (by simp)
  binary level e ts rest hrest hts := by
    rw [Parse.binary]
    exact (hn.primary e ts rest hts).bind fun us hus => returns_climb_none level e hrest hus
  climb op l r ts rest hrest hts := by
    rw [Parse.climb]
    refine succeeds_ask ?_
    have hop : (current ts).operator? = some op := by
      rw [current_operator? hts.1, hts.current]
      rfl
    rw [hop]
    change Succeeds (if op.level < 0 then _ else _) ts _
    rw [if_neg (Nat.not_lt_zero _)]
    refine succeeds_advance hts (by simp) fun us hus => ?_
    refine (hn.binary (op.level + 1) r us rest hrest hus).bind fun vs hvs => ?_
    exact returns_climb_none 0 _ hrest hvs

theorem all (n : Nat) : ReadsBack n := by
  induction n with
  | zero => exact zero
  | succ n ih => exact ih.succ

end ReadsBack

theorem returns_expression {e : Expression} (hrest : NoOperator rest) (hts : At ts (e.kinds ++ rest)) :
    Returns (expression n) ts e rest :=
  (ReadsBack.all n).binary 0 e ts rest hrest hts

theorem returns_condition {c : Expression} (hts : At ts (inParens c.kinds ++ rest)) :
    Returns (condition n) ts c rest := by
  simp only [inParens, List.cons_append, List.append_assoc] at hts
  refine succeeds_consume hts (by simp) fun us hus => ?_
  refine (returns_expression (noOperator_rightParen rest) hus).bind fun vs hvs => ?_
  exact succeeds_consume hvs (by simp) fun ws hws => returns_pure hws

end Expressions

section Statements

variable {item : Parse Statement} {s : Statement}

/-- What may stand behind the statement when it was written. -/
structure Follows (s : Statement) (rest : Kinds) : Prop where
  operator : NoOperator rest
  assign : rest.headD .endOfText ≠ .assign
  alternative : s.endsOpen = true → rest.headD .endOfText ≠ .keyword .alternative

theorem Follows.of_endsOpen {s' : Statement} (h : Follows s rest) (hopen : s'.endsOpen = true → s.endsOpen = true) :
    Follows s' rest :=
  ⟨h.operator, h.assign, fun h' => h.alternative (hopen h')⟩

theorem follows_of_startsStatement {k : TokenKind} (hk : k.startsStatement = true) (hop : ∀ op, k ≠ .operator op)
    (s : Statement) : Follows s (k :: rest) :=
  ⟨hop, TokenKind.ne_of_startsStatement hk rfl, fun _ => TokenKind.ne_of_startsStatement hk rfl⟩

theorem kinds_starts (s : Statement) :
    ∃ k ks, s.kinds = k :: ks ∧ k.startsStatement = true ∧ ∀ op, k ≠ .operator op := by
  cases s with
  | declare x init => cases init <;> exact ⟨_, _, rfl, rfl, nofun⟩
  | _ => exact ⟨_, _, rfl, rfl, nofun⟩

theorem current_startsStatement (hts : At ts (s.kinds ++ rest)) : (current ts).kind.startsStatement = true := by
  obtain ⟨k, ks, heq, hk, -⟩ := kinds_starts s
  rw [hts.current, heq]
  exact hk

theorem follows_rightBrace (rest : Kinds) (s : Statement) : Follows s (.rightBrace :: rest) := ⟨nofun, nofun, nofun⟩

theorem follows_end (s : Statement) : Follows s [.endOfText] := ⟨nofun, nofun, nofun⟩

theorem follows_alternative (hs : s.endsOpen = false) : Follows s (.keyword .alternative :: rest) := by
  refine ⟨nofun, nofun, fun hopen => ?_⟩
  rw [hs] at hopen
  cases hopen

theorem follows_kindsAll (hrest : ∀ s, Follows s rest) (s : Statement) (body : Block) :
    Follows s (Statement.kindsAll body ++ rest) := by
  cases body with
  | nil => exact hrest s
  | cons s' body =>
    obtain ⟨k, ks, heq, hk, hop⟩ := kinds_starts s'
    rw [Statement.kindsAll, heq]
    exact follows_of_startsStatement hk hop s

def ReturnsStatements (item : Parse Statement) : Prop :=
  ∀ s ts rest, s.Writable → Follows s rest → At ts (s.kinds ++ rest) → Returns item ts s rest

theorem returns_untilBrace (hitem : ReturnsStatements item) {body : Block} (hbody : ∀ s ∈ body, s.Writable)
    (hts : At ts (Statement.kindsAll body ++ .rightBrace :: rest)) :
    Returns (untilBrace n item) ts body (.rightBrace :: rest) := by
  induction n generalizing ts body with
  | zero => exact succeeds_outOfFuel
  | succ n ih =>
    rw [untilBrace]
    cases body with
    | nil => exact succeeds_check hts (returns_pure hts)
    | cons s body =>
      obtain ⟨hs, hbody⟩ := List.forall_mem_cons.1 hbody
      rw [Statement.kindsAll, List.append_assoc] at hts
      have hcurrent := current_startsStatement hts
      refine succeeds_check_other (TokenKind.ne_of_startsStatement hcurrent rfl) ?_
      refine succeeds_check_other (TokenKind.ne_of_startsStatement hcurrent rfl) ?_
      refine (hitem s ts _ hs (follows_kindsAll (follows_rightBrace rest) s body) hts).bind fun us hus => ?_
      exact (ih hbody hus).bind fun vs hvs => returns_pure hvs

theorem returns_untilEnd (hitem : ReturnsStatements item) {body : Block} (hbody : ∀ s ∈ body, s.Writable)
    (hts : At ts (Statement.kindsAll body ++ [.endOfText])) : Returns (untilEnd n item) ts body [.endOfText] := by
  induction n generalizing ts body with
  | zero => exact succeeds_outOfFuel
  | succ n ih =>
    rw [untilEnd]
    cases body with
    | nil => exact succeeds_check hts (returns_pure hts)
    | cons s body =>
      obtain ⟨hs, hbody⟩ := List.forall_mem_cons.1 hbody
      rw [Statement.kindsAll, List.append_assoc] at hts
      have hcurrent := current_startsStatement hts
      refine succeeds_check_other (TokenKind.ne_of_startsStatement hcurrent rfl) ?_
      refine (hitem s ts _ hs (follows_kindsAll follows_end s body) hts).bind fun us hus => ?_
      exact (ih hbody hus).bind fun vs hvs => returns_pure hvs

theorem returns_braced (hitem : ReturnsStatements item) {body : Block} (hbody : ∀ s ∈ body, s.Writable)
    (hts : At ts (inBraces (Statement.kindsAll body) ++ rest)) : Returns (braced n item) ts body rest := by
  simp only [inBraces, List.cons_append, List.append_assoc] at hts
  refine succeeds_consume hts (by simp) fun us hus => ?_
  refine (returns_untilBrace hitem hbody hus).bind fun vs hvs => ?_
  exact succeeds_consume hvs (by simp) fun ws hws => returns_pure hws

theorem returns_parameters {params : List String}
    (hts : At ts (inTuple (params.map fun x => [.identifier x]) ++ rest)) :
    Returns (tuple n (name .parameter)) ts params rest := by
  refine returns_tuple (fun x _ ts rest _ hts => ?_) (fun x rest => by simp) hts
  rw [← bind_pure (name .parameter)]
  exact succeeds_name hts fun us hus => returns_pure hus

theorem returns_statementFrom (hitem : ReturnsStatements item) (hs : s.Writable) (hrest : Follows s rest)
    (hts : At ts (s.kinds ++ rest)) : Returns (statementFrom n item (current ts).kind) ts s rest := by
  cases hs with
  | function _ _ hbody =>
    simp only [Statement.kinds, List.cons_append, List.append_assoc] at hts
    rw [hts.current]
    refine succeeds_advance hts (by simp) fun us hus => succeeds_name hus fun vs hvs => ?_
    refine (returns_parameters hvs).bind fun ws hws => ?_
    exact (returns_braced hitem hbody hws).bind fun xs hxs => returns_pure hxs
  | block hbody =>
    simp only [Statement.kinds] at hts
    rw [hts.current]
    exact (returns_braced hitem hbody hts).bind fun us hus => returns_pure hus
  | @declare x init _ _ =>
    cases init with
    | none =>
      simp only [Statement.kinds, List.cons_append, List.nil_append] at hts
      rw [hts.current]
      refine succeeds_advance hts (by simp) fun us hus => succeeds_name hus fun vs hvs => ?_
      exact succeeds_decline (by rw [hvs.current]; exact hrest.assign) (returns_pure hvs)
    | some e =>
      simp only [Statement.kinds, List.cons_append] at hts
      rw [hts.current]
      refine succeeds_advance hts (by simp) fun us hus => succeeds_name hus fun vs hvs => ?_
      refine succeeds_accept hvs (by simp) fun ws hws => ?_
      exact (returns_expression hrest.operator hws).bind fun xs hxs => returns_pure hxs
  | @evaluate e _ =>
    simp only [Statement.kinds] at hts
    rw [hts.current, Expression.kinds_headD]
    exact (returns_expression hrest.operator hts).bind fun us hus => returns_pure hus
  | loop _ hs =>
    simp only [Statement.kinds, List.cons_append, List.append_assoc] at hts
    rw [hts.current]
    refine succeeds_advance hts (by simp) fun us hus => ?_
    refine (returns_condition hus).bind fun vs hvs => ?_
    exact (hitem _ vs rest hs (hrest.of_endsOpen id) hvs).bind fun ws hws => returns_pure hws
  | ifThen _ hs =>
    simp only [Statement.kinds, List.cons_append, List.append_assoc] at hts
    rw [hts.current]
    refine succeeds_advance hts (by simp) fun us hus => ?_
    refine (returns_condition hus).bind fun vs hvs => ?_
    have halt : rest.headD .endOfText ≠ .keyword .alternative := hrest.alternative rfl
    refine (hitem _ vs rest hs ⟨hrest.operator, hrest.assign, fun _ => halt⟩ hvs).bind fun ws hws => ?_
    exact succeeds_decline (by rwa [hws.current]) (returns_pure hws)
  | ifElse _ hs hs' hopen =>
    simp only [Statement.kinds, List.cons_append, List.append_assoc] at hts
    rw [hts.current]
    refine succeeds_advance hts (by simp) fun us hus => ?_
    refine (returns_condition hus).bind fun vs hvs => ?_
    -- the branch does not end open, so it leaves the alternative
    refine (hitem _ vs _ hs (follows_alternative hopen) hvs).bind fun ws hws => ?_
    refine succeeds_accept hws (by simp) fun xs hxs => ?_
    exact (hitem _ xs rest hs' (hrest.of_endsOpen id) hxs).bind fun ys hys => returns_pure hys
  | assign _ _ =>
    simp only [Statement.kinds, List.cons_append] at hts
    have hnext : nextIs .assign ts = true := by
      rw [hts.nextIs (by simp)]
      simp
    rw [hts.current]
    refine succeeds_ask ?_
    rw [hnext]
    refine succeeds_name hts fun us hus => succeeds_consume hus (by simp) fun vs hvs => ?_
    exact (returns_expression hrest.operator hvs).bind fun ws hws => returns_pure hws
  | result _ =>
    simp only [Statement.kinds, List.cons_append] at hts
    rw [hts.current]
    refine succeeds_advance hts (by simp) fun us hus => ?_
    exact (returns_expression hrest.operator hus).bind fun vs hvs => returns_pure hvs

theorem returns_statement (n : Nat) : ReturnsStatements (statement n) := by
  induction n with
  | zero => exact fun _ _ _ _ _ _ => succeeds_outOfFuel
  | succ n ih =>
    intro s ts rest hs hrest hts
    rw [statement]
    exact succeeds_ask (returns_statementFrom ih hs hrest hts)

end Statements

end Parse

/-- A text is read as the program that the readers return at the kinds it spells. -/
theorem parseProgram_of_spells {cs : List Char} {ks : Kinds} {body : Block} (hcs : Spells cs ks)
    (hread : ∀ ts, At ts (ks ++ [.endOfText]) → Parse.Returns (Parse.program (Parse.enough ts)) ts body [.endOfText]) :
    parseProgram (String.ofList cs) = .ok body := by
  obtain ⟨ts, htokens, hkinds⟩ := tokenize_of_spells hcs
  obtain ⟨-, -, -, -, hscanned⟩ := scanned_of_tokenize htokens
  obtain ⟨body', us, hparse, rfl, -⟩ := parseTokens_of_succeeds (hread ts ⟨hscanned, hkinds⟩)
  rw [parseProgram, htokens]
  simp only [hparse]

theorem parseProgram_render {body : Block} (hbody : ∀ s ∈ body, s.Writable) :
    parseProgram (render body) = .ok body := by
  have hscannable := Statement.kindsAll_scannable fun s hs => (hbody s hs).scannable
  exact parseProgram_of_spells (spells_spell hscannable) fun ts hts =>
    Parse.returns_untilEnd (Parse.returns_statement _) hbody hts

end IntScript
