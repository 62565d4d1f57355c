import IntScript.Proofs.SpellingScanned
import Mathlib.Data.List.Induction
import Mathlib.Data.List.TakeWhile
import Mathlib.Data.Nat.Digits.Defs

set_option autoImplicit false

namespace IntScript

def signs : List (String × TokenKind) :=
  BinaryOp.all.map (fun op => (op.token, .operator op)) ++
    [("=", .assign), ("(", .leftParen), (")", .rightParen), ("\x7b", .leftBrace), ("\x7d", .rightBrace), (",", .comma)]

def numeral (ds : List Char) : Nat := Nat.ofDigits 10 (ds.reverse.map fun d => d.toNat - '0'.toNat)

/-- The text is a lexeme, with the kind of its token; blanks and comments give none. -/
inductive Lexeme : List Char → Option TokenKind → Prop
  | blank {c : Char} (hc : c = ' ' ∨ c = '\t' ∨ c = '\r' ∨ c = '\n') : Lexeme [c] none
  | comment {body : List Char} (hbody : '\n' ∉ body) : Lexeme ('/' :: '/' :: body) none
  | number {ds : List Char} (hne : ds ≠ []) (hds : ∀ d ∈ ds, '0' ≤ d ∧ d ≤ '9') :
      Lexeme ds (some (.integer (numeral ds)))
  | keyword (k : Keyword) : Lexeme k.word.toList (some (.keyword k))
  | name {x : String} (hx : IsName x) : Lexeme x.toList (some (.identifier x))
  | sign {text : String} {kind : TokenKind} (h : (text, kind) ∈ signs) : Lexeme text.toList (some kind)

abbrev Piece : Type := List Char × Option TokenKind

/-- No lexeme at the beginning of the text is longer. -/
def Longest (w cs : List Char) : Prop := ∀ v kind, v <+: cs → Lexeme v kind → v.length ≤ w.length

/-- The text is split into lexemes, and at each place the longest one is taken. -/
inductive Splits : List Char → List Piece → Prop
  | nil : Splits [] []
  | cons {w rest : List Char} {kind : Option TokenKind} {pieces : List Piece} (hw : Lexeme w kind)
      (hlongest : Longest w (w ++ rest)) (hrest : Splits rest pieces) : Splits (w ++ rest) ((w, kind) :: pieces)

/-- Every number is at most the largest value. -/
def InRange (pieces : List Piece) : Prop := ∀ w i, (w, some (.integer i)) ∈ pieces → i ≤ 2 ^ 63 - 1

/-- Where a text ends: the line counts the line feeds before, the column the characters since the last of them. -/
def place (before : List Char) : Position :=
  ⟨1 + before.count '\n', 1 + (before.reverse.takeWhile (· ≠ '\n')).length⟩

def tokensBehind (before : List Char) : List Piece → List Token
  | [] => [⟨.endOfText, "", place before⟩]
  | (w, none) :: pieces => tokensBehind (before ++ w) pieces
  | (w, some kind) :: pieces => ⟨kind, String.ofList w, place before⟩ :: tokensBehind (before ++ w) pieces

section Positions

theorem place_next (before : List Char) (c : Char) : place (before ++ [c]) = (place before).next c := by
  unfold place Position.next
  rw [List.count_append, List.reverse_append, List.reverse_singleton, List.singleton_append, List.takeWhile_cons]
  by_cases hc : c = '\n'
  · simp [hc, Nat.add_assoc]
  · simp [hc, Nat.add_assoc]

theorem place_append (before w : List Char) : place (before ++ w) = (place before).after w := by
  induction w generalizing before with
  | nil => rw [List.append_nil, Position.after, List.foldl_nil]
  | cons c w ih =>
    have hsplit : before ++ c :: w = before ++ [c] ++ w := by simp
    rw [hsplit, ih, place_next]
    rfl

end Positions

theorem numeral_eq_value (ds : List Char) : numeral ds = Decimal.value ds := by
  induction ds using List.reverseRecOn with
  | nil => rfl
  | append_singleton ds d ih =>
    have hlast : numeral (ds ++ [d]) = d.toNat - 48 + 10 * numeral ds := by
      rw [numeral, numeral, List.reverse_append, List.reverse_singleton, List.singleton_append, List.map_cons,
        Nat.ofDigits_cons]
      rfl
    rw [hlast, ih, Decimal.value, Decimal.value, List.foldl_append]
    exact Nat.add_comm _ _

namespace Segment

/-- What a segment is a lexeme of. A run of digits out of range is one; an unexpected character is none. -/
def meaning (s : Segment) : Option (Option TokenKind) :=
  match s.kind with
  | .blank => some none
  | .token kind => some (some kind)
  | .bad (.integerTooLarge ds) => some (some (.integer (Decimal.value ds)))
  | .bad (.unexpected _) => none

theorem meaning_ofDigits (ds : List Char) : (ofDigits ds).meaning = some (some (.integer (numeral ds))) := by
  rw [numeral_eq_value]
  unfold ofDigits
  split <;> rfl

section Signs

variable {c d : Char} {kind : TokenKind}

def signOf? : List Char → Option TokenKind
  | [c] => single? c
  | [c, d] => pair? c d
  | _ => none

theorem signOf?_of_mem {text : String} (h : (text, kind) ∈ signs) : signOf? text.toList = some kind := by
  have hall : ∀ p ∈ signs, signOf? p.1.toList = some p.2 := by decide
  exact hall (text, kind) h

theorem lexeme_of_single? (h : single? c = some kind) : Lexeme [c] (some kind) := by
  have hsign : (String.ofList [c], kind) ∈ signs := by
    unfold single? at h
    split at h <;> cases h <;> decide
  have hlexeme := Lexeme.sign hsign
  rwa [String.toList_ofList] at hlexeme

theorem lexeme_of_pair? (h : pair? c d = some kind) : Lexeme [c, d] (some kind) := by
  have hsign : (String.ofList [c, d], kind) ∈ signs := by
    unfold pair? at h
    split at h <;> cases h <;> decide
  have hlexeme := Lexeme.sign hsign
  rwa [String.toList_ofList] at hlexeme

theorem isSignStart_of_pair? (h : pair? c d = some kind) : IsSignStart c ∧ ¬ (c = '/' ∧ d = '/') := by
  unfold pair? at h
  split at h <;> cases h <;> exact ⟨⟨by decide, by decide, by decide⟩, by decide⟩

end Signs

section First

variable {c d : Char} {cs ds v : List Char} {kind : TokenKind}

theorem first_of_blank (hc : isBlank c = true) : first c cs = (⟨[c], .blank⟩, cs) := by
  simp [first, hc]

theorem first_of_digit (hc : c.isDigit = true) :
    first c cs = (ofDigits (c :: cs.takeWhile Char.isDigit), cs.dropWhile Char.isDigit) := by
  have hblank : isBlank c = false := not_isBlank (by decide) hc
  simp [first, hblank, hc]

theorem first_of_wordStart (hc : isWordStart c = true) :
    first c cs = (ofWord (c :: cs.takeWhile isWordChar), cs.dropWhile isWordChar) := by
  have hblank : isBlank c = false := not_isBlank (by decide) hc
  have hdigit : c.isDigit = false := not_isDigit_of_isWordStart hc
  simp [first, hblank, hdigit, hc]

theorem first_of_pair? (h : pair? c d = some kind) : first c (d :: ds) = (⟨[c, d], .token kind⟩, ds) := by
  obtain ⟨hc, hcomment⟩ := isSignStart_of_pair? h
  simp [first, hc.blank, hc.digit, hc.word, hcomment, h]

/-- A sign of one character is cut off, unless it begins a longer one or a comment. -/
theorem first_of_single? (h : single? c = some kind) (cs : List Char) :
    1 < (first c cs).1.text.length ∨ (first c cs).1 = ⟨[c], .token kind⟩ := by
  have hc := isSignStart_of_single? h
  cases cs with
  | nil => exact .inr (congrArg Prod.fst (first_single h (by simp)))
  | cons d ds =>
    by_cases hcomment : c = '/' ∧ d = '/'
    · left
      obtain ⟨rfl, rfl⟩ := hcomment
      simp [first, hc.blank, hc.digit, hc.word]
    · cases hpair : pair? c d with
      | none =>
        have hrest : ∀ e ∈ (d :: ds).head?, pair? c e = none ∧ ¬ (c = '/' ∧ e = '/') := by
          rintro _ ⟨⟩
          exact ⟨hpair, hcomment⟩
        exact .inr (congrArg Prod.fst (first_single h hrest))
      | some longer =>
        left
        simp [first, hc.blank, hc.digit, hc.word, hcomment, hpair]

/-- Of the characters of one class at the beginning of a text all are taken. -/
theorem run_or_longer {p : Char → Bool} (hbegins : v <+: cs) (hv : ∀ d ∈ v, p d = true) :
    v.length < (cs.takeWhile p).length ∨ v = cs.takeWhile p := by
  obtain ⟨rest, rfl⟩ := hbegins
  rw [List.takeWhile_append_of_pos hv]
  cases rest.takeWhile p with
  | nil => exact .inr (List.append_nil v).symm
  | cons d ds =>
    left
    simp

theorem word_or_longer (hbegins : v <+: cs) (hc : isWordStart c = true) (hv : ∀ d ∈ v, isWordChar d = true) :
    (c :: v).length < (first c cs).1.text.length ∨ (first c cs).1 = ofWord (c :: v) := by
  rw [first_of_wordStart hc]
  rcases run_or_longer hbegins hv with hlt | heq
  · exact .inl (Nat.succ_lt_succ hlt)
  · exact .inr (by rw [← heq])

end First

end Segment

open Segment

/-- A lexeme at the beginning of a text is shorter than the first segment, or is that segment. -/
theorem Lexeme.shorter_or_first {v : List Char} {kind : Option TokenKind} (hv : Lexeme v kind) {c : Char}
    {cs : List Char} (hbegins : v <+: c :: cs) :
    v.length < (first c cs).1.text.length ∨ v = (first c cs).1.text ∧ (first c cs).1.meaning = some kind := by
  cases hv with
  | @blank c' hc =>
    obtain ⟨rfl, -⟩ := List.cons_prefix_cons.1 hbegins
    have hblank : isBlank c' = true := by simpa [isBlank, or_assoc] using hc
    rw [first_of_blank hblank]
    exact .inr ⟨rfl, rfl⟩
  | @comment body hbody =>
    obtain ⟨rfl, rest, rfl⟩ := List.cons_prefix_cons.1 hbegins
    have hclass : ∀ d ∈ body, inComment d = true := by
      intro d hd
      have hne : d ≠ '\n' := fun h => hbody (h ▸ hd)
      simpa [inComment] using hne
    change _ < ('/' :: '/' :: (body ++ rest).takeWhile inComment).length ∨
      _ = '/' :: '/' :: (body ++ rest).takeWhile inComment ∧ _
    rcases run_or_longer (List.prefix_append body rest) hclass with hlt | heq
    · exact .inl (Nat.succ_lt_succ (Nat.succ_lt_succ hlt))
    · exact .inr ⟨by rw [← heq], rfl⟩
  | number hne hds =>
    cases v with
    | nil => exact absurd rfl hne
    | cons d ds =>
      obtain ⟨rfl, htail⟩ := List.cons_prefix_cons.1 hbegins
      have hdigits : ∀ e ∈ d :: ds, e.isDigit = true := fun e he => (isDigit_iff e).2 (hds e he)
      obtain ⟨hd, hds⟩ := List.forall_mem_cons.1 hdigits
      rw [first_of_digit hd]
      dsimp only
      rw [ofDigits_text, meaning_ofDigits]
      rcases run_or_longer htail hds with hlt | heq
      · exact .inl (Nat.succ_lt_succ hlt)
      · rw [← heq]
        exact .inr ⟨rfl, rfl⟩
  | keyword k =>
    have hword : ∃ d ds, k.word.toList = d :: ds ∧ isWordStart d = true ∧ ∀ e ∈ ds, isWordChar e = true := by
      cases k <;> exact ⟨_, _, rfl, rfl, List.all_eq_true.1 rfl⟩
    obtain ⟨d, ds, heq, hd, hds⟩ := hword
    rw [heq] at hbegins ⊢
    obtain ⟨rfl, htail⟩ := List.cons_prefix_cons.1 hbegins
    rcases word_or_longer htail hd hds with hlt | hfirst
    · exact .inl hlt
    · rw [hfirst, ← heq, ofWord_word]
      exact .inr ⟨rfl, rfl⟩
  | @name x hx =>
    obtain ⟨d, ds, heq, hd, hds⟩ := hx.word
    rw [heq] at hbegins ⊢
    obtain ⟨rfl, htail⟩ := List.cons_prefix_cons.1 hbegins
    have hds : ∀ e ∈ ds, isWordChar e = true := fun e he => (isWordChar_iff e).2 (hds e he)
    rcases word_or_longer htail ((isWordStart_iff d).2 hd) hds with hlt | hfirst
    · exact .inl hlt
    · rw [hfirst, ← heq, ofWord_name hx]
      exact .inr ⟨rfl, rfl⟩
  | @sign text kind h =>
    have hsign := signOf?_of_mem h
    generalize text.toList = v at hbegins hsign ⊢
    unfold signOf? at hsign
    split at hsign
    · obtain ⟨rfl, -⟩ := List.cons_prefix_cons.1 hbegins
      rcases first_of_single? hsign cs with hlt | hfirst
      · exact .inl hlt
      · rw [hfirst]
        exact .inr ⟨rfl, rfl⟩
    · obtain ⟨rfl, ds, rfl⟩ := List.cons_prefix_cons.1 hbegins
      rw [List.singleton_append, first_of_pair? hsign]
      exact .inr ⟨rfl, rfl⟩
    · cases hsign

theorem Lexeme.ne_nil {w : List Char} {kind : Option TokenKind} (h : Lexeme w kind) : w ≠ [] := by
  cases h with
  | blank => simp
  | comment => simp
  | number hne => exact hne
  | keyword k => cases k <;> decide
  | name hx =>
    obtain ⟨d, ds, heq, -⟩ := hx.word
    simp [heq]
  | sign h =>
    intro hnil
    have hsign := signOf?_of_mem h
    rw [hnil] at hsign
    cases hsign

theorem first_text_length_le (c : Char) (cs : List Char) : (first c cs).1.text.length ≤ (c :: cs).length := by
  have happend := congrArg List.length (first_append c cs)
  rw [List.length_append] at happend
  omega

theorem Lexeme.unique {w : List Char} {kind kind' : Option TokenKind} (h : Lexeme w kind) (h' : Lexeme w kind') :
    kind = kind' := by
  obtain ⟨c, cs, rfl⟩ := List.exists_cons_of_ne_nil h.ne_nil
  have hle := first_text_length_le c cs
  rcases h.shorter_or_first (List.prefix_refl _) with hlt | ⟨-, hmeaning⟩
  · omega
  · rcases h'.shorter_or_first (List.prefix_refl _) with hlt | ⟨-, hmeaning'⟩
    · omega
    · exact Option.some.inj (hmeaning.symm.trans hmeaning')

section Cut

variable {c : Char} {cs : List Char} {kind : Option TokenKind}

theorem first_cases (c : Char) (cs : List Char) :
    isBlank c = true ∧ (first c cs).1 = ⟨[c], .blank⟩ ∨
      c.isDigit = true ∧ (first c cs).1 = ofDigits (c :: cs.takeWhile Char.isDigit) ∨
      isWordStart c = true ∧ (first c cs).1 = ofWord (c :: cs.takeWhile isWordChar) ∨
      (∃ ds : List Char, (first c cs).1 = ⟨'/' :: '/' :: ds.takeWhile inComment, .blank⟩) ∨
      (∃ d kind, pair? c d = some kind ∧ (first c cs).1 = ⟨[c, d], .token kind⟩) ∨ (first c cs).1 = ofChar c := by
  unfold first
  split
  · next hblank => exact .inl ⟨hblank, rfl⟩
  · split
    · next hdigit => exact .inr (.inl ⟨hdigit, rfl⟩)
    · split
      · next hword => exact .inr (.inr (.inl ⟨hword, rfl⟩))
      · split
        · exact .inr (.inr (.inr (.inr (.inr rfl))))
        · next d ds =>
          split
          · next hcomment =>
            obtain ⟨rfl, rfl⟩ := hcomment
            exact .inr (.inr (.inr (.inl ⟨ds, rfl⟩)))
          · split
            · next kind hpair => exact .inr (.inr (.inr (.inr (.inl ⟨d, kind, hpair, rfl⟩))))
            · exact .inr (.inr (.inr (.inr (.inr rfl))))

theorem lexeme_of_word (hc : isWordStart c = true) (hcs : ∀ d ∈ cs, isWordChar d = true) :
    Lexeme (c :: cs) (some (.ofWord (String.ofList (c :: cs)))) := by
  have hsound := (ofWord_token (p := .start) hc hcs rfl).2
  cases hkey : Keyword.ofWord? (String.ofList (c :: cs)) with
  | some k =>
    have hlexeme := Lexeme.keyword k
    rw [Keyword.word_of_ofWord? hkey, String.toList_ofList] at hlexeme
    simpa only [TokenKind.ofWord, hkey] using hlexeme
  | none =>
    have hname : IsName (String.ofList (c :: cs)) := hsound.name _ (by simp only [TokenKind.ofWord, hkey])
    have hlexeme := Lexeme.name hname
    rw [String.toList_ofList] at hlexeme
    simpa only [TokenKind.ofWord, hkey] using hlexeme

theorem lexeme_of_first (h : (first c cs).1.meaning = some kind) : Lexeme (first c cs).1.text kind := by
  rcases first_cases c cs with ⟨hc, hfirst⟩ | ⟨hc, hfirst⟩ | ⟨hc, hfirst⟩ | ⟨ds, hfirst⟩ | ⟨d, k, hpair, hfirst⟩ | hfirst
  · rw [hfirst] at h ⊢
    cases h
    exact .blank (by simpa [isBlank, or_assoc] using hc)
  · rw [hfirst, meaning_ofDigits] at h
    rw [hfirst, ofDigits_text]
    cases h
    refine .number (List.cons_ne_nil _ _) (List.forall_mem_cons.2 ⟨(isDigit_iff c).1 hc, fun d hd => ?_⟩)
    exact (isDigit_iff d).1 (List.mem_takeWhile_imp hd)
  · rw [hfirst] at h ⊢
    cases h
    exact lexeme_of_word hc fun d hd => List.mem_takeWhile_imp hd
  · rw [hfirst] at h ⊢
    cases h
    refine .comment fun hmem => ?_
    have hclass : inComment '\n' = true := List.mem_takeWhile_imp hmem
    cases hclass
  · rw [hfirst] at h ⊢
    cases h
    exact lexeme_of_pair? hpair
  · rw [hfirst] at h
    rw [hfirst, ofChar_text]
    unfold ofChar at h
    split at h
    · next k hk =>
      cases h
      exact lexeme_of_single? hk
    · cases h

theorem first_text_of_meaningless (h : (first c cs).1.meaning = none) : (first c cs).1.text = [c] := by
  rcases first_cases c cs with ⟨-, hfirst⟩ | ⟨-, hfirst⟩ | ⟨-, hfirst⟩ | ⟨ds, hfirst⟩ | ⟨d, k, -, hfirst⟩ | hfirst
    <;> rw [hfirst] at h
  · cases h
  · rw [meaning_ofDigits] at h
    cases h
  · cases h
  · cases h
  · cases h
  · rw [hfirst, ofChar_text]

theorem value_of_tooLarge {ds : List Char} (h : (first c cs).1.kind = .bad (.integerTooLarge ds)) :
    2 ^ 63 ≤ Decimal.value ds := by
  rcases first_cases c cs with ⟨-, hfirst⟩ | ⟨-, hfirst⟩ | ⟨-, hfirst⟩ | ⟨_, hfirst⟩ | ⟨d, k, -, hfirst⟩ | hfirst
    <;> rw [hfirst] at h
  · cases h
  · unfold ofDigits at h
    split at h
    · cases h
    · next hge =>
      cases h
      omega
  · cases h
  · cases h
  · cases h
  · unfold ofChar at h
    split at h <;> cases h

/-- The first segment is at least as long as any lexeme. -/
theorem longest_first (c : Char) (cs : List Char) : Longest (first c cs).1.text (c :: cs) := by
  intro v kind' hbegins hv
  rcases hv.shorter_or_first hbegins with hlt | ⟨rfl, -⟩
  · exact Nat.le_of_lt hlt
  · exact Nat.le_refl _

theorem eq_first_of_longest {w : List Char} (hw : Lexeme w kind) (hbegins : w <+: c :: cs)
    (hlongest : Longest w (c :: cs)) : w = (first c cs).1.text ∧ (first c cs).1.meaning = some kind := by
  rcases hw.shorter_or_first hbegins with hlt | hsame
  · exfalso
    cases hmeaning : (first c cs).1.meaning with
    | none =>
      have hpos := List.length_pos_iff.2 hw.ne_nil
      rw [first_text_of_meaningless hmeaning, List.length_singleton] at hlt
      omega
    | some kind' =>
      have hfirst : (first c cs).1.text <+: c :: cs := ⟨_, first_append c cs⟩
      have hle := hlongest _ _ hfirst (lexeme_of_first hmeaning)
      omega
  · exact hsame

end Cut

theorem splits_cons_iff {c : Char} {cs : List Char} {pieces : List Piece} :
    Splits (c :: cs) pieces ↔ ∃ kind rest, (first c cs).1.meaning = some kind ∧
      pieces = ((first c cs).1.text, kind) :: rest ∧ Splits (first c cs).2 rest := by
  constructor
  · intro h
    generalize htext : c :: cs = text at h
    cases h with
    | nil => cases htext
    | @cons w rest kind pieces hw hlongest hrest =>
      rw [← htext] at hlongest
      obtain ⟨rfl, hmeaning⟩ := eq_first_of_longest hw ⟨rest, htext.symm⟩ hlongest
      have hsame : (first c cs).2 = rest := List.append_cancel_left ((first_append c cs).trans htext)
      exact ⟨kind, pieces, hmeaning, rfl, hsame ▸ hrest⟩
  · rintro ⟨kind, rest, hmeaning, rfl, hrest⟩
    have hlongest := longest_first c cs
    rw [← first_append c cs] at hlongest ⊢
    exact .cons (lexeme_of_first hmeaning) hlongest hrest

theorem splits_nil_iff {pieces : List Piece} : Splits [] pieces ↔ pieces = [] := by
  constructor
  · intro h
    generalize htext : [] = text at h
    cases h with
    | nil => rfl
    | cons hw => exact absurd (List.append_eq_nil_iff.1 htext.symm).1 hw.ne_nil
  · rintro rfl
    exact .nil

theorem inRange_cons {w : List Char} {kind : Option TokenKind} {pieces : List Piece} :
    InRange ((w, kind) :: pieces) ↔ (∀ i, kind = some (.integer i) → i ≤ 2 ^ 63 - 1) ∧ InRange pieces := by
  constructor
  · intro h
    exact ⟨fun i hi => h w i (hi ▸ List.mem_cons_self), fun v i hi => h v i (List.mem_cons_of_mem _ hi)⟩
  · rintro ⟨hhead, htail⟩ v i hi
    rcases List.mem_cons.1 hi with heq | hi
    · exact hhead i (Prod.mk.inj heq).2.symm
    · exact htail v i hi

theorem exists_splits_cons_iff {c : Char} {cs : List Char} {kind : Option TokenKind} {Q : List Piece → Prop}
    (hmeaning : (first c cs).1.meaning = some kind) (hrange : ∀ i, kind = some (.integer i) → i ≤ 2 ^ 63 - 1) :
    (∃ pieces, Splits (c :: cs) pieces ∧ InRange pieces ∧ Q pieces) ↔
      ∃ rest, Splits (first c cs).2 rest ∧ InRange rest ∧ Q (((first c cs).1.text, kind) :: rest) := by
  constructor
  · rintro ⟨pieces, hsplits, hpieces, hQ⟩
    obtain ⟨kind', rest, hmeaning', rfl, hrest⟩ := splits_cons_iff.1 hsplits
    cases hmeaning.symm.trans hmeaning'
    exact ⟨rest, hrest, (inRange_cons.1 hpieces).2, hQ⟩
  · rintro ⟨rest, hrest, hpieces, hQ⟩
    exact ⟨_, splits_cons_iff.2 ⟨kind, rest, hmeaning, rfl, hrest⟩, inRange_cons.2 ⟨hrange, hpieces⟩, hQ⟩

theorem Scanner.scanFrom_segments (cs before : List Char) (recent ts : List Token) :
    (scanFrom (segments cs) (place before) recent).1 = .ok ts ↔
      ∃ pieces, Splits cs pieces ∧ InRange pieces ∧ ts = recent.reverse ++ tokensBehind before pieces := by
  fun_induction segments cs generalizing before recent with
  | case1 =>
    constructor
    · intro h
      exact ⟨[], .nil, fun _ _ hmem => (List.not_mem_nil hmem).elim, (Except.ok.inj h).symm⟩
    · rintro ⟨pieces, hsplits, -, rfl⟩
      obtain rfl := splits_nil_iff.1 hsplits
      rfl
  | case2 c cs ih =>
    unfold scanFrom
    split
    · next hkind =>
      have hmeaning : (first c cs).1.meaning = some none := by rw [meaning, hkind]
      have hrange : ∀ i, none = some (TokenKind.integer i) → i ≤ 2 ^ 63 - 1 := by
        intro i hi
        cases hi
      rw [← place_append, ih, exists_splits_cons_iff hmeaning hrange]
      rfl
    · next kind hkind =>
      have hmeaning : (first c cs).1.meaning = some (some kind) := by rw [meaning, hkind]
      have hrange : ∀ i, some kind = some (.integer i) → i ≤ 2 ^ 63 - 1 := by
        intro i hi
        have hsound := (first_token (p := .start) hkind).2.integer i (Option.some.inj hi)
        omega
      rw [← place_append, ih, exists_splits_cons_iff hmeaning hrange]
      simp only [List.reverse_cons, List.append_assoc, List.singleton_append, tokensBehind]
    · next fault hkind =>
      apply iff_of_false
      · intro h
        cases h
      rintro ⟨pieces, hsplits, hpieces, -⟩
      obtain ⟨kind, rest, hmeaning, rfl, -⟩ := splits_cons_iff.1 hsplits
      cases fault with
      | unexpected d =>
        rw [meaning, hkind] at hmeaning
        cases hmeaning
      | integerTooLarge ds =>
        rw [meaning, hkind] at hmeaning
        cases hmeaning
        have hle := (inRange_cons.1 hpieces).1 _ rfl
        have hge := value_of_tooLarge hkind
        omega

theorem tokensBehind_mem {cs before : List Char} {pieces : List Piece} (h : Splits cs pieces) {t : Token}
    (ht : t ∈ tokensBehind before pieces) :
    t.kind = .endOfText ∧ t.lexeme = "" ∨ Lexeme t.lexeme.toList (some t.kind) := by
  induction h generalizing before with
  | nil =>
    obtain rfl := List.mem_singleton.1 ht
    exact .inl ⟨rfl, rfl⟩
  | @cons w rest kind pieces hw _ _ ih =>
    cases kind with
    | none => exact ih ht
    | some kind =>
      rcases List.mem_cons.1 ht with rfl | ht
      · right
        dsimp only
        rw [String.toList_ofList]
        exact hw
      · exact ih ht

theorem eq_token_of_mem_signs {text : String} {op : BinaryOp} (h : (text, .operator op) ∈ signs) : text = op.token := by
  have hall : ∀ p ∈ signs, ∀ op ∈ BinaryOp.all, p.2 = .operator op → p.1 = op.token := by decide
  exact hall _ h op op.mem_all rfl

/-- A lexeme reads as an operator exactly if its kind is that operator. -/
theorem Lexeme.operator_iff {text : String} {kind : TokenKind} (h : Lexeme text.toList (some kind)) (op : BinaryOp) :
    BinaryOp.ofToken? text = some op ↔ kind = .operator op := by
  constructor
  · intro hop
    have hmem : (op.token, .operator op) ∈ signs := List.mem_append_left _ (List.mem_map.2 ⟨op, op.mem_all, rfl⟩)
    have hsign := Lexeme.sign hmem
    rw [BinaryOp.token_of_ofToken? hop] at hsign
    exact Option.some.inj (h.unique hsign)
  · rintro rfl
    generalize htext : text.toList = w at h
    cases h with
    | sign hmem =>
      rw [String.toList_inj.1 htext, eq_token_of_mem_signs hmem, BinaryOp.ofToken?_token]

/-- The scanner succeeds exactly if the source splits into longest lexemes with all numbers in range. Its tokens are
then the pieces that are not blank, where they stand, and the end token; and those that read as operators are those of
the operators' kinds. -/
theorem scanner_takes_longest (source : String) :
    (∀ ts, tokenize source = .ok ts ↔
      ∃ pieces, Splits source.toList pieces ∧ InRange pieces ∧ ts = tokensBehind [] pieces) ∧
    ∀ ts, tokenize source = .ok ts → ∀ t ∈ ts, ∀ op, BinaryOp.ofToken? t.lexeme = some op ↔ t.kind = .operator op := by
  have htokens : ∀ ts, tokenize source = .ok ts ↔
      ∃ pieces, Splits source.toList pieces ∧ InRange pieces ∧ ts = tokensBehind [] pieces :=
    fun ts => Scanner.scanFrom_segments source.toList [] [] ts
  refine ⟨htokens, fun ts hts t ht op => ?_⟩
  obtain ⟨pieces, hsplits, -, rfl⟩ := (htokens ts).1 hts
  rcases tokensBehind_mem hsplits ht with ⟨hkind, hlexeme⟩ | hlexeme
  · have hnone : BinaryOp.ofToken? "" = none := by decide
    rw [hkind, hlexeme, hnone]
    exact iff_of_false nofun nofun
  · exact hlexeme.operator_iff op

end IntScript
