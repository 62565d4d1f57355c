import IntScript.Proofs.ParseLaws
import IntScript.Proofs.Rendering

set_option autoImplicit false

namespace IntScript

theorem Decimal.value_digits (n : Nat) : Decimal.value (Decimal.digits n) = n :=
  Nat.ofDigitChars_toDigits (by decide) (by decide)

theorem Decimal.isDigit_of_mem_digits {n : Nat} {c : Char} (h : c ∈ Decimal.digits n) : c.isDigit = true :=
  Nat.isDigit_of_mem_toDigits (by decide) (by decide) h

namespace TokenKind

/-- Behind the spelling of the kind, the character makes it longer, or begins a comment with it. -/
def continuedBy : TokenKind → Char → Bool
  | .keyword _, d | .identifier _, d => Segment.isWordChar d
  | .integer _, d => d.isDigit
  | .assign, d | .operator .lt, d | .operator .gt, d => d == '='
  | .operator .div, d => d == '/'
  | _, _ => false

/-- The text behind the spelling of the kind does not continue it. -/
def EndsBefore (k : TokenKind) (rest : List Char) : Prop := ∀ d ∈ rest.head?, k.continuedBy d = false

theorem EndsBefore.nil (k : TokenKind) : k.EndsBefore [] := by
  intro d hd
  cases hd

theorem EndsBefore.cons {k : TokenKind} {d : Char} (hd : k.continuedBy d = false) (cs : List Char) :
    k.EndsBefore (d :: cs) := by
  rintro _ ⟨⟩
  exact hd

theorem continuedBy_space (k : TokenKind) : k.continuedBy ' ' = false := by
  cases k with
  | operator op => cases op <;> rfl
  | _ => rfl

end TokenKind

namespace Segment

theorem not_isBlank {c : Char} {p : Char → Bool}
    (hp : p ' ' = false ∧ p '\t' = false ∧ p '\r' = false ∧ p '\n' = false) (hc : p c = true) :
    isBlank c = false := by
  rw [Bool.eq_false_iff]
  intro hblank
  simp only [isBlank, Bool.or_eq_true, beq_iff_eq] at hblank
  rcases hblank with ((rfl | rfl) | rfl) | rfl
  · simp [hp.1] at hc
  · simp [hp.2.1] at hc
  · simp [hp.2.2.1] at hc
  · simp [hp.2.2.2] at hc

theorem not_isDigit_of_isWordStart {c : Char} (h : isWordStart c = true) : c.isDigit = false := by
  rw [Bool.eq_false_iff]
  intro hdigit
  obtain ⟨-, hle⟩ := (isDigit_iff c).1 hdigit
  rcases (isWordStart_iff c).1 h with ⟨hge, -⟩ | ⟨hge, -⟩ | rfl
  · exact absurd (Char.le_trans hge hle) (by decide)
  · exact absurd (Char.le_trans hge hle) (by decide)
  · exact absurd hle (by decide)

section Runs

variable {cs rest : List Char} {p : Char → Bool}

theorem takeWhile_stops (hcs : ∀ c ∈ cs, p c = true) (hrest : ∀ d ∈ rest.head?, p d = false) :
    (cs ++ rest).takeWhile p = cs := by
  rw [List.takeWhile_append_of_pos hcs]
  cases rest with
  | nil => simp
  | cons d ds => simp [hrest d rfl]

theorem dropWhile_stops (hcs : ∀ c ∈ cs, p c = true) (hrest : ∀ d ∈ rest.head?, p d = false) :
    (cs ++ rest).dropWhile p = rest := by
  rw [List.dropWhile_append_of_pos hcs]
  cases rest with
  | nil => simp
  | cons d ds => simp [hrest d rfl]

end Runs

theorem first_word {c : Char} {cs rest : List Char} (hc : isWordStart c = true) (hcs : ∀ d ∈ cs, isWordChar d = true)
    (hrest : ∀ d ∈ rest.head?, isWordChar d = false) : first c (cs ++ rest) = (ofWord (c :: cs), rest) := by
  have hblank : isBlank c = false := not_isBlank (by decide) hc
  have hdigit : c.isDigit = false := not_isDigit_of_isWordStart hc
  simp [first, hblank, hdigit, hc, takeWhile_stops hcs hrest, dropWhile_stops hcs hrest]

theorem first_digits {c : Char} {cs rest : List Char} (hcs : ∀ d ∈ c :: cs, d.isDigit = true)
    (hrest : ∀ d ∈ rest.head?, d.isDigit = false) : first c (cs ++ rest) = (ofDigits (c :: cs), rest) := by
  obtain ⟨hc, hcs⟩ := List.forall_mem_cons.1 hcs
  have hblank : isBlank c = false := not_isBlank (by decide) hc
  simp [first, hblank, hc, takeWhile_stops hcs hrest, dropWhile_stops hcs hrest]

theorem ofWord_word (k : Keyword) : ofWord k.word.toList = ⟨k.word.toList, .token (.keyword k)⟩ := by
  rw [ofWord, String.ofList_toList, TokenKind.ofWord, Keyword.ofWord?_word]

theorem ofWord_name {x : String} (hx : IsName x) : ofWord x.toList = ⟨x.toList, .token (.identifier x)⟩ := by
  have hnone : Keyword.ofWord? x = none := by
    rw [Option.eq_none_iff_forall_ne_some]
    intro k hk
    exact hx.notKeyword k (Keyword.word_of_ofWord? hk)
  rw [ofWord, String.ofList_toList, TokenKind.ofWord, hnone]

theorem ofDigits_digits {n : Nat} (hn : n < 0x8000000000000000) :
    ofDigits (Decimal.digits n) = ⟨Decimal.digits n, .token (.integer n)⟩ := by
  rw [ofDigits, Decimal.value_digits, if_pos hn]

structure IsSignStart (c : Char) : Prop where
  blank : isBlank c = false
  digit : c.isDigit = false
  word : isWordStart c = false

theorem isSignStart_of_single? {c : Char} {kind : TokenKind} (h : single? c = some kind) : IsSignStart c := by
  unfold single? at h
  split at h <;> cases h <;> exact ⟨by decide, by decide, by decide⟩

theorem first_single {c : Char} {rest : List Char} {kind : TokenKind} (hc : single? c = some kind)
    (hrest : ∀ d ∈ rest.head?, pair? c d = none ∧ ¬ (c = '/' ∧ d = '/')) :
    first c rest = (⟨[c], .token kind⟩, rest) := by
  have hstart := isSignStart_of_single? hc
  have hchar : ofChar c = ⟨[c], .token kind⟩ := by simp [ofChar, hc]
  cases rest with
  | nil => simp [first, hstart.blank, hstart.digit, hstart.word, hchar]
  | cons d ds =>
    obtain ⟨hpair, hcomment⟩ := hrest d rfl
    simp [first, hstart.blank, hstart.digit, hstart.word, hcomment, hpair, hchar]

theorem pair?_of_ne {c d : Char} (hc : c = '=' ∨ c = '<' ∨ c = '>') (hd : (d == '=') = false) :
    pair? c d = none ∧ ¬ (c = '/' ∧ d = '/') := by
  rcases hc with rfl | rfl | rfl
  all_goals
    refine ⟨?_, by simp⟩
    unfold pair?
    split <;> simp_all

theorem first_spelling {k : TokenKind} {rest : List Char} (hk : k.Scannable) (hrest : k.EndsBefore rest) :
    ∃ c cs, k.spelling = c :: cs ∧ first c (cs ++ rest) = (⟨k.spelling, .token k⟩, rest) := by
  cases k with
  | keyword k =>
    have hword : ∃ c cs, k.word.toList = c :: cs ∧ isWordStart c = true ∧ ∀ d ∈ cs, isWordChar d = true := by
      cases k <;> exact ⟨_, _, rfl, rfl, List.all_eq_true.1 rfl⟩
    obtain ⟨c, cs, heq, hc, hcs⟩ := hword
    refine ⟨c, cs, heq, ?_⟩
    rw [first_word hc hcs hrest, ← heq, ofWord_word]
    rfl
  | identifier x =>
    obtain ⟨c, cs, heq, hc, hcs⟩ := IsName.word hk
    refine ⟨c, cs, heq, ?_⟩
    have hcs : ∀ d ∈ cs, isWordChar d = true := fun d hd => (isWordChar_iff d).2 (hcs d hd)
    rw [first_word ((isWordStart_iff c).2 hc) hcs hrest, ← heq, ofWord_name hk]
    rfl
  | integer i =>
    obtain ⟨hnonneg, hlt⟩ := hk
    obtain ⟨n, rfl⟩ := Int.eq_ofNat_of_zero_le hnonneg
    obtain ⟨c, cs, heq⟩ := List.exists_cons_of_ne_nil (Nat.toDigits_ne_nil (b := 10) (n := n))
    refine ⟨c, cs, heq, ?_⟩
    have hdigits : ∀ d ∈ c :: cs, d.isDigit = true := by
      intro d hd
      rw [← heq] at hd
      exact Decimal.isDigit_of_mem_digits hd
    rw [first_digits hdigits hrest, ← heq]
    change (ofDigits (Decimal.digits n), rest) = _
    rw [ofDigits_digits (by omega)]
    rfl
  | endOfText => exact hk.elim
  -- of the signs, these four may be continued
  | assign => exact ⟨_, _, rfl, first_single rfl fun d hd => pair?_of_ne (.inl rfl) (hrest d hd)⟩
  | operator op =>
    cases op with
    | lt => exact ⟨_, _, rfl, first_single rfl fun d hd => pair?_of_ne (.inr (.inl rfl)) (hrest d hd)⟩
    | gt => exact ⟨_, _, rfl, first_single rfl fun d hd => pair?_of_ne (.inr (.inr rfl)) (hrest d hd)⟩
    | div =>
      refine ⟨_, _, rfl, first_single rfl fun d hd => ⟨rfl, ?_⟩⟩
      rintro ⟨-, rfl⟩
      cases hrest _ hd
    | _ => cases rest <;> exact ⟨_, _, rfl, rfl⟩
  | _ => cases rest <;> exact ⟨_, _, rfl, rfl⟩

end Segment

theorem segments_spelling {k : TokenKind} {rest : List Char} (hk : k.Scannable) (hrest : k.EndsBefore rest) :
    segments (k.spelling ++ rest) = ⟨k.spelling, .token k⟩ :: segments rest := by
  obtain ⟨c, cs, heq, hfirst⟩ := Segment.first_spelling hk hrest
  rw [heq, List.cons_append, segments_of_first hfirst, heq]

theorem segments_space (cs : List Char) : segments (' ' :: cs) = ⟨[' '], .blank⟩ :: segments cs :=
  segments_of_first rfl

/-- The text spells the kinds. Spaces may stand before each of them, and do where a kind would continue the one before
it. -/
inductive Spells : List Char → Kinds → Prop where
  | nil : Spells [] []
  | space {cs : List Char} {ks : Kinds} : Spells cs ks → Spells (' ' :: cs) ks
  | cons {k : TokenKind} {rest : List Char} {ks : Kinds} :
      k.Scannable → k.EndsBefore rest → Spells rest ks → Spells (k.spelling ++ rest) (k :: ks)

theorem spells_spell {ks : Kinds} (hks : ks.Scannable) : Spells (spell ks) ks := by
  induction ks with
  | nil => exact .nil
  | cons k ks ih =>
    obtain ⟨hk, hks⟩ := List.forall_mem_cons.1 hks
    cases ks with
    | nil =>
      have hspell : spell [k] = k.spelling ++ [] := by simp [spell]
      rw [hspell]
      exact .cons hk (.nil k) .nil
    | cons k' ks =>
      have hspell : spell (k :: k' :: ks) = k.spelling ++ ' ' :: spell (k' :: ks) := by
        simp [spell, List.intercalate_cons_cons]
      rw [hspell]
      exact .cons hk (.cons k.continuedBy_space _) (.space (ih hks))

theorem Scanner.scanFrom_of_spells {cs : List Char} {ks : Kinds} (h : Spells cs ks) (p : Position)
    (recent : List Token) :
    ∃ ts q, (scanFrom (segments cs) p recent).1 = .ok (recent.reverse ++ ts ++ [.endAt q]) ∧ kinds ts = ks := by
  induction h generalizing p recent with
  | nil => exact ⟨[], p, by simp [segments, scanFrom], rfl⟩
  | space _ ih =>
    rw [segments_space]
    exact ih (p.after [' ']) recent
  | @cons k rest ks hk hrest _ ih =>
    let t : Token := ⟨k, String.ofList k.spelling, p⟩
    obtain ⟨ts, q, hscan, hts⟩ := ih (p.after k.spelling) (t :: recent)
    refine ⟨t :: ts, q, ?_, by rw [kinds_cons, hts]⟩
    rw [segments_spelling hk hrest]
    change (scanFrom (segments rest) _ (t :: recent)).1 = _
    rw [hscan]
    simp

/-- The tokens of a text that spells kinds are of these kinds. -/
theorem tokenize_of_spells {cs : List Char} {ks : Kinds} (h : Spells cs ks) :
    ∃ ts, tokenize (String.ofList cs) = .ok ts ∧ kinds ts = ks ++ [.endOfText] := by
  obtain ⟨ts, q, hscan, hts⟩ := Scanner.scanFrom_of_spells h .start []
  refine ⟨ts ++ [.endAt q], ?_, by simp [hts, Token.endAt]⟩
  rw [tokenize, Scanner.scan, Scanner.ofSource, String.toList_ofList]
  simpa using hscan

theorem tokenize_spell {ks : Kinds} (hks : ks.Scannable) :
    ∃ ts, tokenize (String.ofList (spell ks)) = .ok ts ∧ kinds ts = ks ++ [.endOfText] :=
  tokenize_of_spells (spells_spell hks)

end IntScript
