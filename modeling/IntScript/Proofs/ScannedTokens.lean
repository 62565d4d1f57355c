import IntScript.Program.Parse
import IntScript.Token.Scanner

set_option autoImplicit false

namespace IntScript

def TokenKind.operator? : TokenKind → Option BinaryOp
  | .operator op => some op
  | _ => none

def NameStart (c : Char) : Prop := 'A' ≤ c ∧ c ≤ 'Z' ∨ 'a' ≤ c ∧ c ≤ 'z' ∨ c = '_'

def NamePart (c : Char) : Prop := NameStart c ∨ '0' ≤ c ∧ c ≤ '9'

/-- A word of letters, digits and underscores that begins with no digit and is not a keyword. -/
structure IsName (x : String) : Prop where
  word : ∃ c cs, x.toList = c :: cs ∧ NameStart c ∧ ∀ d ∈ cs, NamePart d
  notKeyword : ∀ k : Keyword, k.word ≠ x

/-- What the scanner promises of a token. -/
structure Token.Sound (t : Token) : Prop where
  operator : t.operator? = t.kind.operator?
  integer : ∀ i, t.kind = .integer i → 0 ≤ i ∧ i < 0x8000000000000000
  name : ∀ x, t.kind = .identifier x → IsName x

/-- Kinds that carry no number and no name are told by the operator that the text stands for. -/
theorem Token.Sound.of_sign {kind : TokenKind} {lexeme : String} {p : Position} (hint : ∀ i, kind ≠ .integer i)
    (hname : ∀ x, kind ≠ .identifier x) (hop : BinaryOp.ofToken? lexeme = kind.operator?) :
    Token.Sound ⟨kind, lexeme, p⟩ := by
  refine ⟨?_, fun i hi => absurd hi (hint i), fun x hx => absurd hx (hname x)⟩
  cases kind with
  | integer i => exact absurd rfl (hint i)
  | identifier x => exact absurd rfl (hname x)
  | _ => exact hop

namespace Segment

theorem isUpper_iff (c : Char) : c.isUpper = true ↔ 'A' ≤ c ∧ c ≤ 'Z' := decide_eq_true_iff

theorem isLower_iff (c : Char) : c.isLower = true ↔ 'a' ≤ c ∧ c ≤ 'z' :=
  Bool.and_eq_true_iff.trans (and_congr decide_eq_true_iff decide_eq_true_iff)

theorem isDigit_iff (c : Char) : c.isDigit = true ↔ '0' ≤ c ∧ c ≤ '9' :=
  Bool.and_eq_true_iff.trans (and_congr decide_eq_true_iff decide_eq_true_iff)

theorem isWordStart_iff (c : Char) : isWordStart c = true ↔ NameStart c := by
  change ((c.isUpper || c.isLower) || c == '_') = true ↔ _
  rw [Bool.or_eq_true, Bool.or_eq_true, isUpper_iff, isLower_iff, beq_iff_eq, or_assoc, NameStart]

theorem isWordChar_iff (c : Char) : isWordChar c = true ↔ NamePart c := by
  have hor : isWordChar c = (isWordStart c || c.isDigit) := Bool.or_right_comm _ _ _
  rw [hor, Bool.or_eq_true, isWordStart_iff, isDigit_iff, NamePart]

variable {kind : TokenKind} {p : Position}

theorem ofDigits_token {digits : List Char} (h : (ofDigits digits).kind = .token kind) :
    kind ≠ .endOfText ∧ Token.Sound ⟨kind, String.ofList digits, p⟩ := by
  unfold ofDigits at h
  split at h
  · next hlt =>
    cases h
    refine ⟨by simp, rfl, ?_, by simp⟩
    intro i hi
    cases hi
    omega
  · cases h

theorem ofToken?_word (k : Keyword) : BinaryOp.ofToken? k.word = none := by
  cases k <;> decide

theorem ofWord_token {c : Char} {cs : List Char} (hc : isWordStart c = true)
    (hcs : ∀ d ∈ cs, isWordChar d = true) (h : (ofWord (c :: cs)).kind = .token kind) :
    kind ≠ .endOfText ∧ Token.Sound ⟨kind, String.ofList (c :: cs), p⟩ := by
  change SegmentKind.token (.ofWord (String.ofList (c :: cs))) = .token kind at h
  cases h
  unfold TokenKind.ofWord
  split
  · next k hk =>
    refine ⟨by simp, .of_sign nofun nofun ?_⟩
    rw [← Keyword.word_of_ofWord? hk]
    exact ofToken?_word k
  · next hk =>
    refine ⟨by simp, rfl, by simp, ?_⟩
    intro x hx
    cases hx
    refine ⟨⟨c, cs, String.toList_ofList, (isWordStart_iff c).1 hc, fun d hd => ?_⟩, ?_⟩
    · exact (isWordChar_iff d).1 (hcs d hd)
    · intro k hword
      rw [← hword, Keyword.ofWord?_word] at hk
      cases hk

theorem ofChar_token {c : Char} (h : (ofChar c).kind = .token kind) :
    kind ≠ .endOfText ∧ Token.Sound ⟨kind, String.ofList [c], p⟩ := by
  unfold ofChar at h
  split at h
  · next k hk =>
    cases h
    unfold single? at hk
    split at hk <;> cases hk <;> exact ⟨nofun, .of_sign nofun nofun (by decide)⟩
  · cases h

theorem pair?_token {c d : Char} (h : pair? c d = some kind) :
    kind ≠ .endOfText ∧ Token.Sound ⟨kind, String.ofList [c, d], p⟩ := by
  unfold pair? at h
  split at h <;> cases h <;> exact ⟨nofun, .of_sign nofun nofun (by decide)⟩

theorem first_token {c : Char} {cs : List Char} (h : (first c cs).1.kind = .token kind) :
    kind ≠ .endOfText ∧ Token.Sound ⟨kind, String.ofList (first c cs).1.text, p⟩ := by
  revert h
  unfold first
  split
  · intro h
    cases h
  · split
    · intro h
      rw [ofDigits_text]
      exact ofDigits_token h
    · split
      · next hc =>
        intro h
        refine ofWord_token hc (fun d hd => ?_) h
        exact List.all_eq_true.1 List.all_takeWhile d hd
      · split
        · intro h
          rw [ofChar_text]
          exact ofChar_token h
        · split
          · intro h
            cases h
          · split
            · next hpair =>
              intro h
              cases h
              exact pair?_token hpair
            · intro h
              rw [ofChar_text]
              exact ofChar_token h

end Segment

theorem segments_of_first {c : Char} {cs rest : List Char} {s : Segment} (h : Segment.first c cs = (s, rest)) :
    segments (c :: cs) = s :: segments rest := by
  rw [segments, h]

theorem exists_first_of_mem_segments {s : Segment} {cs : List Char} (h : s ∈ segments cs) :
    ∃ d ds, s = (Segment.first d ds).1 := by
  fun_induction segments cs with
  | case1 => cases h
  | case2 c cs ih =>
    rcases List.mem_cons.1 h with rfl | h
    · exact ⟨c, cs, rfl⟩
    · exact ih h

namespace Scanner

variable {P : Token → Prop}

theorem scanFrom_tokens {pending : List Segment} {p : Position} {recent ts : List Token} {rest : Scanner}
    (hP : ∀ d ds kind q, (Segment.first d ds).1.kind = .token kind →
      P ⟨kind, String.ofList (Segment.first d ds).1.text, q⟩)
    (h : scanFrom pending p recent = (.ok ts, rest)) (hpending : ∀ s ∈ pending, ∃ d ds, s = (Segment.first d ds).1)
    (hrecent : ∀ t ∈ recent, P t) : ∃ body q, ts = body ++ [Token.endAt q] ∧ ∀ t ∈ body, P t := by
  induction pending generalizing p recent with
  | nil =>
    obtain ⟨h, -⟩ := Prod.mk.inj h
    exact ⟨recent.reverse, p, (Except.ok.inj h).symm, fun t ht => hrecent t (List.mem_reverse.1 ht)⟩
  | cons s pending ih =>
    have hpending' : ∀ s ∈ pending, ∃ d ds, s = (Segment.first d ds).1 :=
      fun s hs => hpending s (List.mem_cons_of_mem _ hs)
    unfold scanFrom at h
    split at h
    · exact ih h hpending' hrecent
    · next kind hkind =>
      obtain ⟨d, ds, rfl⟩ := hpending s List.mem_cons_self
      refine ih h hpending' fun t ht => ?_
      rcases List.mem_cons.1 ht with rfl | ht
      · exact hP d ds kind p hkind
      · exact hrecent t ht
    · obtain ⟨h, -⟩ := Prod.mk.inj h
      cases h

end Scanner

/-- What holds of every token that is cut off a text holds of the tokens of a source. -/
theorem tokenize_forall {P : Token → Prop} {source : String} {ts : List Token}
    (hP : ∀ d ds kind q, (Segment.first d ds).1.kind = .token kind →
      P ⟨kind, String.ofList (Segment.first d ds).1.text, q⟩)
    (h : tokenize source = .ok ts) : ∃ body p, ts = body ++ [Token.endAt p] ∧ ∀ t ∈ body, P t := by
  refine Scanner.scanFrom_tokens hP (Prod.ext h rfl) (fun s hs => exists_first_of_mem_segments hs) ?_
  intro t ht
  cases ht

theorem tokenize_tokens {source : String} {ts : List Token} (h : tokenize source = .ok ts) :
    ∃ body p, ts = body ++ [Token.endAt p] ∧ ∀ t ∈ body, t.kind ≠ .endOfText ∧ t.Sound :=
  tokenize_forall (fun _ _ _ _ hkind => Segment.first_token hkind) h

end IntScript
