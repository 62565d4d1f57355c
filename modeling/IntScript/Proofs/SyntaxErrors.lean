import IntScript.Proofs.GrammarComplete
import IntScript.Proofs.LookAhead
import IntScript.Proofs.SpellingScanned
import IntScript.Proofs.Stalling

set_option autoImplicit false

namespace IntScript

open Grammar

/-- The text of the token, scanned alone, is one token of its kind. -/
def Token.Matches (t : Token) : Prop := segments t.lexeme.toList = [⟨t.lexeme.toList, .token t.kind⟩]

theorem segments_alone {c : Char} {cs : List Char} {s : Segment} (h : Segment.first c cs = (s, [])) :
    segments (c :: cs) = [s] := by
  rw [segments_of_first h, segments]

namespace Segment

theorem first_alone {c : Char} {cs : List Char} {kind : TokenKind} (h : (first c cs).1.kind = .token kind) :
    segments (first c cs).1.text = [(first c cs).1] := by
  revert h
  have hnil : ∀ (p : Char → Bool), ∀ d ∈ ([] : List Char).head?, p d = false := by simp
  have hall : ∀ (p : Char → Bool) (ds : List Char), ∀ d ∈ ds.takeWhile p, p d = true :=
    fun p ds d hd => List.all_eq_true.1 List.all_takeWhile d hd
  unfold first
  split
  · intro h
    cases h
  · next hblank =>
    split
    · next hdigit =>
      intro _
      have hdigits : ∀ d ∈ c :: cs.takeWhile Char.isDigit, d.isDigit = true :=
        List.forall_mem_cons.2 ⟨hdigit, hall Char.isDigit cs⟩
      have hfirst := first_digits hdigits (hnil Char.isDigit)
      rw [List.append_nil] at hfirst
      rw [ofDigits_text]
      exact segments_alone hfirst
    · next hdigit =>
      split
      · next hword =>
        intro _
        have hfirst := first_word hword (hall isWordChar cs) (hnil isWordChar)
        rw [List.append_nil] at hfirst
        exact segments_alone hfirst
      · next hword =>
        have hchar : segments (ofChar c).text = [ofChar c] := by
          rw [ofChar_text]
          exact segments_alone (by simp [first, hblank, hdigit, hword])
        split
        · exact fun _ => hchar
        · next d ds =>
          split
          · intro h
            cases h
          · next hcomment =>
            split
            · next kind hpair =>
              exact fun _ => segments_alone (by simp [first, hblank, hdigit, hword, hcomment, hpair])
            · exact fun _ => hchar

end Segment

namespace Token.Matches

variable {t : Token}

theorem sound (h : t.Matches) : t.kind ≠ .endOfText ∧ t.Sound := by
  obtain ⟨kind, lexeme, p⟩ := t
  change segments lexeme.toList = [⟨lexeme.toList, .token kind⟩] at h
  cases hchars : lexeme.toList with
  | nil =>
    rw [hchars, segments] at h
    cases h
  | cons c cs =>
    rw [hchars, segments] at h
    obtain ⟨hfirst, -⟩ := List.cons.inj h
    have hkind : (Segment.first c cs).1.kind = .token kind := by rw [hfirst]
    have htoken := Segment.first_token (p := p) hkind
    rw [hfirst, ← hchars, String.ofList_toList] at htoken
    exact htoken

theorem of_spelling {k : TokenKind} (hk : k.Scannable) (p : Position) :
    Token.Matches ⟨k, String.ofList k.spelling, p⟩ := by
  have halone := segments_spelling hk (.nil k)
  rw [List.append_nil, segments] at halone
  change segments (String.ofList k.spelling).toList = _
  rw [String.toList_ofList]
  exact halone

end Token.Matches

theorem tokenize_matches {source : String} {ts : List Token} (h : tokenize source = .ok ts) :
    ∃ body p, ts = body ++ [Token.endAt p] ∧ ∀ t ∈ body, t.Matches := by
  refine tokenize_forall (fun d ds kind q hkind => ?_) h
  have halone := Segment.first_alone hkind
  change segments (String.ofList (Segment.first d ds).1.text).toList = _
  rw [String.toList_ofList, halone, ← hkind]

/-- Tokens that begin a program can be completed to one. -/
theorem parseTokens_completed {ts : List Token} (hts : ∀ t ∈ ts, t.Matches) (h : Begins (Many Stmt) (kinds ts))
    (p : Position) :
    ∃ more body, (∀ t ∈ ts ++ more, t.Matches) ∧ (parseTokens (ts ++ more ++ [.endAt p])).1 = .ok body := by
  obtain ⟨ks, body, hks, hbody⟩ := h
  let more : List Token := ks.map fun k => ⟨k, String.ofList k.spelling, p⟩
  have hkinds : kinds more = ks := by
    change List.map Token.kind (ks.map _) = ks
    rw [List.map_map]
    exact List.map_id ks
  have hmatches : ∀ t ∈ ts ++ more, t.Matches := by
    intro t ht
    rcases List.mem_append.1 ht with ht | ht
    · exact hts t ht
    · obtain ⟨k, hk, rfl⟩ := List.mem_map.1 ht
      exact .of_spelling (hks k hk) p
  have hscanned : Scanned (ts ++ more ++ [.endAt p]) := by
    intro t ht
    rcases List.mem_append.1 ht with ht | ht
    · exact (hmatches t ht).sound.2
    · obtain rfl := List.mem_singleton.1 ht
      exact Token.sound_endAt p
  rw [← hkinds, ← kinds_append] at hbody
  obtain ⟨body', hbody'⟩ := parseTokens_of_many hscanned hbody
  exact ⟨more, body', hmatches, hbody'⟩

/-- What was passed stands before the end token, and some token is left. -/
theorem Passed.split {body us : List Token} {p : Position} {ks : Kinds} (h : Passed (body ++ [.endAt p]) ks us) :
    ∃ read t after, us = t :: after ∧ body ++ [.endAt p] = read ++ us ∧ kinds read = ks ∧ ∀ u ∈ read, u ∈ body := by
  obtain ⟨read, heq, rfl, hend⟩ := h
  have hnot : Token.endAt p ∉ read := fun hmem => hend (List.mem_map.2 ⟨_, hmem, rfl⟩)
  cases us with
  | nil =>
    rw [List.append_nil] at heq
    exact absurd (heq ▸ List.mem_append_right body List.mem_cons_self) hnot
  | cons t after =>
    refine ⟨read, t, after, rfl, heq, rfl, fun u hu => ?_⟩
    have hmem : u ∈ body ++ [.endAt p] := heq ▸ List.mem_append_left _ hu
    rcases List.mem_append.1 hmem with hmem | hmem
    · exact hmem
    · obtain rfl := List.mem_singleton.1 hmem
      exact absurd hu hnot

/-- A syntax error stands at a token such that those before it begin a program, and with it none. -/
theorem syntax_error_at_first_impossible {source : String} {ts : List Token} {e : SyntaxError}
    (h : tokenize source = .ok ts) (he : (parseTokens ts).1 = .error e) :
    ∃ before t after, ts = before ++ t :: after ∧ e.position = t.position ∧
      (∃ more p body, (∀ u ∈ before ++ more, u.Matches) ∧
        (parseTokens (before ++ more ++ [.endAt p])).1 = .ok body) ∧
      ∀ rest, (parseTokens (before ++ t :: rest)).1 = .error e := by
  obtain ⟨-, -, -, -, hscanned⟩ := scanned_of_tokenize h
  obtain ⟨tokens, p, rfl, hmatches⟩ := tokenize_matches h
  obtain ⟨us, hrun⟩ := parseTokens_eq_iff.1 he
  obtain ⟨hposition, ks, hpassed, hbegins⟩ := Parse.stalls_program _ _ hscanned e us hrun
  obtain ⟨before, t, after, rfl, heq, rfl, hbefore⟩ := hpassed.split
  obtain ⟨more, body, hall, hbody⟩ := parseTokens_completed (fun u hu => hmatches u (hbefore u hu)) hbegins p
  refine ⟨before, t, after, heq, hposition, ⟨more, p, body, hall, hbody⟩, fun rest => ?_⟩
  rw [heq] at hrun
  exact parseTokens_error_behind hrun rfl

def misplaced : List Token :=
  [⟨.identifier "x", "x", ⟨1, 1⟩⟩, ⟨.assign, "=", ⟨1, 3⟩⟩, ⟨.rightParen, ")", ⟨1, 5⟩⟩, ⟨.integer 1, "1", ⟨1, 7⟩⟩,
    .endAt ⟨1, 8⟩]

theorem tokenize_misplaced : tokenize "x = ) 1" = .ok misplaced := by
  have hx : Segment.first 'x' [' ', '=', ' ', ')', ' ', '1'] = (_, [' ', '=', ' ', ')', ' ', '1']) := rfl
  have hassign : Segment.first '=' [' ', ')', ' ', '1'] = (_, [' ', ')', ' ', '1']) := rfl
  have hparen : Segment.first ')' [' ', '1'] = (_, [' ', '1']) := rfl
  have hone : Segment.first '1' [] = (_, []) := rfl
  change (Scanner.scanFrom (segments ['x', ' ', '=', ' ', ')', ' ', '1']) .start []).1 = _
  rw [segments_of_first hx, segments_space, segments_of_first hassign, segments_space, segments_of_first hparen,
    segments_space, segments_of_first hone, segments]
  rfl

theorem misplaced_parenthesis :
    tokenize "x = ) 1" = .ok misplaced ∧ (parseTokens misplaced).1 = .error ⟨⟨1, 5⟩, .expression, .rightParen⟩ ∧
      ∃ before t after, misplaced = before ++ t :: after ∧ ⟨1, 5⟩ = t.position ∧
        (∃ more p body, (∀ u ∈ before ++ more, u.Matches) ∧
          (parseTokens (before ++ more ++ [.endAt p])).1 = .ok body) ∧
        ∀ rest, (parseTokens (before ++ t :: rest)).1 = .error ⟨⟨1, 5⟩, .expression, .rightParen⟩ := by
  have he : (parseTokens misplaced).1 = .error ⟨⟨1, 5⟩, .expression, .rightParen⟩ := parseTokens_eq_iff.2 ⟨_, rfl⟩
  exact ⟨tokenize_misplaced, he, syntax_error_at_first_impossible tokenize_misplaced he⟩

end IntScript
