import IntScript.Proofs.GrammarComplete
import IntScript.Proofs.Placeless
import IntScript.Proofs.Seam

set_option autoImplicit false

namespace IntScript

namespace Segment

variable {p : Char → Bool}

theorem takeWhile_append_lineFeed (hp : p '\n' = false) (cs ds : List Char) :
    (cs ++ '\n' :: ds).takeWhile p = cs.takeWhile p := by
  induction cs with
  | nil => simp [hp]
  | cons c cs ih => simp [List.takeWhile_cons, ih]

theorem dropWhile_append_lineFeed (hp : p '\n' = false) (cs ds : List Char) :
    (cs ++ '\n' :: ds).dropWhile p = cs.dropWhile p ++ '\n' :: ds := by
  induction cs with
  | nil => simp [hp]
  | cons c cs ih =>
    by_cases hc : p c = true
    · simp [hc, ih]
    · simp [hc]

theorem pair?_lineFeed (c : Char) : pair? c '\n' = none := by
  unfold pair?
  split
  all_goals first | rfl | contradiction

theorem first_append_lineFeed (c : Char) (cs ds : List Char) :
    first c (cs ++ '\n' :: ds) = ((first c cs).1, (first c cs).2 ++ '\n' :: ds) := by
  by_cases hblank : isBlank c = true
  · simp [first, hblank]
  by_cases hdigit : c.isDigit = true
  · simp [first, hblank, hdigit, takeWhile_append_lineFeed (p := Char.isDigit) (by decide),
      dropWhile_append_lineFeed (p := Char.isDigit) (by decide)]
  by_cases hword : isWordStart c = true
  · simp [first, hblank, hdigit, hword, takeWhile_append_lineFeed (p := isWordChar) (by decide),
      dropWhile_append_lineFeed (p := isWordChar) (by decide)]
  cases cs with
  | nil => simp [first, hblank, hdigit, hword, pair?_lineFeed]
  | cons d cs =>
    by_cases hcomment : c = '/' ∧ d = '/'
    · obtain ⟨rfl, rfl⟩ := hcomment
      have hslashes : ∀ es, first '/' ('/' :: es) =
          (⟨'/' :: '/' :: es.takeWhile inComment, .blank⟩, es.dropWhile inComment) := fun _ => rfl
      rw [List.cons_append, hslashes, hslashes, takeWhile_append_lineFeed rfl, dropWhile_append_lineFeed rfl]
    · cases hpair : pair? c d with
      | none => simp [first, hblank, hdigit, hword, hcomment, hpair]
      | some kind => simp [first, hblank, hdigit, hword, hcomment, hpair]

end Segment

theorem segments_append_lineFeed (cs ds : List Char) :
    segments (cs ++ '\n' :: ds) = segments cs ++ ⟨['\n'], .blank⟩ :: segments ds := by
  fun_induction segments cs with
  | case1 => exact segments_of_first rfl
  | case2 c cs ih =>
    rw [List.cons_append, segments_of_first (Segment.first_append_lineFeed c cs ds), ih]
    rfl

namespace Scanner

/-- A scan that has come to its end goes on from there if more segments follow. -/
theorem scanFrom_append {front : List Segment} {p q : Position} {recent body : List Token}
    (h : (scanFrom front p recent).1 = .ok (body ++ [.endAt q])) (rest : List Segment) :
    scanFrom (front ++ rest) p recent = scanFrom rest q body.reverse := by
  induction front generalizing p recent with
  | nil =>
    obtain ⟨hbody, hlast⟩ := List.append_inj' (Except.ok.inj h) rfl
    obtain rfl : p = q := congrArg Token.position (List.singleton_inj.1 hlast)
    rw [← hbody, List.reverse_reverse]
    rfl
  | cons s front ih =>
    rw [scanFrom] at h
    rw [List.cons_append, scanFrom]
    split at h
    · exact ih h
    · exact ih h
    · cases h

/-- Elsewhere, the same segments give the same tokens, but for their positions. -/
theorem scanFrom_elsewhere {pending : List Segment} {p : Position} {recent ts : List Token}
    (h : (scanFrom pending p recent).1 = .ok ts) (p' : Position) (recent' : List Token) :
    ∃ new new', ts = recent.reverse ++ new ∧ (scanFrom pending p' recent').1 = .ok (recent'.reverse ++ new') ∧
      new'.map Token.unplaced = new.map Token.unplaced := by
  induction pending generalizing p recent p' recent' with
  | nil => exact ⟨_, _, (Except.ok.inj h).symm, rfl, rfl⟩
  | cons s pending ih =>
    unfold scanFrom at h ⊢
    split at h
    · exact ih h _ _
    · next kind hkind =>
      obtain ⟨new, new', rfl, hscan, hsame⟩ :=
        ih h (p'.after s.text) (⟨kind, String.ofList s.text, p'⟩ :: recent')
      refine ⟨⟨kind, String.ofList s.text, p⟩ :: new, ⟨kind, String.ofList s.text, p'⟩ :: new', ?_, ?_, ?_⟩
      · simp
      · simpa using hscan
      · rw [List.map_cons, List.map_cons, hsame]
        rfl
    · cases h

end Scanner

theorem tokenize_append {s s' : String} {body ts' : List Token} {p : Position}
    (h : tokenize s = .ok (body ++ [.endAt p])) (h' : tokenize s' = .ok ts') :
    ∃ moved, tokenize (s ++ "\n" ++ s') = .ok (body ++ moved) ∧
      moved.map Token.unplaced = ts'.map Token.unplaced := by
  have hchars : (s ++ "\n" ++ s').toList = s.toList ++ '\n' :: s'.toList := by
    rw [String.toList_append, String.toList_append, List.append_assoc]
    rfl
  obtain ⟨new, moved, rfl, hscan, hsame⟩ := Scanner.scanFrom_elsewhere h' (p.after ['\n']) body.reverse
  refine ⟨moved, ?_, hsame⟩
  change (Scanner.scanFrom (segments s.toList) .start []).1 = _ at h
  change (Scanner.scanFrom (segments (s ++ "\n" ++ s').toList) .start []).1 = _
  rw [hchars, segments_append_lineFeed, Scanner.scanFrom_append h]
  rw [List.reverse_reverse] at hscan
  exact hscan

/-- The first token of the second list does not continue the last statement of the first: it is no minus sign, and no
parenthesis behind a name. -/
structure Separate (ts ts' : List Token) : Prop where
  notMinus : (Parse.current ts').kind ≠ .operator .sub
  notCall : (Parse.current ts').kind = .leftParen → ∀ t ∈ ts.dropLast.getLast?, ∀ x, t.kind ≠ .identifier x

namespace Parse

open Grammar

theorem starts_of_file {ts : List Token} {body : Block} (hscanned : Scanned ts) (h : File (kinds ts) body) :
    (current ts).kind.startsStatement = true ∨ (current ts).kind = .endOfText := by
  have hat : At ts (kinds ts) := ⟨hscanned, rfl⟩
  have hhead := hat.current
  generalize kinds ts = ks at h hhead
  rw [hhead]
  cases h with
  | intro hbody =>
    cases hbody with
    | nil => exact .inr rfl
    | cons hs _ =>
      obtain ⟨k, rest, rfl, hk⟩ := hs.starts
      exact .inl hk

theorem Fits.of_separate {body ts' moved : List Token} {p : Position} {program : Block}
    (hsame : moved.map Token.unplaced = ts'.map Token.unplaced) (hscanned : Scanned ts')
    (hfile : File (kinds ts') program) (h : Separate (body ++ [.endAt p]) ts') : Fits body moved := by
  have hcurrent : (current moved).unplaced = (current ts').unplaced := by
    rw [← current_unplaced, ← current_unplaced, hsame]
  obtain ⟨hkind, hlexeme, -⟩ := Token.mk.inj hcurrent
  have hoperator : (current moved).operator? = (current ts').operator? := by
    unfold Token.operator?
    rw [hkind, hlexeme]
  have hsound : (current ts').operator? = (current ts').kind.operator? := by
    cases ts' with
    | nil => rfl
    | cons t ts' => exact hscanned.head.operator
  have hstarts := starts_of_file hscanned hfile
  constructor
  · rw [hkind]
    exact hstarts
  · rw [hoperator, hsound]
    have hminus := h.notMinus
    generalize (current ts').kind = kind at hstarts hminus ⊢
    cases kind with
    | operator op =>
      -- only a minus sign begins a statement
      rcases hstarts with hstarts | hend
      · exact absurd (congrArg TokenKind.operator (of_decide_eq_true hstarts)) hminus
      · cases hend
    | _ => rfl
  · intro hparen t ht
    apply h.notCall (hkind.symm.trans hparen)
    rw [List.dropLast_concat]
    exact ht

end Parse

theorem parseProgram_eq_ok {source : String} {ts : List Token} {program : Block} (hts : tokenize source = .ok ts) :
    parseProgram source = .ok program ↔ (parseTokens ts).1 = .ok program := by
  unfold parseProgram
  rw [hts]
  dsimp only
  cases (parseTokens ts).1 with
  | error e => simp
  | ok body => simp

/-- Two programs with a line feed between them are one program. -/
theorem parseProgram_append {s s' : String} {ts ts' : List Token} {program program' : Block}
    (hts : tokenize s = .ok ts) (hts' : tokenize s' = .ok ts') (h : parseProgram s = .ok program)
    (h' : parseProgram s' = .ok program') (hseparate : Separate ts ts') :
    parseProgram (s ++ "\n" ++ s') = .ok (program ++ program') := by
  obtain ⟨body, p, rfl, hend, hscanned⟩ := scanned_of_tokenize hts
  obtain ⟨-, -, -, -, hscanned'⟩ := scanned_of_tokenize hts'
  obtain ⟨moved, hmoved, hsame⟩ := tokenize_append hts hts'
  rw [parseProgram_eq_ok hts] at h
  rw [parseProgram_eq_ok hts'] at h'
  rw [parseProgram_eq_ok hmoved]
  have hfits : Parse.Fits body moved := .of_separate hsame hscanned' (file_of_parseTokens hts' h') hseparate
  -- the first program is read up to its end token, the second wherever it stands
  obtain ⟨us, hus⟩ := parseTokens_eq_ok.1 h
  obtain ⟨ks, hpassed, -, hcurrent⟩ := Parse.ensures_untilEnd (Parse.reads_statement _) _ hscanned program us hus
  obtain rfl := hpassed.to_end hend hcurrent
  obtain ⟨us', hus'⟩ := parseTokens_eq_ok.1 h'
  obtain ⟨vs, hvs⟩ := Parse.program_of_unplaced hsame hus'
  obtain ⟨read, heq, hboth⟩ := Parse.program_append hus hvs
  obtain rfl : body = read := List.append_cancel_right heq
  exact parseTokens_of_program (hboth hfits)

end IntScript
