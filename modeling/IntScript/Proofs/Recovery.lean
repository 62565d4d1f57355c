import IntScript.Proofs.LongestMatch

set_option autoImplicit false

namespace IntScript

open Segment

abbrev Part : Type := List Char × Option LexicalFault

/-- The text is parted from left to right: the longest lexeme is good if it is no number out of range, and a character
at which no lexeme begins is bad. -/
inductive Parted : List Char → List Part → Prop
  | nil : Parted [] []
  | good {w rest : List Char} {kind : Option TokenKind} {parts : List Part} (hw : Lexeme w kind)
      (hlongest : Longest w (w ++ rest)) (hrange : ∀ i, kind = some (.integer i) → i ≤ 2 ^ 63 - 1)
      (hrest : Parted rest parts) : Parted (w ++ rest) ((w, none) :: parts)
  | tooLarge {ds rest : List Char} {i : Int} {parts : List Part} (hds : Lexeme ds (some (.integer i)))
      (hlongest : Longest ds (ds ++ rest)) (hrange : 2 ^ 63 - 1 < i) (hrest : Parted rest parts) :
      Parted (ds ++ rest) ((ds, some (.integerTooLarge ds)) :: parts)
  | unexpected {c : Char} {rest : List Char} {parts : List Part} (hnone : ∀ v kind, v <+: c :: rest → ¬ Lexeme v kind)
      (hrest : Parted rest parts) : Parted (c :: rest) (([c], some (.unexpected c)) :: parts)

/-- The parts put together, with as many spaces in place of each bad one. -/
def blanked : List Part → List Char
  | [] => []
  | (w, none) :: parts => w ++ blanked parts
  | (w, some _) :: parts => List.replicate w.length ' ' ++ blanked parts

/-- What is reported of the parts behind a text. -/
def errorsBehind (before : List Char) : List Part → List LexicalError
  | [] => []
  | (w, none) :: parts => errorsBehind (before ++ w) parts
  | (w, some fault) :: parts => ⟨fault, place before⟩ :: errorsBehind (before ++ w) parts

namespace Segment

def fault? (s : Segment) : Option LexicalFault :=
  match s.kind with
  | .bad fault => some fault
  | _ => none

def part (s : Segment) : Part := (s.text, s.fault?)

theorem fault?_of_token {s : Segment} {kind : TokenKind} (h : s.kind = .token kind) : s.fault? = none := by
  rw [fault?, h]

theorem fault?_of_blank {s : Segment} (h : s.kind = .blank) : s.fault? = none := by
  rw [fault?, h]

theorem fault?_of_bad {s : Segment} {fault : LexicalFault} (h : s.kind = .bad fault) : s.fault? = some fault := by
  rw [fault?, h]

section Rest

variable {p : Char → Bool}

theorem takeWhile_rejoin (cs : List Char) {rest : List Char} (hrest : ∀ d ∈ rest.head?, p d = false) :
    (cs.takeWhile p ++ rest).takeWhile p = cs.takeWhile p :=
  takeWhile_stops (fun _ hd => List.mem_takeWhile_imp hd) hrest

theorem dropWhile_rejoin (cs : List Char) {rest : List Char} (hrest : ∀ d ∈ rest.head?, p d = false) :
    (cs.takeWhile p ++ rest).dropWhile p = rest :=
  dropWhile_stops (fun _ hd => List.mem_takeWhile_imp hd) hrest

theorem head?_dropWhile (cs : List Char) {d : Char} (hd : (cs.dropWhile p).head? = some d) : p d = false := by
  have hnot := List.head?_dropWhile_not p cs
  rw [hd] at hnot
  exact hnot

theorem pair?_space (c : Char) : pair? c ' ' = none := by
  unfold pair?
  split
  all_goals first | rfl | contradiction

/-- The second text begins like the first, or with a space where the first has anything but a line feed. -/
def BeginsAlike (rest rest' : List Char) : Prop :=
  rest'.head? = rest.head? ∨ rest'.head? = some ' ' ∧ ∃ d, rest.head? = some d ∧ d ≠ '\n'

theorem BeginsAlike.stops {cs rest' : List Char} (h : BeginsAlike (cs.dropWhile p) rest') (hspace : p ' ' = false) :
    ∀ d ∈ rest'.head?, p d = false := by
  intro d hd
  rcases h with hsame | ⟨hblank, -⟩
  · exact head?_dropWhile cs (hsame.symm.trans hd)
  · cases hblank.symm.trans hd
    exact hspace

theorem BeginsAlike.stops_comment {cs rest' : List Char} (h : BeginsAlike (cs.dropWhile inComment) rest') :
    ∀ d ∈ rest'.head?, inComment d = false := by
  intro d hd
  rcases h with hsame | ⟨-, e, he, hne⟩
  · exact head?_dropWhile cs (hsame.symm.trans hd)
  · have hlineFeed := head?_dropWhile cs he
    simp [inComment, hne] at hlineFeed

/-- The cut does not change if spaces come to stand behind it. -/
theorem first_beginsAlike (c : Char) (cs : List Char) {rest' : List Char} (h : BeginsAlike (first c cs).2 rest') :
    first c ((first c cs).1.text.tail ++ rest') = ((first c cs).1, rest') := by
  by_cases hblank : isBlank c = true
  · simp [first, hblank]
  by_cases hdigit : c.isDigit = true
  · have hfirst : first c cs = (ofDigits (c :: cs.takeWhile Char.isDigit), cs.dropWhile Char.isDigit) :=
      first_of_digit hdigit
    rw [hfirst] at h ⊢
    have hstops := h.stops (by decide)
    rw [ofDigits_text, List.tail_cons, first_of_digit hdigit, takeWhile_rejoin cs hstops, dropWhile_rejoin cs hstops]
  by_cases hword : isWordStart c = true
  · have hfirst : first c cs = (ofWord (c :: cs.takeWhile isWordChar), cs.dropWhile isWordChar) :=
      first_of_wordStart hword
    rw [hfirst] at h ⊢
    have hstops := h.stops (by decide)
    change first c (cs.takeWhile isWordChar ++ rest') = _
    rw [first_of_wordStart hword, takeWhile_rejoin cs hstops, dropWhile_rejoin cs hstops]
  cases cs with
  | nil =>
    have hnil : rest' = [] := by
      rcases h with hsame | ⟨-, d, hd, -⟩
      · simpa [first, hblank, hdigit, hword] using hsame
      · simp [first, hblank, hdigit, hword] at hd
    simp [first, hblank, hdigit, hword, hnil]
  | cons d ds =>
    by_cases hcomment : c = '/' ∧ d = '/'
    · obtain ⟨rfl, rfl⟩ := hcomment
      have hslashes : ∀ es, first '/' ('/' :: es) =
          (⟨'/' :: '/' :: es.takeWhile inComment, .blank⟩, es.dropWhile inComment) := fun _ => rfl
      rw [hslashes] at h ⊢
      have hstops := h.stops_comment
      change first '/' ('/' :: (ds.takeWhile inComment ++ rest')) = _
      rw [hslashes, takeWhile_rejoin ds hstops, dropWhile_rejoin ds hstops]
    · cases hpair : pair? c d with
      | some kind => simp [first, hblank, hdigit, hword, hcomment, hpair]
      | none =>
        have hrest : (first c (d :: ds)).2 = d :: ds := by simp [first, hblank, hdigit, hword, hcomment, hpair]
        rw [hrest] at h
        cases rest' with
        | nil => simp [BeginsAlike] at h
        | cons e es =>
          have he : e = d ∨ e = ' ' := by
            rcases h with hsame | ⟨hspace, -⟩
            · exact .inl (Option.some.inj hsame)
            · exact .inr (Option.some.inj hspace)
          rcases he with rfl | rfl
          · simp [first, hblank, hdigit, hword, hcomment, hpair]
          · simp [first, hblank, hdigit, hword, hcomment, hpair, pair?_space]

end Rest

theorem bad_cases {c : Char} {cs : List Char} {fault : LexicalFault} (h : (first c cs).1.kind = .bad fault) :
    (fault = .unexpected c ∧ (first c cs).1.text = [c] ∧ isBlank c = false) ∨
      fault = .integerTooLarge (first c cs).1.text ∧ ∀ d ∈ (first c cs).1.text, d.isDigit = true := by
  have hblank : isBlank c = false := by
    rw [Bool.eq_false_iff]
    intro hc
    rw [first_of_blank hc] at h
    cases h
  rcases first_cases c cs with ⟨-, hfirst⟩ | ⟨hc, hfirst⟩ | ⟨-, hfirst⟩ | ⟨ds, hfirst⟩ | ⟨d, k, -, hfirst⟩ | hfirst
    <;> rw [hfirst] at h ⊢
  · cases h
  · right
    rw [ofDigits_text]
    refine ⟨?_, List.forall_mem_cons.2 ⟨hc, fun d hd => List.mem_takeWhile_imp hd⟩⟩
    unfold ofDigits at h
    split at h
    · cases h
    · cases h
      rfl
  · cases h
  · cases h
  · cases h
  · left
    rw [ofChar_text]
    refine ⟨?_, rfl, hblank⟩
    unfold ofChar at h
    split at h
    · cases h
    · cases h
      rfl

theorem lineFeed_not_mem_of_bad {c : Char} {cs : List Char} {fault : LexicalFault}
    (h : (first c cs).1.kind = .bad fault) : '\n' ∉ (first c cs).1.text := by
  intro hmem
  rcases bad_cases h with ⟨-, htext, hblank⟩ | ⟨-, hdigits⟩
  · rw [htext] at hmem
    obtain rfl := List.mem_singleton.1 hmem
    cases hblank
  · exact absurd (hdigits _ hmem) (by decide)

end Segment

theorem Position.after_of_not_mem {w : List Char} (h : '\n' ∉ w) (p : Position) :
    p.after w = ⟨p.line, p.column + w.length⟩ := by
  induction w generalizing p with
  | nil => rfl
  | cons c w ih =>
    obtain ⟨hc, hw⟩ := not_or.1 (mt List.mem_cons.2 h)
    have hnext : p.next c = ⟨p.line, p.column + 1⟩ := if_neg (Ne.symm hc)
    change (p.next c).after w = _
    rw [hnext, ih hw, List.length_cons]
    dsimp only
    congr 1
    omega

def partsOf (cs : List Char) : List Part := (segments cs).map Segment.part

section Parting

variable {c : Char} {cs : List Char}

theorem partsOf_cons (c : Char) (cs : List Char) : partsOf (c :: cs) = (first c cs).1.part :: partsOf (first c cs).2 := by
  rw [partsOf, segments, List.map_cons]
  rfl

theorem part_of_inRange {kind : Option TokenKind} (hmeaning : (first c cs).1.meaning = some kind)
    (hrange : ∀ i, kind = some (.integer i) → i ≤ 2 ^ 63 - 1) : (first c cs).1.part = ((first c cs).1.text, none) := by
  cases hkind : (first c cs).1.kind with
  | blank => rw [part, fault?_of_blank hkind]
  | token k => rw [part, fault?_of_token hkind]
  | bad fault =>
    exfalso
    rw [meaning, hkind] at hmeaning
    cases fault with
    | unexpected d => cases hmeaning
    | integerTooLarge ds =>
      have hle := hrange _ (Option.some.inj hmeaning).symm
      have hge := value_of_tooLarge hkind
      omega

theorem part_of_tooLarge {i : Int} (hmeaning : (first c cs).1.meaning = some (some (.integer i)))
    (hrange : 2 ^ 63 - 1 < i) :
    (first c cs).1.part = ((first c cs).1.text, some (.integerTooLarge (first c cs).1.text)) := by
  rw [part]
  cases hkind : (first c cs).1.kind with
  | blank =>
    rw [meaning, hkind] at hmeaning
    cases hmeaning
  | token k =>
    rw [meaning, hkind] at hmeaning
    cases hmeaning
    have hlt := (first_token (p := .start) hkind).2.integer i rfl
    omega
  | bad fault =>
    rw [fault?_of_bad hkind]
    rcases bad_cases hkind with ⟨rfl, -⟩ | ⟨rfl, -⟩
    · rw [meaning, hkind] at hmeaning
      cases hmeaning
    · rfl

theorem part_of_meaningless (hmeaning : (first c cs).1.meaning = none) :
    (first c cs).1.part = ([c], some (.unexpected c)) := by
  rw [part, first_text_of_meaningless hmeaning]
  cases hkind : (first c cs).1.kind with
  | blank =>
    rw [meaning, hkind] at hmeaning
    cases hmeaning
  | token k =>
    rw [meaning, hkind] at hmeaning
    cases hmeaning
  | bad fault =>
    rw [fault?_of_bad hkind]
    rcases bad_cases hkind with ⟨rfl, -⟩ | ⟨rfl, -⟩
    · rfl
    · rw [meaning, hkind] at hmeaning
      cases hmeaning

/-- No lexeme begins at a character exactly if the segment there is none. -/
theorem meaningless_iff : (first c cs).1.meaning = none ↔ ∀ v kind, v <+: c :: cs → ¬ Lexeme v kind := by
  constructor
  · intro hmeaning v kind hbegins hv
    rcases hv.shorter_or_first hbegins with hlt | ⟨-, hsome⟩
    · have hpos := List.length_pos_iff.2 hv.ne_nil
      rw [first_text_of_meaningless hmeaning, List.length_singleton] at hlt
      omega
    · rw [hmeaning] at hsome
      cases hsome
  · intro hnone
    rw [Option.eq_none_iff_forall_ne_some]
    intro kind hmeaning
    exact hnone _ kind ⟨_, first_append c cs⟩ (lexeme_of_first hmeaning)

end Parting

theorem partsOf_of_longest {w rest : List Char} {kind : Option TokenKind} (hw : Lexeme w kind)
    (hlongest : Longest w (w ++ rest)) : ∃ c cs, w ++ rest = c :: cs ∧ w = (first c cs).1.text ∧
      rest = (first c cs).2 ∧ (first c cs).1.meaning = some kind := by
  obtain ⟨c, v, rfl⟩ := List.exists_cons_of_ne_nil hw.ne_nil
  obtain ⟨htext, hmeaning⟩ := eq_first_of_longest hw (List.prefix_append (c :: v) rest) hlongest
  have hsplit : (c :: v) ++ rest = (c :: v) ++ (first c (v ++ rest)).2 := (htext ▸ first_append c (v ++ rest)).symm
  exact ⟨c, v ++ rest, rfl, htext, List.append_cancel_left hsplit, hmeaning⟩

theorem eq_partsOf_of_parted {cs : List Char} {parts : List Part} (h : Parted cs parts) : parts = partsOf cs := by
  induction h with
  | nil => rw [partsOf, segments, List.map_nil]
  | good hw hlongest hrange _ ih =>
    obtain ⟨c, cs, heq, rfl, rfl, hmeaning⟩ := partsOf_of_longest hw hlongest
    rw [heq, partsOf_cons, part_of_inRange hmeaning hrange, ih]
  | tooLarge hds hlongest hrange _ ih =>
    obtain ⟨c, cs, heq, rfl, rfl, hmeaning⟩ := partsOf_of_longest hds hlongest
    rw [heq, partsOf_cons, part_of_tooLarge hmeaning hrange, ih]
  | @unexpected c rest parts hnone _ ih =>
    have hmeaning := meaningless_iff.2 hnone
    have hrest : (first c rest).2 = rest := by
      have happend := first_append c rest
      rw [first_text_of_meaningless hmeaning] at happend
      exact List.cons.inj happend |>.2
    rw [partsOf_cons, part_of_meaningless hmeaning, hrest, ih]

theorem parted_partsOf (cs : List Char) : Parted cs (partsOf cs) := by
  induction cs using segments.induct with
  | case1 =>
    rw [partsOf, segments]
    exact .nil
  | case2 c cs ih =>
    have hlongest := longest_first c cs
    have hsplit := first_append c cs
    rw [partsOf_cons]
    cases hmeaning : (first c cs).1.meaning with
    | none =>
      have hrest : (first c cs).2 = cs := by
        rw [first_text_of_meaningless hmeaning] at hsplit
        exact (List.cons.inj hsplit).2
      rw [hrest] at ih ⊢
      rw [part_of_meaningless hmeaning]
      exact .unexpected (meaningless_iff.1 hmeaning) ih
    | some kind =>
      have hlexeme := lexeme_of_first hmeaning
      rw [← hsplit] at hlongest ⊢
      by_cases hlarge : ∃ i, kind = some (.integer i) ∧ 2 ^ 63 - 1 < i
      · obtain ⟨i, rfl, hi⟩ := hlarge
        rw [part_of_tooLarge hmeaning hi]
        exact .tooLarge hlexeme hlongest hi ih
      · have hrange : ∀ i, kind = some (.integer i) → i ≤ 2 ^ 63 - 1 := by
          intro i hi
          by_contra hlt
          exact hlarge ⟨i, hi, by omega⟩
        rw [part_of_inRange hmeaning hrange]
        exact .good hlexeme hlongest hrange ih

section Blanks

theorem text_eq_cons (c : Char) (cs : List Char) : (first c cs).1.text = c :: (first c cs).1.text.tail := by
  obtain ⟨d, ds, htext⟩ := List.exists_cons_of_ne_nil (first_text_ne_nil c cs)
  have happend := first_append c cs
  rw [htext] at happend
  rw [htext, List.tail_cons, (List.cons.inj happend).1]

theorem blanked_of_bad {c : Char} {cs : List Char} {fault : LexicalFault} (h : (first c cs).1.kind = .bad fault) :
    blanked (partsOf (c :: cs)) =
      List.replicate (first c cs).1.text.length ' ' ++ blanked (partsOf (first c cs).2) := by
  rw [partsOf_cons, part, fault?_of_bad h, blanked]

theorem blanked_of_good {c : Char} {cs : List Char} (h : (first c cs).1.fault? = none) :
    blanked (partsOf (c :: cs)) = c :: ((first c cs).1.text.tail ++ blanked (partsOf (first c cs).2)) := by
  rw [partsOf_cons, part, h, blanked, ← List.cons_append, ← text_eq_cons]

theorem beginsAlike_blanked (cs : List Char) : BeginsAlike cs (blanked (partsOf cs)) := by
  cases cs with
  | nil =>
    rw [partsOf, segments]
    exact .inl rfl
  | cons c cs =>
    cases hkind : (first c cs).1.kind with
    | blank =>
      rw [blanked_of_good (fault?_of_blank hkind)]
      exact .inl rfl
    | token kind =>
      rw [blanked_of_good (fault?_of_token hkind)]
      exact .inl rfl
    | bad fault =>
      have hmem : '\n' ∉ (first c cs).1.text := lineFeed_not_mem_of_bad hkind
      rw [text_eq_cons] at hmem
      rw [blanked_of_bad hkind, text_eq_cons, List.length_cons, List.replicate_succ]
      refine .inr ⟨rfl, c, rfl, ?_⟩
      rintro rfl
      exact hmem List.mem_cons_self

theorem segments_blanked {c : Char} {cs : List Char} (h : (first c cs).1.fault? = none) :
    segments (blanked (partsOf (c :: cs))) = (first c cs).1 :: segments (blanked (partsOf (first c cs).2)) := by
  rw [blanked_of_good h]
  exact segments_of_first (first_beginsAlike c cs (beginsAlike_blanked _))

namespace Scanner

theorem scanFrom_spaces (k : Nat) (cs : List Char) (p : Position) (recent : List Token) :
    scanFrom (segments (List.replicate k ' ' ++ cs)) p recent =
      scanFrom (segments cs) (p.after (List.replicate k ' ')) recent := by
  induction k generalizing p with
  | zero => rfl
  | succ k ih =>
    rw [List.replicate_succ, List.cons_append, segments_space]
    exact ih _

theorem scanTimes_of_scan {s t : Scanner} (h : s.scan = t.scan) (n : Nat) : scanTimes (n + 1) s = scanTimes (n + 1) t := by
  rw [scanTimes, scanTimes, h]

theorem scanTimes_end (n : Nat) (p : Position) : scanTimes n ⟨[], p, []⟩ = List.replicate n (.ok [Token.endAt p]) := by
  induction n with
  | zero => rfl
  | succ n ih =>
    rw [List.replicate_succ, ← ih]
    rfl

/-- Behind a text, what is left of the source is scanned with its errors first and then as if spaces stood there. -/
def Recovers (before cs : List Char) (recent : List Token) : Prop :=
  ∃ ts, (scanFrom (segments (blanked (partsOf cs))) (place before) recent).1 = .ok ts ∧
    ∀ n, scanTimes ((errorsBehind before (partsOf cs)).length + 1 + n) ⟨segments cs, place before, recent⟩ =
      (errorsBehind before (partsOf cs)).map .error ++
        .ok ts :: List.replicate n (.ok [Token.endAt (place (before ++ cs))])

theorem recovers_nil (before : List Char) (recent : List Token) : Recovers before [] recent := by
  have hparts : partsOf [] = [] := by rw [partsOf, segments, List.map_nil]
  rw [Recovers, hparts, blanked, segments, List.append_nil]
  refine ⟨recent.reverse ++ [Token.endAt (place before)], rfl, fun n => ?_⟩
  rw [← scanTimes_end]
  exact congrArg (scanTimes · _) (Nat.add_comm _ n)

section Step

variable {before cs : List Char} {c : Char} {recent recent' : List Token}

theorem behind_first (before : List Char) (c : Char) (cs : List Char) :
    before ++ (c :: cs) = before ++ (first c cs).1.text ++ (first c cs).2 := by
  rw [List.append_assoc, first_append]

/-- What is good is read over in both texts, and adds the same to the tokens. -/
theorem Recovers.good (h : Recovers (before ++ (first c cs).1.text) (first c cs).2 recent')
    (hfault : (first c cs).1.fault? = none)
    (hscan : ∀ pending, scanFrom ((first c cs).1 :: pending) (place before) recent =
      scanFrom pending (place (before ++ (first c cs).1.text)) recent') : Recovers before (c :: cs) recent := by
  obtain ⟨ts, hts, htimes⟩ := h
  have herrors : errorsBehind before (partsOf (c :: cs)) =
      errorsBehind (before ++ (first c cs).1.text) (partsOf (first c cs).2) := by
    rw [partsOf_cons, part, hfault, errorsBehind]
  have hsame : scan ⟨segments (c :: cs), place before, recent⟩ =
      scan ⟨segments (first c cs).2, place (before ++ (first c cs).1.text), recent'⟩ := by
    rw [scan, segments, hscan]
    rfl
  refine ⟨ts, ?_, fun n => ?_⟩
  · rw [segments_blanked hfault, hscan]
    exact hts
  · rw [herrors, behind_first, ← htimes n, Nat.add_right_comm]
    exact scanTimes_of_scan hsame _

theorem Recovers.bad {fault : LexicalFault} (h : Recovers (before ++ (first c cs).1.text) (first c cs).2 recent)
    (hkind : (first c cs).1.kind = .bad fault) : Recovers before (c :: cs) recent := by
  obtain ⟨ts, hts, htimes⟩ := h
  have herrors : errorsBehind before (partsOf (c :: cs)) =
      ⟨fault, place before⟩ :: errorsBehind (before ++ (first c cs).1.text) (partsOf (first c cs).2) := by
    rw [partsOf_cons, part, fault?_of_bad hkind, errorsBehind]
  have hspaces : (place before).after (List.replicate (first c cs).1.text.length ' ') =
      place (before ++ (first c cs).1.text) := by
    rw [place_append, Position.after_of_not_mem (lineFeed_not_mem_of_bad hkind),
      Position.after_of_not_mem (by simp), List.length_replicate]
  have hscan : scan ⟨segments (c :: cs), place before, recent⟩ = (.error ⟨fault, place before⟩,
      ⟨segments (first c cs).2, place (before ++ (first c cs).1.text), recent⟩) := by
    rw [scan, segments, scanFrom, hkind, place_append]
  refine ⟨ts, ?_, fun n => ?_⟩
  · rw [blanked_of_bad hkind, scanFrom_spaces, hspaces]
    exact hts
  · rw [herrors, behind_first, List.length_cons, List.map_cons, List.cons_append, ← htimes n,
      Nat.add_right_comm _ 1 1, Nat.add_right_comm _ 1 n, scanTimes, hscan]

end Step

theorem recovers (before cs : List Char) (recent : List Token) : Recovers before cs recent := by
  induction cs using segments.induct generalizing before recent with
  | case1 => exact recovers_nil before recent
  | case2 c cs ih =>
    cases hkind : (first c cs).1.kind with
    | blank =>
      apply (ih _ recent).good (fault?_of_blank hkind)
      intro pending
      rw [scanFrom, hkind, place_append]
    | token kind =>
      apply (ih _ (⟨kind, String.ofList (first c cs).1.text, place before⟩ :: recent)).good (fault?_of_token hkind)
      intro pending
      rw [scanFrom, hkind, place_append]
    | bad fault => exact (ih _ recent).bad hkind

end Scanner

end Blanks

/-- Asked again and again, a scanner reports what is bad in the source, each part once and in order, where it stands;
then it gives the tokens of the source with spaces in place of all that is bad, and from then on only the end. -/
theorem scanner_recovers (source : String) :
    ∃ parts, (∀ other, Parted source.toList other ↔ other = parts) ∧
      ∃ ts, tokenize (String.ofList (blanked parts)) = .ok ts ∧
        ∀ n, (Scanner.ofSource source).scanTimes ((errorsBehind [] parts).length + 1 + n) =
          (errorsBehind [] parts).map .error ++
            .ok ts :: List.replicate n (.ok [⟨.endOfText, "", place source.toList⟩]) := by
  obtain ⟨ts, hts, htimes⟩ := Scanner.recovers [] source.toList []
  refine ⟨partsOf source.toList, fun other => ⟨eq_partsOf_of_parted, ?_⟩, ts, ?_, htimes⟩
  · rintro rfl
    exact parted_partsOf source.toList
  · rw [tokenize, Scanner.scan, Scanner.ofSource, String.toList_ofList]
    exact hts

end IntScript
