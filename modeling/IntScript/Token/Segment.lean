import IntScript.Error

set_option autoImplicit false

/-! # Segments of a source

A source is cut from left to right, always taking the longest segment: a blank, a comment, a run of digits, a
word, or a fixed sign. Where none of these begins, the one character is a bad segment; so is a run of digits out
of range. No character is lost: the segments of a source, put together, are the source. -/

namespace IntScript

inductive SegmentKind where
  | blank
  | token (kind : TokenKind)
  | bad (fault : LexicalFault)
  deriving DecidableEq, Repr

structure Segment where
  text : List Char
  kind : SegmentKind
  deriving DecidableEq, Repr

namespace Segment

def isBlank (c : Char) : Bool := c == ' ' || c == '\t' || c == '\r' || c == '\n'

def isWordStart (c : Char) : Bool := c.isAlpha || c == '_'

def isWordChar (c : Char) : Bool := c.isAlphanum || c == '_'

def pair? : Char → Char → Option TokenKind
  | '=', '=' => some (.operator .eq)
  | '!', '=' => some (.operator .notEq)
  | '<', '=' => some (.operator .ltEq)
  | '>', '=' => some (.operator .gtEq)
  | '&', '&' => some (.operator .and)
  | '|', '|' => some (.operator .or)
  | _, _ => none

def single? : Char → Option TokenKind
  | '(' => some .leftParen
  | ')' => some .rightParen
  | '\x7b' => some .leftBrace
  | '\x7d' => some .rightBrace
  | ',' => some .comma
  | '=' => some .assign
  | '+' => some (.operator .add)
  | '-' => some (.operator .sub)
  | '*' => some (.operator .mul)
  | '/' => some (.operator .div)
  | '%' => some (.operator .mod)
  | '<' => some (.operator .lt)
  | '>' => some (.operator .gt)
  | _ => none

/-- Integer literals go up to the largest value. -/
def ofDigits (digits : List Char) : Segment :=
  if Decimal.value digits < 0x8000000000000000 then
    ⟨digits, .token (.integer (Decimal.value digits))⟩
  else
    ⟨digits, .bad (.integerTooLarge digits)⟩

def ofWord (word : List Char) : Segment := ⟨word, .token (.ofWord (String.ofList word))⟩

def ofChar (c : Char) : Segment :=
  match single? c with
  | some kind => ⟨[c], .token kind⟩
  | none => ⟨[c], .bad (.unexpected c)⟩

def inComment (c : Char) : Bool := c != '\n'

/-- The longest segment at the beginning of a text, and what is behind it. -/
def first (c : Char) (cs : List Char) : Segment × List Char :=
  if isBlank c then
    (⟨[c], .blank⟩, cs)
  else if c.isDigit then
    (ofDigits (c :: cs.takeWhile Char.isDigit), cs.dropWhile Char.isDigit)
  else if isWordStart c then
    (ofWord (c :: cs.takeWhile isWordChar), cs.dropWhile isWordChar)
  else
    match cs with
    | [] => (ofChar c, [])
    | d :: ds =>
      if c = '/' ∧ d = '/' then
        (⟨c :: d :: ds.takeWhile inComment, .blank⟩, ds.dropWhile inComment)
      else
        match pair? c d with
        | some kind => (⟨[c, d], .token kind⟩, ds)
        | none => (ofChar c, d :: ds)

@[simp] theorem ofDigits_text (digits : List Char) : (ofDigits digits).text = digits := by
  unfold ofDigits
  split <;> rfl

@[simp] theorem ofChar_text (c : Char) : (ofChar c).text = [c] := by
  unfold ofChar
  split <;> rfl

theorem first_append (c : Char) (cs : List Char) : (first c cs).1.text ++ (first c cs).2 = c :: cs := by
  unfold first
  split
  · rfl
  · split
    · simp [List.takeWhile_append_dropWhile]
    · split
      · simp [ofWord, List.takeWhile_append_dropWhile]
      · split
        · simp
        · split
          · simp [List.takeWhile_append_dropWhile]
          · split <;> simp

theorem first_text_ne_nil (c : Char) (cs : List Char) : (first c cs).1.text ≠ [] := by
  unfold first
  repeat' split
  all_goals simp [ofWord]

theorem first_rest_length (c : Char) (cs : List Char) : (first c cs).2.length < (c :: cs).length := by
  have h := congrArg List.length (first_append c cs)
  have hpos := List.length_pos_iff.2 (first_text_ne_nil c cs)
  rw [List.length_append] at h
  omega

end Segment

def segments : List Char → List Segment
  | [] => []
  | c :: cs => (Segment.first c cs).1 :: segments (Segment.first c cs).2
termination_by cs => cs.length
decreasing_by exact Segment.first_rest_length c cs

theorem segments_text (cs : List Char) : (segments cs).flatMap Segment.text = cs := by
  fun_induction segments cs with
  | case1 => rfl
  | case2 c cs ih => rw [List.flatMap_cons, ih, Segment.first_append]

end IntScript
