import IntScript.Token.Segment

set_option autoImplicit false

namespace IntScript

/-- At a bad segment a scanner stops behind it and keeps its tokens, so the next request goes on from there. -/
structure Scanner where
  pending : List Segment
  position : Position
  /-- Newest first. -/
  recent : List Token
  deriving DecidableEq, Repr

namespace Scanner

def ofSource (source : String) : Scanner := ⟨segments source.toList, .start, []⟩

def scanFrom : List Segment → Position → List Token → Except LexicalError (List Token) × Scanner
  | [], p, recent => (.ok (recent.reverse ++ [Token.endAt p]), ⟨[], p, []⟩)
  | s :: pending, p, recent =>
    match s.kind with
    | .blank => scanFrom pending (p.after s.text) recent
    | .token kind => scanFrom pending (p.after s.text) (⟨kind, String.ofList s.text, p⟩ :: recent)
    | .bad fault => (.error ⟨fault, p⟩, ⟨pending, p.after s.text, recent⟩)

def scan (s : Scanner) : Except LexicalError (List Token) × Scanner :=
  scanFrom s.pending s.position s.recent

def scanTimes : Nat → Scanner → List (Except LexicalError (List Token))
  | 0, _ => []
  | n + 1, s =>
    match s.scan with
    | (answer, rest) => answer :: scanTimes n rest

end Scanner

def tokenize (source : String) : Except LexicalError (List Token) := (Scanner.ofSource source).scan.1

end IntScript
