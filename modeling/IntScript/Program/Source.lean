import IntScript.Program.ParseFuel
import IntScript.Token.Scanner

set_option autoImplicit false

namespace IntScript

def parseTokens (ts : List Token) : Except SyntaxError Block × List Token :=
  match h : Parse.program (Parse.enough ts) ts with
  | (outcome, rest) =>
    (outcome.toExcept fun h' => (Parse.ends_program ts).1 ((congrArg Prod.fst h).trans h'), rest)

/-- The answers to a number of requests, each going on where the one before it stopped. -/
def parseTimes : Nat → List Token → List (Except SyntaxError Block)
  | 0, _ => []
  | n + 1, ts =>
    match parseTokens ts with
    | (answer, rest) => answer :: parseTimes n rest

def parseProgram (source : String) : Except Error Block :=
  match tokenize source with
  | .error e => .error (.lexical e)
  | .ok ts =>
    match (parseTokens ts).1 with
    | .error e => .error (.syntactic e)
    | .ok program => .ok program

end IntScript
