import IntScript.CommandLine.Transcript
import IntScript.Interpreter

set_option autoImplicit false

namespace IntScript.CommandLine.Repl

def greeting : String :=
  "funlang REPL v0.1.0\nType 'exit' to quit, 'help' for examples.\n\n"

def prompt (number : Nat) : String := "fun[" ++ Decimal.text number ++ "]> "

def help : String :=
  "\nExamples:\n" ++
  "  var x = 10\n" ++
  "  x = x * 2 println(x)\n" ++
  "  fun sq(n) \x7b return n * n \x7d\n" ++
  "  println(sq(x), sq(3))\n" ++
  "  return sq(4)              // shows => 16\n" ++
  "\nCommands: help, clear, exit\n\n"

inductive Command where
  | skip
  | leave
  | help
  | clear
  | run (source : String)
  deriving DecidableEq, Repr

/-- Blanks around a line do not count. -/
def Command.ofLine (line : List Char) : Command :=
  match String.ofList (Text.trim line) with
  | "" => .skip
  | "exit" => .leave
  | "quit" => .leave
  | "help" => .help
  | "clear" => .clear
  | source => .run source

structure State where
  interpreter : Interpreter
  number : Nat

def State.initial (limits : Limits) : State := ⟨.ofRegistry .standard limits, 1⟩

/-- What follows a line on the two streams, and the state behind it unless the program is left. -/
structure Reply where
  stdout : String
  stderr : String
  next : Option State

def runReply (number : Nat) : Outcome Error Signal × Interpreter → Option Reply
  | (outcome, i) =>
    match i.flush with
    | (events, j) =>
      match outcome with
      | .done none => some ⟨Event.printed events, "", some ⟨j, number + 1⟩⟩
      | .done (some v) =>
        some ⟨Event.printed events ++ "  => " ++ Value.text v ++ "\n", "", some ⟨j, number + 1⟩⟩
      | .failed e =>
        some ⟨Event.printed events, "  error: " ++ e.message ++ "\n", some ⟨j, number + 1⟩⟩
      | .outOfFuel => none

def reply (fuel : Nat) (s : State) : Command → Option Reply
  | .skip => some ⟨"", "", some s⟩
  | .leave => some ⟨"", "", none⟩
  | .help => some ⟨Repl.help, "", some s⟩
  | .clear => some ⟨"Environment cleared.\n", "", some ⟨s.interpreter.reset, s.number⟩⟩
  | .run source => runReply s.number (Interpreter.run fuel source s.interpreter)

def feed (fuel : Nat) : State → List (List Char) → Option Transcript
  | s, [] => some ⟨prompt s.number, "", 0⟩
  | s, line :: rest => do
    let r ← reply fuel s (Command.ofLine line)
    match r.next with
    | none => return ⟨prompt s.number ++ r.stdout, r.stderr, 0⟩
    | some t =>
      let later ← feed fuel t rest
      return ⟨prompt s.number ++ r.stdout ++ later.stdout, r.stderr ++ later.stderr, later.code⟩

def run (fuel : Nat) (limits : Limits) (input : String) : Option Transcript := do
  let t ← feed fuel (.initial limits) (Text.lines input.toList)
  return ⟨greeting ++ t.stdout, t.stderr, t.code⟩

end IntScript.CommandLine.Repl
