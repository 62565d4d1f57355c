import IntScript.CommandLine.Transcript
import IntScript.Interpreter
import IntScript.Json.Pretty
import IntScript.Program.Json

set_option autoImplicit false

namespace IntScript.CommandLine.Script

def usage : String :=
  "Usage: cargo run --example run_file <script.fun> [--ast]\n" ++
  "\nExample scripts in demos/:\n" ++
  "  - fibonacci.fun\n" ++
  "  - closures.fun\n" ++
  "  - short_circuit.fun\n"

def noSuchFile : String := "No such file or directory (os error 2)"

/-- Whether the tree is to be shown; otherwise the option that is not known. -/
def showsTree : List String → Except String Bool
  | [] => .ok false
  | option :: _ => if option = "--ast" then .ok true else .error option

def quotedPath (path : String) : String := "'" ++ path ++ "'"

def execution (path : String) : Outcome EvalError Signal × Interpreter → Option Transcript
  | (.done none, i) => some ⟨Event.printed i.flush.1, "", 0⟩
  | (.done (some v), i) => some ⟨Event.printed i.flush.1, "returned " ++ Value.text v ++ "\n", 0⟩
  | (.failed e, i) =>
    some ⟨Event.printed i.flush.1,
      errorReport ("Execution of " ++ quotedPath path ++ " aborted") (some e.message), 1⟩
  | (.outOfFuel, _) => none

def source (fuel : Nat) (limits : Limits) (showTree : Bool) (path : String) :
    Except String String → Option Transcript
  | .error cause => some ⟨"", errorReport ("Error reading file " ++ quotedPath path) (some cause), 1⟩
  | .ok text =>
    match parseProgram text with
    | .error e => some ⟨"", errorReport ("Failed to parse " ++ quotedPath path) (some e.message), 1⟩
    | .ok program =>
      if showTree then
        some ⟨(Block.toJson program).pretty ++ "\n", "", 0⟩
      else
        execution path (Interpreter.execute fuel program (.ofRegistry .standard limits))

/-- The whole program, as far as it ends within the fuel. -/
def run (fuel : Nat) (limits : Limits) (readFile : String → Except String String) :
    List String → Option Transcript
  | [] => some ⟨"", usage, 1⟩
  | path :: options =>
    match showsTree options with
    | .error option => some ⟨"", errorReport ("unknown option " ++ quotedPath option) none, 1⟩
    | .ok showTree => source fuel limits showTree path (readFile path)

end IntScript.CommandLine.Script
