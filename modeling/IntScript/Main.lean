import IntScript.CommandLine.Repl
import IntScript.CommandLine.Script

set_option autoImplicit false

namespace IntScript.CommandLine

/-- More steps than any run can take. -/
def fuel : Nat := 0x4000000000000000

def readLimits : IO Limits := do
  let iterations ← IO.getEnv "FUNLANG_MAX_ITERATIONS"
  let callDepth ← IO.getEnv "FUNLANG_MAX_CALL_DEPTH"
  return .ofEnvironment fun name =>
    if name = "FUNLANG_MAX_ITERATIONS" then iterations
    else if name = "FUNLANG_MAX_CALL_DEPTH" then callDepth
    else none

def readFile (path : String) : IO (Except String String) := do
  try
    return .ok (← IO.FS.readFile path)
  catch
    | .noFileOrDirectory .. => return .error Script.noSuchFile
    | e => return .error (toString e)

def emit (t : Transcript) : IO UInt32 := do
  IO.print t.stdout
  IO.eprint t.stderr
  return t.code.toUInt32

def script (args : List String) : IO UInt32 := do
  let limits ← readLimits
  let content ← match args with
    | [] => pure (.error "")
    | path :: _ => readFile path
  match Script.run fuel limits (fun _ => content) args with
  | some t => emit t
  | none => return 1

def interact : Nat → Repl.State → IO Unit
  | 0, _ => pure ()
  | n + 1, s => do
    IO.print (Repl.prompt s.number)
    (← IO.getStdout).flush
    let line ← (← IO.getStdin).getLine
    if line.isEmpty then
      return
    match Repl.reply fuel s (.ofLine line.toList) with
    | none => return
    | some r =>
      IO.print r.stdout
      IO.eprint r.stderr
      match r.next with
      | none => return
      | some t => interact n t

def repl : IO UInt32 := do
  let limits ← readLimits
  IO.print Repl.greeting
  interact fuel (.initial limits)
  return 0

end IntScript.CommandLine

def main (args : List String) : IO UInt32 :=
  if args = ["--repl"] then IntScript.CommandLine.repl else IntScript.CommandLine.script args
