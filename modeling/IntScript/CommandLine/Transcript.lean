set_option autoImplicit false

namespace IntScript.CommandLine

structure Transcript where
  stdout : String
  stderr : String
  code : Nat
  deriving DecidableEq, Repr

def indented (text : String) : String :=
  String.ofList ("    ".toList ++
    text.toList.flatMap fun c => if c = '\n' then '\n' :: "    ".toList else [c])

def errorReport (message : String) (cause : Option String) : String :=
  match cause with
  | none => "Error: " ++ message ++ "\n"
  | some text => "Error: " ++ message ++ "\n\nCaused by:\n" ++ indented text ++ "\n"

end IntScript.CommandLine
