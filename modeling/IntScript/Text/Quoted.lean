import IntScript.Text.Unprintable

set_option autoImplicit false

namespace IntScript.Text

def hexDigits (n : Nat) : List Char := Nat.toDigits 16 n

/-- Quote, backslash and what is not shown are escaped; all else, the apostrophe included, stands as it is. -/
def escapeChar : Char → List Char
  | '"' => ['\\', '"']
  | '\\' => ['\\', '\\']
  | '\n' => ['\\', 'n']
  | '\r' => ['\\', 'r']
  | '\t' => ['\\', 't']
  | '\x00' => ['\\', '0']
  | c => if isUnprintable c then ['\\', 'u', '\x7b'] ++ hexDigits c.toNat ++ ['\x7d'] else [c]

def quote (s : String) : String := String.ofList ('"' :: s.toList.flatMap escapeChar ++ ['"'])

end IntScript.Text
