import IntScript.Json

set_option autoImplicit false

namespace IntScript.Json

def hexDigit (n : Nat) : Char := Nat.digitChar (n % 16)

def escapeChar : Char → List Char
  | '"' => ['\\', '"']
  | '\\' => ['\\', '\\']
  | '\x08' => ['\\', 'b']
  | '\x0c' => ['\\', 'f']
  | '\n' => ['\\', 'n']
  | '\r' => ['\\', 'r']
  | '\t' => ['\\', 't']
  | c =>
    if c.toNat < 0x20 then ['\\', 'u', '0', '0', hexDigit (c.toNat / 16), hexDigit c.toNat] else [c]

def quoted (s : String) : List Char := '"' :: s.toList.flatMap escapeChar ++ ['"']

def decimalChars (mantissa : Int) (places : Nat) : List Char :=
  let digits := Decimal.digits mantissa.natAbs
  let padded := List.replicate (places + 1 - digits.length) '0' ++ digits
  let whole := padded.take (padded.length - places)
  let fraction := padded.drop (padded.length - places)
  (if mantissa < 0 then ['-'] else []) ++ whole ++ (if places = 0 then [] else '.' :: fraction)

def indent (level : Nat) : List Char := List.replicate (2 * level) ' '

mutual

def prettyChars (level : Nat) : Json → List Char
  | .null => "null".toList
  | .bool true => "true".toList
  | .bool false => "false".toList
  | .integer i => Decimal.signed i
  | .decimal mantissa places => decimalChars mantissa places
  | .string s => quoted s
  | .array [] => ['[', ']']
  | .array (j :: js) =>
    "[\n".toList ++ indent (level + 1) ++ prettyChars (level + 1) j ++ prettyItems (level + 1) js ++
      '\n' :: indent level ++ [']']
  | .object [] => ['\x7b', '\x7d']
  | .object ((key, j) :: fs) =>
    "\x7b\n".toList ++ indent (level + 1) ++ quoted key ++ [':', ' '] ++ prettyChars (level + 1) j ++
      prettyFields (level + 1) fs ++ '\n' :: indent level ++ ['\x7d']

def prettyItems (level : Nat) : List Json → List Char
  | [] => []
  | j :: js => ",\n".toList ++ indent level ++ prettyChars level j ++ prettyItems level js

def prettyFields (level : Nat) : List (String × Json) → List Char
  | [] => []
  | (key, j) :: fs =>
    ",\n".toList ++ indent level ++ quoted key ++ [':', ' '] ++ prettyChars level j ++ prettyFields level fs

end

def pretty (j : Json) : String := String.ofList (prettyChars 0 j)

end IntScript.Json
