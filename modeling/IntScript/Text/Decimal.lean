set_option autoImplicit false

namespace IntScript.Decimal

def value (digits : List Char) : Nat := digits.foldl (fun n c => 10 * n + (c.toNat - 48)) 0

def digits (n : Nat) : List Char := Nat.toDigits 10 n

def text (n : Nat) : String := String.ofList (digits n)

def signed (i : Int) : List Char := if i < 0 then '-' :: digits i.natAbs else digits i.natAbs

def natural? (cs : List Char) : Option Nat :=
  if cs.isEmpty || !cs.all Char.isDigit then none else some (value cs)

/-- Reads an unsigned 64-bit number: one plus sign may stand before the digits. -/
def word? (cs : List Char) : Option Nat :=
  let digits := match cs with
    | '+' :: rest => rest
    | _ => cs
  (natural? digits).filter (· < 0x10000000000000000)

end IntScript.Decimal
