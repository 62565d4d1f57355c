import IntScript.Text.Decimal

set_option autoImplicit false

namespace IntScript

abbrev Value := Int64

namespace Value

def isTruthy (v : Value) : Bool := v != 0

def ofBool (b : Bool) : Value := if b then 1 else 0

def ofInt? (i : Int) : Option Value :=
  if -0x8000000000000000 ≤ i && i < 0x8000000000000000 then some (Int64.ofInt i) else none

theorem ofInt?_toInt (v : Value) : ofInt? v.toInt = some v := by
  have hlow := Int64.le_toInt v
  have hhigh := Int64.toInt_lt v
  have hrange : (-0x8000000000000000 ≤ v.toInt && v.toInt < 0x8000000000000000) = true := by
    simp only [Bool.and_eq_true, decide_eq_true_eq]
    omega
  rw [ofInt?, if_pos hrange, Int64.ofInt_toInt]

def chars (v : Value) : List Char := Decimal.signed v.toInt

def text (v : Value) : String := String.ofList (chars v)

def lineChars (values : List Value) : List Char := List.intercalate [' '] (values.map chars)

def lineText (values : List Value) : String := String.ofList (lineChars values)

end Value

end IntScript
