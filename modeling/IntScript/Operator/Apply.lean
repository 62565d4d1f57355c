import IntScript.Attempt
import IntScript.Error

set_option autoImplicit false

namespace IntScript.BinaryOp

def combine (op : BinaryOp) (a b : Value) : Except EvalError Value :=
  match op with
  | .or | .and => .ok b
  | .eq => .ok (Value.ofBool (a == b))
  | .notEq => .ok (Value.ofBool (a != b))
  | .lt => .ok (Value.ofBool (decide (a < b)))
  | .ltEq => .ok (Value.ofBool (decide (a ≤ b)))
  | .gt => .ok (Value.ofBool (decide (b < a)))
  | .gtEq => .ok (Value.ofBool (decide (b ≤ a)))
  | .mul => .ok (a * b)
  | .div => if b = 0 then .error (.arithmeticFailure .div a b) else .ok (a / b)
  | .mod => if b = 0 then .error (.arithmeticFailure .mod a b) else .ok (a % b)
  | .add => .ok (a + b)
  | .sub => .ok (a - b)

def decidedBy (op : BinaryOp) (a : Value) : Bool :=
  match op with
  | .or => Value.isTruthy a
  | .and => !Value.isTruthy a
  | _ => false

/-- The right operand is evaluated at most once, and not at all if the left one decides. -/
def apply {σ : Type} (op : BinaryOp) (a : Value) (right : Attempt EvalError σ Value) :
    Attempt EvalError σ Value :=
  if op.decidedBy a then
    pure a
  else do
    let b ← right
    .ofExcept (op.combine a b)

end IntScript.BinaryOp
