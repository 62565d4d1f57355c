import IntScript.Text.Decimal

set_option autoImplicit false

namespace IntScript

inductive Json where
  | null
  | bool (value : Bool)
  | integer (value : Int)
  | decimal (mantissa : Int) (places : Nat)
  | string (value : String)
  | array (items : List Json)
  | object (fields : List (String × Json))
  deriving Repr

namespace Json

def tagged (tag : String) (body : Json) : Json := .object [(tag, body)]

mutual

def depth : Json → Nat
  | .array items => depthItems items + 1
  | .object fields => depthFields fields + 1
  | _ => 0

def depthItems : List Json → Nat
  | [] => 0
  | j :: js => max (depth j) (depthItems js)

def depthFields : List (String × Json) → Nat
  | [] => 0
  | (_, j) :: fs => max (depth j) (depthFields fs)

end

def field? (key : String) : Json → Option Json
  | .object fields => fields.lookup key
  | _ => none

def string? : Json → Option String
  | .string s => some s
  | _ => none

def integer? : Json → Option Int
  | .integer i => some i
  | _ => none

def array? : Json → Option (List Json)
  | .array items => some items
  | _ => none

/-- A field that may be missing or null. -/
def optional {α : Type} (key : String) (read : Json → Option α) (j : Json) : Option (Option α) :=
  match j.field? key with
  | none => some none
  | some .null => some none
  | some field => (read field).map some

/-- A form without a body: its tag alone, or its tag with nothing in it. -/
def unitTag? : Json → Option String
  | .string tag => some tag
  | .object [(tag, .null)] => some tag
  | _ => none

end Json

end IntScript
