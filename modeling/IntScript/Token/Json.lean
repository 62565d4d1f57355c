import IntScript.Json
import IntScript.Token
import IntScript.Value

set_option autoImplicit false

namespace IntScript.TokenKind

def toJson : TokenKind → Json
  | .integer i => .tagged "Integer" (.integer i)
  | .identifier x => .tagged "Identifier" (.string x)
  | kind => .string kind.text

def ofJson? : Json → Option TokenKind
  | .object [("Integer", .integer i)] => (Value.ofInt? i).map fun v => integer v.toInt
  | .object [("Identifier", .string x)] => some (.identifier x)
  | j => do
    let tag ← j.unitTag?
    plain.find? (·.text == tag)

end IntScript.TokenKind
