import IntScript.Json
import IntScript.Program

set_option autoImplicit false

namespace IntScript

namespace BinaryOp

def name : BinaryOp → String
  | .or => "Or"
  | .and => "And"
  | .eq => "Eq"
  | .notEq => "NotEq"
  | .lt => "Lt"
  | .ltEq => "LtEq"
  | .gt => "Gt"
  | .gtEq => "GtEq"
  | .mul => "Mul"
  | .div => "Div"
  | .mod => "Mod"
  | .add => "Add"
  | .sub => "Sub"

def toJson (op : BinaryOp) : Json := .string op.name

def ofJson? (j : Json) : Option BinaryOp := do
  let tag ← j.unitTag?
  all.find? (·.name == tag)

end BinaryOp

namespace Expression

mutual

def toJson : Expression → Json
  | .call x args => .tagged "Call" (.object [("name", .string x), ("args", .array (toJsonAll args))])
  | .literal v => .tagged "Literal" (.integer v.toInt)
  | .var x => .tagged "Identifier" (.string x)
  | .binary op l r =>
    .tagged "Binary" (.object [("left", toJson l), ("op", op.toJson), ("right", toJson r)])

def toJsonAll : List Expression → List Json
  | [] => []
  | e :: es => toJson e :: toJsonAll es

end

/-- Reads a tree nested no deeper than the given bound. -/
def ofJson? : Nat → Json → Option Expression
  | n + 1, .object [(tag, body)] =>
    match tag with
    | "Call" => do
      let x ← (← body.field? "name").string?
      let args ← (← body.field? "args").array?
      return .call x (← args.mapM (ofJson? n))
    | "Literal" => do
      let v ← Value.ofInt? (← body.integer?)
      return .literal v
    | "Identifier" => do
      let x ← body.string?
      return .var x
    | "Binary" => do
      let l ← ofJson? n (← body.field? "left")
      let op ← BinaryOp.ofJson? (← body.field? "op")
      let r ← ofJson? n (← body.field? "right")
      return .binary op l r
    | _ => none
  | _, _ => none

end Expression

namespace Statement

def initJson : Option Expression → Json
  | none => .null
  | some e => e.toJson

def blockJson (statements : List Json) : Json := .object [("statements", .array statements)]

mutual

def toJson : Statement → Json
  | .function f params body =>
    .tagged "FunctionDefinition" (.object [("name", .string f), ("params", .array (params.map .string)),
      ("body", blockJson (toJsonAll body))])
  | .block body => .tagged "Block" (blockJson (toJsonAll body))
  | .declare x init => .tagged "VariableDeclaration" (.object [("name", .string x), ("init", initJson init)])
  | .evaluate e => .tagged "Expression" e.toJson
  | .loop c body => .tagged "While" (.object [("condition", c.toJson), ("body", toJson body)])
  | .ifThen c s =>
    .tagged "If" (.object [("condition", c.toJson), ("then_branch", toJson s), ("else_branch", .null)])
  | .ifElse c s t =>
    .tagged "If" (.object [("condition", c.toJson), ("then_branch", toJson s), ("else_branch", toJson t)])
  | .assign x e => .tagged "Assignment" (.object [("name", .string x), ("value", e.toJson)])
  | .result e => .tagged "Return" (.object [("value", e.toJson)])

def toJsonAll : List Statement → List Json
  | [] => []
  | s :: ss => toJson s :: toJsonAll ss

end

def statements? (j : Json) : Option (List Json) := do
  (← j.field? "statements").array?

def ofJson? : Nat → Json → Option Statement
  | n + 1, .object [(tag, body)] =>
    match tag with
    | "FunctionDefinition" => do
      let f ← (← body.field? "name").string?
      let params ← (← (← body.field? "params").array?).mapM Json.string?
      let statements ← statements? (← body.field? "body")
      return .function f params (← statements.mapM (ofJson? n))
    | "Block" => do
      let statements ← statements? body
      return .block (← statements.mapM (ofJson? n))
    | "VariableDeclaration" => do
      let x ← (← body.field? "name").string?
      let init ← body.optional "init" (Expression.ofJson? n)
      return .declare x init
    | "Expression" => do
      let e ← Expression.ofJson? n body
      return .evaluate e
    | "While" => do
      let c ← Expression.ofJson? n (← body.field? "condition")
      let s ← ofJson? n (← body.field? "body")
      return .loop c s
    | "If" => do
      let c ← Expression.ofJson? n (← body.field? "condition")
      let s ← ofJson? n (← body.field? "then_branch")
      match ← body.optional "else_branch" (ofJson? n) with
      | none => return .ifThen c s
      | some t => return .ifElse c s t
    | "Assignment" => do
      let x ← (← body.field? "name").string?
      let e ← Expression.ofJson? n (← body.field? "value")
      return .assign x e
    | "Return" => do
      let e ← Expression.ofJson? n (← body.field? "value")
      return .result e
    | _ => none
  | _, _ => none

end Statement

def Json.expression? (j : Json) : Option Expression := Expression.ofJson? j.depth j

def Json.statement? (j : Json) : Option Statement := Statement.ofJson? j.depth j

def Json.block? (j : Json) : Option Block := do
  (← Statement.statements? j).mapM (Statement.ofJson? j.depth)

def Json.functionDecl? (j : Json) : Option FunctionDecl := do
  let f ← (← j.field? "name").string?
  let params ← (← (← j.field? "params").array?).mapM Json.string?
  let body ← (← j.field? "body").block?
  return ⟨f, params, body⟩

def Block.toJson (b : Block) : Json := Statement.blockJson (Statement.toJsonAll b)

end IntScript
