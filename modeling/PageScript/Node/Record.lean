import PageScript.Json
import PageScript.Node
import PageScript.Token

/-!
Tokens and trees as plain data, each with the name of its kind.
-/
namespace PageScript

/-- A token as data. -/
def Token.record (t : Token) : Json :=
  .object [("type", .string t.kind.label), ("value", .string t.text), ("line", .int t.line),
    ("column", .int t.column)]

/-- A literal as data. -/
def Literal.record : Literal → Json
  | .null => .null
  | .bool value => .bool value
  | .number value => .number value
  | .string value => .string value

/-- The literal that data is; lists and objects are none. -/
def Literal.ofRecord? : Json → Option Literal
  | .null => some .null
  | .bool value => some (.bool value)
  | .number value => some (.number value)
  | .string value => some (.string value)
  | .array _ | .object _ => none

@[simp] theorem Literal.ofRecord?_record (l : Literal) : ofRecord? l.record = some l := by
  cases l <;> rfl

namespace Node

/-- The record of a node from its parts. -/
def recordOf (kind : String) (parts : List (String × Json)) (line : Int) : Json :=
  .object (("type", .string kind) :: parts ++ [("line", .int line)])

mutual

/-- A tree as data; `literal` says how the values of literals are written. -/
def record (literal : Literal → Json) : Node → Json
  | .program body line => recordOf "Program" [("body", .array (recordAll literal body))] line
  | .binding name value line =>
    recordOf "Let" [("name", .string name), ("value", record literal value)] line
  | .function name params body line =>
    recordOf "Function"
      [("name", .string name), ("params", .array (params.map .string)),
       ("body", record literal body)] line
  | .branch condition thenPart elsePart line =>
    recordOf "If"
      [("condition", record literal condition), ("then_branch", record literal thenPart),
       ("else_branch", recordOption literal elsePart)] line
  | .forEach item source body line =>
    recordOf "For"
      [("variable", .string item), ("iterable", record literal source),
       ("body", record literal body)] line
  | .whileLoop condition body line =>
    recordOf "While" [("condition", record literal condition), ("body", record literal body)] line
  | .returning value line => recordOf "Return" [("value", recordOption literal value)] line
  | .block statements line =>
    recordOf "Block" [("statements", .array (recordAll literal statements))] line
  | .binary operator left right line =>
    recordOf "BinaryExpr"
      [("operator", .string operator), ("left", record literal left),
       ("right", record literal right)] line
  | .unary operator operand line =>
    recordOf "UnaryExpr" [("operator", .string operator), ("operand", record literal operand)] line
  | .call callee args line =>
    recordOf "Call"
      [("callee", record literal callee), ("args", .array (recordAll literal args))] line
  | .identifier name line => recordOf "Identifier" [("name", .string name)] line
  | .literal value line => recordOf "Literal" [("value", literal value)] line
  | .array elements line =>
    recordOf "Array" [("elements", .array (recordAll literal elements))] line
  | .object properties line =>
    recordOf "Object" [("properties", .array (recordProperties literal properties))] line
  | .template name line => recordOf "Template" [("variable", .string name)] line

def recordOption (literal : Literal → Json) : Option Node → Json
  | none => .null
  | some node => record literal node

def recordAll (literal : Literal → Json) : List Node → List Json
  | [] => []
  | node :: rest => record literal node :: recordAll literal rest

def recordProperties (literal : Literal → Json) : List (String × Node) → List Json
  | [] => []
  | (key, value) :: rest =>
    .array [.string key, record literal value] :: recordProperties literal rest

end

end Node

/-- A program as data. -/
def Program.record (literal : Literal → Json) (program : Program) : Json :=
  Node.record literal (.program program.body 1)

end PageScript
