import PageScript.Literal

/-!
Syntax trees. There is one type for statements and expressions: what may stand where is a matter of
the reader that builds trees, and the evaluator refuses a statement in the place of an expression.
-/
namespace PageScript

/-- A statement or an expression, with the line that it is reported under. -/
inductive Node where
  | program (body : List Node) (line : Int)
  | binding (name : String) (value : Node) (line : Int)
  | function (name : String) (params : List String) (body : Node) (line : Int)
  | branch (condition thenPart : Node) (elsePart : Option Node) (line : Int)
  | forEach (item : String) (source body : Node) (line : Int)
  | whileLoop (condition body : Node) (line : Int)
  | returning (value : Option Node) (line : Int)
  | block (statements : List Node) (line : Int)
  | binary (operator : String) (left right : Node) (line : Int)
  | unary (operator : String) (operand : Node) (line : Int)
  | call (callee : Node) (args : List Node) (line : Int)
  | identifier (name : String) (line : Int)
  | literal (value : Literal) (line : Int)
  | array (elements : List Node) (line : Int)
  | object (properties : List (String × Node)) (line : Int)
  | template (name : String) (line : Int)
deriving Inhabited

namespace Node

def line : Node → Int
  | program _ line | binding _ _ line | function _ _ _ line | branch _ _ _ line
  | forEach _ _ _ line | whileLoop _ _ line | returning _ line | block _ line
  | binary _ _ _ line | unary _ _ line | call _ _ line | identifier _ line | literal _ line
  | array _ line | object _ line | template _ line => line

/-- The name under which a kind of node is shown. -/
def kind : Node → String
  | program .. => "Program"
  | binding .. => "Let"
  | function .. => "Function"
  | branch .. => "If"
  | forEach .. => "For"
  | whileLoop .. => "While"
  | returning .. => "Return"
  | block .. => "Block"
  | binary .. => "BinaryExpr"
  | unary .. => "UnaryExpr"
  | call .. => "Call"
  | identifier .. => "Identifier"
  | literal .. => "Literal"
  | array .. => "Array"
  | object .. => "Object"
  | template .. => "Template"

end Node

/-- A whole program: its statements at the top level. -/
structure Program where
  body : List Node

end PageScript
