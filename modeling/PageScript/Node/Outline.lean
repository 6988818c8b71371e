import PageScript.Node

/-!
A tree as an outline: one line for every node, indented by its depth, and no closing marks.
-/
namespace PageScript

/-- A line of an outline and how deep it stands. -/
structure OutlineLine where
  depth : Nat
  text : String
deriving DecidableEq

/-- The line with its indentation and its end. -/
def OutlineLine.render (line : OutlineLine) : String :=
  String.ofList (List.replicate (2 * line.depth) ' ') ++ line.text ++ "\n"

namespace Node

mutual

/-- The lines of a node at a depth. A program inside a program has none. -/
def outline (depth : Nat) : Node → List OutlineLine
  | .program .. => []
  | .binding name value _ => ⟨depth, "Let " ++ name⟩ :: outline (depth + 1) value
  | .function name params body _ =>
    ⟨depth, "Function " ++ name ++ "(" ++ ", ".intercalate params ++ ")"⟩
      :: outline (depth + 1) body
  | .branch condition thenPart elsePart _ =>
    ⟨depth, "If"⟩ :: outline (depth + 1) condition ++ outline (depth + 1) thenPart
      ++ outlineElse depth elsePart
  | .forEach item source body _ =>
    ⟨depth, "For " ++ item⟩ :: outline (depth + 1) source ++ outline (depth + 1) body
  | .whileLoop condition body _ =>
    ⟨depth, "While"⟩ :: outline (depth + 1) condition ++ outline (depth + 1) body
  | .returning value _ => ⟨depth, "Return"⟩ :: outlineValue (depth + 1) value
  | .block statements _ => ⟨depth, "Block"⟩ :: outlineAll (depth + 1) statements
  | .binary operator left right _ =>
    ⟨depth, "BinaryExpr " ++ operator⟩ :: outline (depth + 1) left ++ outline (depth + 1) right
  | .unary operator operand _ =>
    ⟨depth, "UnaryExpr " ++ operator⟩ :: outline (depth + 1) operand
  | .call callee args _ =>
    ⟨depth, "Call"⟩ :: outline (depth + 1) callee ++ outlineAll (depth + 1) args
  | .identifier name _ => [⟨depth, "Identifier " ++ name⟩]
  | .literal value _ => [⟨depth, "Literal " ++ value.inline⟩]
  | .array elements _ => ⟨depth, "Array"⟩ :: outlineAll (depth + 1) elements
  | .object properties _ => ⟨depth, "Object"⟩ :: outlineProperties (depth + 1) properties
  | .template name _ => [⟨depth, "Template " ++ name⟩]

def outlineElse (depth : Nat) : Option Node → List OutlineLine
  | none => []
  | some node => ⟨depth, "Else"⟩ :: outline (depth + 1) node

def outlineValue (depth : Nat) : Option Node → List OutlineLine
  | none => []
  | some node => outline depth node

def outlineAll (depth : Nat) : List Node → List OutlineLine
  | [] => []
  | node :: rest => outline depth node ++ outlineAll depth rest

def outlineProperties (depth : Nat) : List (String × Node) → List OutlineLine
  | [] => []
  | (key, value) :: rest =>
    ⟨depth, key ++ ":"⟩ :: outline (depth + 1) value ++ outlineProperties depth rest

end

end Node

/-- The outline of a program. -/
def Program.outline (program : Program) : String :=
  String.join ((⟨0, "Program"⟩ :: Node.outlineAll 1 program.body).map OutlineLine.render)

/-! ### Literals without a text -/

namespace Node

mutual

/-- Whether every integer literal of a tree can be written. -/
def fitsText : Node → Bool
  | .literal (.number (.integer n)) _ => Number.fitsText n
  | .program .. | .literal .. | .identifier .. | .template .. => true
  | .binding _ value _ | .unary _ value _ | .function _ _ value _ => fitsText value
  | .branch condition thenPart elsePart _ =>
    fitsText condition && fitsText thenPart && optionFitsText elsePart
  | .forEach _ source body _ => fitsText source && fitsText body
  | .whileLoop condition body _ => fitsText condition && fitsText body
  | .returning value _ => optionFitsText value
  | .binary _ left right _ => fitsText left && fitsText right
  | .call callee args _ => fitsText callee && allFitText args
  | .block nodes _ | .array nodes _ => allFitText nodes
  | .object properties _ => propertiesFitText properties

def optionFitsText : Option Node → Bool
  | none => true
  | some node => fitsText node

def allFitText : List Node → Bool
  | [] => true
  | node :: rest => fitsText node && allFitText rest

def propertiesFitText : List (String × Node) → Bool
  | [] => true
  | (_, value) :: rest => fitsText value && propertiesFitText rest

end

end Node

/-- The outline of a program, if all its literals can be written. -/
def Program.outline? (program : Program) : Option String :=
  if Node.allFitText program.body then some program.outline else none

end PageScript
