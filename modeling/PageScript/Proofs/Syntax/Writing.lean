import PageScript.Node.Reader
import PageScript.Proofs.Lexing.Rendering

/-!
Writing expressions: a tree as the tokens it may be written with, in parentheses only where an
operator would take its operand from another, and as a source text with a blank between tokens.
-/
namespace PageScript
namespace Node

/-- The operators between two operands, with the kinds of their signs. -/
def binaryOperators : List (String × TokenKind) :=
  [("or", .orOp), ("and", .andOp), ("==", .equal), ("!=", .notEqual), ("<", .less),
   (">", .greater), ("<=", .lessEqual), (">=", .greaterEqual), ("+", .plus), ("-", .minus),
   ("*", .star), ("/", .slash), ("%", .percent)]

/-- The operators before an operand, with the kinds of their signs. -/
def unaryOperators : List (String × TokenKind) :=
  [("not", .notOp), ("!", .notOp), ("-", .minus)]

/-- Whether a text is a name: an identifier that is no keyword. -/
def isName (name : String) : Bool :=
  match name.toList with
  | c :: cs =>
    isIdentStart c && cs.all isIdentChar && TokenKind.ofWord name == .identifier
  | [] => false

/-- Whether a text can be written between quotes. -/
def isWritableText (text : String) : Bool := text.toList.getLast? != some '\\'

/-- Whether a literal can be written: there is no sign of a negative number, and no fraction is
needed for an integer. -/
def isWritableLiteral : Literal → Bool
  | .bool _ => true
  | .number (.integer n) => 0 ≤ n && Number.fitsText n
  | .string text => isWritableText text
  | _ => false

mutual

/-- Whether a tree is an expression that can be written: its operators, names, literals and keys
can. -/
def isWritable : Node → Bool
  | .binary operator left right _ =>
    (binaryOperators.lookup operator).isSome && isWritable left && isWritable right
  | .unary operator operand _ => (unaryOperators.lookup operator).isSome && isWritable operand
  | .call callee args _ => isWritable callee && areWritable args
  | .identifier name _ | .template name _ => isName name
  | .literal value _ => isWritableLiteral value
  | .array elements _ => areWritable elements
  | .object properties _ => haveWritable properties
  | _ => false

def areWritable : List Node → Bool
  | [] => true
  | node :: rest => isWritable node && areWritable rest

def haveWritable : List (String × Node) → Bool
  | [] => true
  | (key, value) :: rest => isWritableText key && isWritable value && haveWritable rest

end

/-- Tokens in parentheses, where that is needed. -/
def grouped (needed : Bool) (contents : List Token.Content) : List Token.Content :=
  if needed then (.leftParen, "(") :: (contents ++ [(.rightParen, ")")]) else contents

/-- The token of a literal. -/
def literalContent : Literal → Token.Content
  | .bool true => (.trueWord, "true")
  | .bool false => (.falseWord, "false")
  | .number (.integer n) => (.number, toString n)
  | .string text => (.string, text)
  | _ => (.error, "")

/-- The token of a key: a string, where it is no name. -/
def keyContent (key : String) : Token.Content :=
  if isName key then (.identifier, key) else (.string, key)

/-- The kind and level of an operator between two operands. -/
def binaryKind (operator : String) : TokenKind := (binaryOperators.lookup operator).getD .error

def binaryLevel (operator : String) : Nat := (Reader.level? (binaryKind operator)).getD 0

def unaryKind (operator : String) : TokenKind := (unaryOperators.lookup operator).getD .error

mutual

/-- The tokens of an expression where only what binds at least as tightly as `level` may stand
without parentheses. With `nested`, an operator under one before an operand is put in parentheses
even if it stands before its own operand. -/
def contents (nested : Bool) (level : Nat) : Node → List Token.Content
  | .binary operator left right _ =>
    grouped (binaryLevel operator < level)
      (contents nested (binaryLevel operator) left ++
        (binaryKind operator, operator) :: contents nested (binaryLevel operator + 1) right)
  | .unary operator operand _ =>
    grouped (7 < level)
      ((unaryKind operator, operator) :: contents nested (if nested then 8 else 7) operand)
  | .call callee args _ =>
    contents nested 8 callee ++
      (.leftParen, "(") :: (contentsAll nested args ++ [(.rightParen, ")")])
  | .identifier name _ => [(.identifier, name)]
  | .literal value _ => [literalContent value]
  | .array elements _ =>
    (.leftBracket, "[") :: (contentsAll nested elements ++ [(.rightBracket, "]")])
  | .object properties _ =>
    (.leftBrace, "\x7b") :: (contentsProperties nested properties ++ [(.rightBrace, "\x7d")])
  | .template name _ =>
    [(.templateStart, "\x7b\x7b"), (.identifier, name), (.templateEnd, "\x7d\x7d")]
  | _ => []

/-- The tokens of expressions with commas between them. -/
def contentsAll (nested : Bool) : List Node → List Token.Content
  | [] => []
  | [node] => contents nested 1 node
  | node :: next :: rest =>
    contents nested 1 node ++ (.comma, ",") :: contentsAll nested (next :: rest)

/-- The tokens of properties with commas between them. -/
def contentsProperties (nested : Bool) : List (String × Node) → List Token.Content
  | [] => []
  | [(key, value)] => keyContent key :: (.colon, ":") :: contents nested 1 value
  | (key, value) :: next :: rest =>
    keyContent key :: (.colon, ":") :: (contents nested 1 value ++
      (.comma, ",") :: contentsProperties nested (next :: rest))

end

/-- An expression as source text: its tokens with a blank between them, each string in quotes of
its own choice. -/
def written (quote : String → Char) (nested : Bool) (node : Node) : String :=
  " ".intercalate ((node.contents nested 1).map (Lexeme.written quote))

end Node
end PageScript
