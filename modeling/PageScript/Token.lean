/-!
Tokens: the words, numbers, strings and signs that a source text is made of, each with its kind, its
text and the place where it begins.
-/
namespace PageScript

/-- What a token is. The word `not` and the sign `!` are of one kind. -/
inductive TokenKind where
  | string | number | identifier
  | letWord | ifWord | elseWord | forWord | whileWord | fnWord | returnWord | trueWord | falseWord
  | plus | minus | star | slash | percent
  | equal | notEqual | less | greater | lessEqual | greaterEqual
  | andOp | orOp | notOp | assign
  | leftParen | rightParen | leftBrace | rightBrace | leftBracket | rightBracket
  | comma | dot | colon | semicolon | arrow
  | templateStart | templateEnd
  | newline | endOfInput | error
deriving DecidableEq

namespace TokenKind

/-- The name under which a kind is listed. -/
def label : TokenKind → String
  | string => "STRING" | number => "NUMBER" | identifier => "IDENTIFIER"
  | letWord => "LET" | ifWord => "IF" | elseWord => "ELSE" | forWord => "FOR"
  | whileWord => "WHILE" | fnWord => "FN" | returnWord => "RETURN"
  | trueWord => "TRUE" | falseWord => "FALSE"
  | plus => "PLUS" | minus => "MINUS" | star => "STAR" | slash => "SLASH" | percent => "PERCENT"
  | equal => "EQ" | notEqual => "NEQ" | less => "LT" | greater => "GT"
  | lessEqual => "LTE" | greaterEqual => "GTE"
  | andOp => "AND" | orOp => "OR" | notOp => "NOT" | assign => "ASSIGN"
  | leftParen => "LPAREN" | rightParen => "RPAREN"
  | leftBrace => "LBRACE" | rightBrace => "RBRACE"
  | leftBracket => "LBRACKET" | rightBracket => "RBRACKET"
  | comma => "COMMA" | dot => "DOT" | colon => "COLON" | semicolon => "SEMICOLON"
  | arrow => "ARROW"
  | templateStart => "TEMPLATE_START" | templateEnd => "TEMPLATE_END"
  | newline => "NEWLINE" | endOfInput => "EOF" | error => "ERROR"

/-- Every kind, in the order of the definition. -/
def all : List TokenKind :=
  [string, number, identifier, letWord, ifWord, elseWord, forWord, whileWord, fnWord, returnWord,
   trueWord, falseWord, plus, minus, star, slash, percent, equal, notEqual, less, greater,
   lessEqual, greaterEqual, andOp, orOp, notOp, assign, leftParen, rightParen, leftBrace,
   rightBrace, leftBracket, rightBracket, comma, dot, colon, semicolon, arrow, templateStart,
   templateEnd, newline, endOfInput, error]

theorem mem_all (kind : TokenKind) : kind ∈ all := by cases kind <;> decide

/-- The kind with a given name. -/
def ofLabel? (name : String) : Option TokenKind := all.find? (·.label = name)

end TokenKind

/-- A token. Lines and columns count from one; the column is that of its first character. -/
structure Token where
  kind : TokenKind
  text : String
  line : Int
  column : Int
deriving DecidableEq

/-- The reserved words. -/
def keywords : List (String × TokenKind) :=
  [("let", .letWord), ("if", .ifWord), ("else", .elseWord), ("for", .forWord),
   ("while", .whileWord), ("fn", .fnWord), ("return", .returnWord), ("true", .trueWord),
   ("false", .falseWord), ("and", .andOp), ("or", .orOp), ("not", .notOp)]

/-- The kind of a word. -/
def TokenKind.ofWord (word : String) : TokenKind := (keywords.lookup word).getD .identifier

/-- The two characters that may delimit a string. -/
def isQuote (c : Char) : Bool := c == '"' || c == '\''

/-- What is wrong with the text of an error token. -/
def describeErrorText (text : String) : String :=
  match text.toList with
  | c :: _ => if isQuote c then "Unterminated string" else "Unexpected character: " ++ text
  | [] => "Unexpected character: " ++ text

/-- Whether a text lies between two others in the order of code points. A text that goes on after
its first character is still placed by it. -/
def isBetween (low high text : String) : Bool := low ≤ text && text ≤ high

/-- Whether a text is placed among the letters or is the underscore. -/
def startsIdentifier (text : String) : Bool :=
  isBetween "a" "z" text || isBetween "A" "Z" text || text == "_"

/-- Whether a text is placed among the ASCII digits. -/
def startsNumber (text : String) : Bool := isBetween "0" "9" text

/-- Whether a text is placed among the characters of identifiers. -/
def continuesIdentifier (text : String) : Bool := startsIdentifier text || startsNumber text

/-- Whether a character may begin an identifier: an ASCII letter or the underscore. -/
def isIdentStart (c : Char) : Bool :=
  ('a' ≤ c && c ≤ 'z') || ('A' ≤ c && c ≤ 'Z') || c == '_'

/-- Whether a character is an ASCII digit. -/
def isDigit (c : Char) : Bool := '0' ≤ c && c ≤ '9'

/-- Whether a character may continue an identifier. -/
def isIdentChar (c : Char) : Bool := isIdentStart c || isDigit c

end PageScript
