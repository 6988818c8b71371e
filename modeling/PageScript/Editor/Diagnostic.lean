import PageScript.Node.Reader
import PageScript.Notice
import PageScript.Number.Numeral
import PageScript.Report
import PageScript.Text.Digit

/-!
What is wrong with a document, as editors mark it. Tokens that are errors are marked one by one;
only if there are none is the text read as a program, and the first syntax error is marked by its
line, which is taken from its message.
-/
namespace PageScript

/-- A place in a document, counted from zero. -/
structure Mark where
  line : Int
  character : Int
deriving DecidableEq

/-- A stretch of a document and what is wrong with it. -/
structure Diagnostic where
  first : Mark
  last : Mark
  message : String
deriving DecidableEq

namespace Diagnostic

/-- The name under which all diagnostics are given. -/
def source : String := "noteg"

/-- How far the mark of a syntax error reaches: only its line is told. -/
def errorWidth : Int := 100

/-- Where a text ends that begins at a place. -/
def endOf (start : Mark) (text : String) : Mark :=
  let cs := text.toList
  let breaks := cs.count '\n'
  if breaks = 0 then ⟨start.line, start.character + cs.length⟩
  else ⟨start.line + breaks, (cs.reverse.takeWhile (· ≠ '\n')).length⟩

/-- The mark of a token that is an error: exactly its text. -/
def ofToken (t : Token) : Diagnostic :=
  let start : Mark := ⟨t.line - 1, t.column - 1⟩
  ⟨start, endOf start t.text, describeErrorText t.text⟩

/-- What stands in front of a line in a message. -/
def lineWords : List Char := "at line ".toList

/-- The values of the digits at the front of a text. -/
def frontDigits : List Char → List Nat
  | [] => []
  | c :: cs =>
    match Text.digitValue? c with
    | some digit => digit :: frontDigits cs
    | none => []

/-- The line that a text names right at its front. -/
def lineHere? (cs : List Char) : Option Nat :=
  if lineWords.isPrefixOf cs then
    match frontDigits (cs.drop lineWords.length) with
    | [] => none
    | digits => some (Numeral.ofDigits digits)
  else none

/-- The first line that a text names, wherever it does. -/
def lineIn? : List Char → Option Nat
  | [] => none
  | c :: cs =>
    match lineHere? (c :: cs) with
    | some line => some line
    | none => lineIn? cs

/-- The mark of a failure of which only the message is known: the line that the message names, or
else the first one. -/
def ofMessage (message : String) : Diagnostic :=
  let line : Int := match lineIn? message.toList with | some line => line - 1 | none => 0
  ⟨⟨line, 0⟩, ⟨line, errorWidth⟩, message⟩

/-- The mark of a syntax error. -/
def ofSyntaxError (e : SyntaxError) : Diagnostic := ofMessage (e.report "").summary

/-- The tokens of a text that are errors. -/
def errorTokens (text : String) : List Token := (Token.ofSource text).filter (·.kind = .error)

/-- All that is wrong with a text, and what is noted about it. -/
def analyze (text : String) : List Diagnostic × List Notice :=
  match errorTokens text with
  | [] =>
    match Program.ofSource text with
    | .ok _ => ([], [])
    | .error e => ([ofSyntaxError e], [.analysisFailed])
  | tokens => (tokens.map ofToken, [])

end Diagnostic
end PageScript
