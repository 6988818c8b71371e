import PageScript.Number
import PageScript.SyntaxError
import PageScript.Text.Blank
import PageScript.Text.Lines

/-!
Errors as people read them: the message, the place, the line of the source and a mark under it. The
numbers in these texts are written in decimal, and the host refuses to write one that is too long. An
error with such a number is not raised: what is raised in its place is the refusal. No line of a text
that fits into a memory has so many digits, but trees and tokens may come with any lines.
-/
namespace PageScript

/-- What is known of an error. A column of zero is unknown. -/
structure Report where
  message : String
  line : Int
  column : Int
  source : String

namespace Report

/-- The message with its line, the text with which an error is raised. -/
def summary (r : Report) : String := r.message ++ " at line " ++ toString r.line

/-- The line of the source that the error is in; empty if there is no such line. -/
def sourceLine (r : Report) : List Char :=
  if r.line < 1 then []
  else (((Text.lines r.source.toList)[(r.line - 1).toNat]?).map (·.content)).getD []

/-- As many blanks as a number says; none for a negative one. -/
def spaces (n : Int) : String := String.ofList (List.replicate n.toNat ' ')

/-- The mark under the source line: under the column if it is known, else under the whole line. -/
def mark (r : Report) : String :=
  if r.column ≠ 0 then spaces (r.column - 1) ++ "^"
  else
    let text := Text.trimStart r.sourceLine
    spaces (r.sourceLine.length - text.length : Nat)
      ++ String.ofList (List.replicate (max 1 text.length) '^')

/-- The error with its place in a named file and, unless the line is empty, a picture of it. -/
def diagram (r : Report) (file : String) : String :=
  let number := toString r.line
  let margin := spaces (number.length + 1)
  let place :=
    file ++ ":" ++ number ++ if r.column ≠ 0 then ":" ++ toString r.column else ""
  let head := "error: " ++ r.message ++ "\n" ++ margin ++ "--> " ++ place
  if r.sourceLine.isEmpty then head
  else
    head ++ "\n" ++ margin ++ "|\n" ++ number ++ " | " ++ String.ofList r.sourceLine ++ "\n"
      ++ margin ++ "| " ++ r.mark

/-- What is raised for an error: `none` if the line is too long to be written in its text. -/
def raised? (r : Report) : Option Report := if Number.fitsText r.line then some r else none

/-- The picture of an error; `none` if its column is too long to be written. -/
def diagram? (r : Report) (file : String) : Option String :=
  if Number.fitsText r.column then some (r.diagram file) else none

end Report

/-- The name under which a source without a file is reported. -/
def defaultFile : String := "input.ng"

/-- What a syntax error tells in its source, if it is raised. -/
def SyntaxError.report (e : SyntaxError) (source : String) : Report :=
  ⟨e.fault.message, e.line, e.column, source⟩

/-- What is raised for a syntax error; `none` if its line is too long to be written. -/
def SyntaxError.raised? (e : SyntaxError) (source : String) : Option Report :=
  (e.report source).raised?

end PageScript
