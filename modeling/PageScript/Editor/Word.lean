import PageScript.Text.Lines
import PageScript.Text.Units

/-!
The word at a place of a text. Places are given as editors count them: lines from zero, whatever
character ends them, and characters of a line in code units.
-/
namespace PageScript.Text

/-- Whether a character belongs to a word. -/
def isWordChar (c : Char) : Bool := c.isAlphanum || c == '_'

/-- The word at the end of a text; a line feed behind it does not count. -/
def wordBefore (cs : List Char) : List Char :=
  let back := match cs.reverse with | '\n' :: rest => rest | rest => rest
  (back.takeWhile isWordChar).reverse

/-- The characters of a line as editors count them: its end is one character. -/
def counted (line : Line) : List Char :=
  line.content ++ if line.ending = ['\r', '\n'] then ['\n'] else line.ending

/-- The index in a line of a place given in code units. A place past the end counts as the last
unit. -/
def indexInLine (line : Line) (character : Int) : Nat :=
  let cs := counted line
  let size := unitCount cs
  charsWithin cs (if (size : Int) < character then size - 1 else character.toNat)

/-- The word around a place of a text, lines counted from zero and characters in code units; empty
if there is no such line. -/
def wordAt (text : String) (line character : Int) : String :=
  match if line < 0 then none else (lines text.toList)[line.toNat]? with
  | none => ""
  | some l =>
    let index := indexInLine l character
    String.ofList (wordBefore (l.full.take index) ++ (l.full.drop index).takeWhile isWordChar)

end PageScript.Text
