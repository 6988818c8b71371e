import PageScript.Number
import PageScript.Text.Quoted

/-!
Literals: what is written down as it is, in programs and in data.
-/
namespace PageScript

inductive Literal where
  | null
  | bool (value : Bool)
  | number (value : Number)
  | string (value : String)
deriving DecidableEq

/-- A literal on a line, with quotes around a string. -/
def Literal.inline : Literal → String
  | .null => "None"
  | .bool true => "True"
  | .bool false => "False"
  | .number (.integer n) => toString n
  | .number (.double d) => d.text
  | .string s => Text.quoted s

end PageScript
