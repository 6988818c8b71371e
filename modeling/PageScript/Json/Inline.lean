import PageScript.Json
import PageScript.Literal

/-!
Data as text for people: all on one line, literals as in an outline.
-/
namespace PageScript.Json

mutual

/-- Data on one line: lists in brackets, objects in braces with a colon after every name. -/
def inline : Json → String
  | .null => Literal.null.inline
  | .bool value => (Literal.bool value).inline
  | .number value => (Literal.number value).inline
  | .string value => (Literal.string value).inline
  | .array items => "[" ++ ", ".intercalate (inlineAll items) ++ "]"
  | .object entries => "\x7b" ++ ", ".intercalate (inlineEntries entries) ++ "\x7d"

def inlineAll : List Json → List String
  | [] => []
  | item :: rest => inline item :: inlineAll rest

def inlineEntries : List (String × Json) → List String
  | [] => []
  | (name, value) :: rest => (Text.quoted name ++ ": " ++ inline value) :: inlineEntries rest

end

/-- The text that data stands for: a string is its own text, without quotes. -/
def text : Json → String
  | .string value => value
  | j => inline j

end PageScript.Json
