import PageScript.Json
import PageScript.Text.Units

/-!
Plain data as text in JSON, of ASCII characters only. Two layouts: one without any blanks for
messages, and one with a line for every item for reading.
-/
namespace PageScript.Json

/-- A four-digit escape of a code unit of sixteen bits. -/
def unitEscape (unit : Nat) : List Char :=
  '\\' :: 'u' :: [unit / 4096 % 16, unit / 256 % 16, unit / 16 % 16, unit % 16].map Nat.digitChar

/-- The characters that stand for one character inside a string: itself, a short escape, or the
escapes of its code units. -/
def escape (c : Char) : List Char :=
  if c = '"' then ['\\', '"']
  else if c = '\\' then ['\\', '\\']
  else if c = '\n' then ['\\', 'n']
  else if c = '\r' then ['\\', 'r']
  else if c = '\t' then ['\\', 't']
  else if c = '\x08' then ['\\', 'b']
  else if c = '\x0c' then ['\\', 'f']
  else if 0x20 ≤ c.toNat ∧ c.toNat < 0x7f then [c]
  else (Text.units c).flatMap unitEscape

/-- A string between quotes. -/
def quote (s : String) : List Char := '"' :: s.toList.flatMap escape ++ ['"']

/-- The text of a number. Infinities and the number that is none have names outside the standard. -/
def numberText : Number → String
  | .integer n => toString n
  | .double .nan => "NaN"
  | .double (.infinite negative) => if negative then "-Infinity" else "Infinity"
  | .double d => d.text

/-! ### Without blanks -/

mutual

/-- The text without blanks, before the text that follows it. -/
def compactOnto (rest : List Char) : Json → List Char
  | .null => "null".toList ++ rest
  | .bool value => (if value then "true" else "false").toList ++ rest
  | .number value => (numberText value).toList ++ rest
  | .string value => quote value ++ rest
  | .array items => '[' :: itemsOnto (']' :: rest) items
  | .object entries => '\x7b' :: entriesOnto ('\x7d' :: rest) entries

def itemsOnto (rest : List Char) : List Json → List Char
  | [] => rest
  | [item] => compactOnto rest item
  | item :: items => compactOnto (',' :: itemsOnto rest items) item

def entriesOnto (rest : List Char) : List (String × Json) → List Char
  | [] => rest
  | [(key, value)] => quote key ++ ':' :: compactOnto rest value
  | (key, value) :: entries =>
    quote key ++ ':' :: compactOnto (',' :: entriesOnto rest entries) value

end

/-- The text without blanks. -/
def compact (data : Json) : String := String.ofList (compactOnto [] data)

/-! ### With a line for every item -/

/-- A line break and the indentation of a nesting level, two blanks for each. -/
def newLine (level : Nat) : List Char := '\n' :: List.replicate (2 * level) ' '

mutual

/-- The text with every item on a line of its own, before the text that follows it; empty lists and
objects take no lines. -/
def indentedOnto (level : Nat) (rest : List Char) : Json → List Char
  | .array [] => '[' :: ']' :: rest
  | .array items => '[' :: itemLinesOnto (level + 1) (newLine level ++ ']' :: rest) items
  | .object [] => '\x7b' :: '\x7d' :: rest
  | .object entries =>
    '\x7b' :: entryLinesOnto (level + 1) (newLine level ++ '\x7d' :: rest) entries
  | .null => "null".toList ++ rest
  | .bool value => (if value then "true" else "false").toList ++ rest
  | .number value => (numberText value).toList ++ rest
  | .string value => quote value ++ rest

def itemLinesOnto (level : Nat) (rest : List Char) : List Json → List Char
  | [] => rest
  | [item] => newLine level ++ indentedOnto level rest item
  | item :: items =>
    newLine level ++ indentedOnto level (',' :: itemLinesOnto level rest items) item

def entryLinesOnto (level : Nat) (rest : List Char) : List (String × Json) → List Char
  | [] => rest
  | [(key, value)] => newLine level ++ quote key ++ ':' :: ' ' :: indentedOnto level rest value
  | (key, value) :: entries =>
    newLine level ++ quote key
      ++ ':' :: ' ' :: indentedOnto level (',' :: entryLinesOnto level rest entries) value

end

/-- The text with every item on a line of its own. -/
def indented (data : Json) : String := String.ofList (indentedOnto 0 [] data)

end PageScript.Json
