import PageScript.Value

/-!
The text of a value, as it is printed and joined to strings. Strings stand bare on their own and
between quotes inside arrays and objects. A value with an integer of too many digits has no text.
-/
namespace PageScript.Value

mutual

/-- The text inside a container. -/
def nested? : Value → Option String
  | null => some "null"
  | bool true => some "true"
  | bool false => some "false"
  | number n => n.display?
  | string s => some ("\"" ++ s ++ "\"")
  | array items => (nestedItems? items).map fun texts => "[" ++ ", ".intercalate texts ++ "]"
  | object entries =>
    (nestedEntries? entries).map fun texts => "\x7b" ++ ", ".intercalate texts ++ "\x7d"
  | closure f => some ("<fn " ++ f.name ++ ">")
  | builtin b => some ("<fn " ++ b.name ++ ">")

def nestedItems? : List Value → Option (List String)
  | [] => some []
  | item :: rest => do
    let text ← nested? item
    return text :: (← nestedItems? rest)

def nestedEntries? : List (String × Value) → Option (List String)
  | [] => some []
  | (key, value) :: rest => do
    let text ← nested? value
    return (key ++ ": " ++ text) :: (← nestedEntries? rest)

end

/-- The text of a value on its own. -/
def display? : Value → Option String
  | string s => some s
  | v => nested? v

end PageScript.Value
