import PageScript.Fields
import PageScript.Number

/-!
Plain data: what messages, configuration files and records of tokens and trees are made of. Objects
keep their entries in order. Integers are exact, and doubles include infinities and the number that
is none.
-/
namespace PageScript

inductive Json where
  | null
  | bool (value : Bool)
  | number (value : Number)
  | string (value : String)
  | array (items : List Json)
  | object (entries : List (String × Json))
deriving Inhabited

namespace Json

/-- An integer. -/
def int (n : Int) : Json := .number (.integer n)

/-- The value under a name in an object; data of any other kind has no entries. -/
def get? (name : String) : Json → Option Json
  | .object entries => Fields.get? entries name
  | _ => none

/-- What is found when the names of a path are looked up one inside another. -/
def at? (j : Json) : List String → Option Json
  | [] => some j
  | name :: path => (j.get? name).bind fun inner => inner.at? path

mutual

/-- Whether no integer in the data has more digits than can be written. -/
def fitsText : Json → Bool
  | .number (.integer n) => Number.fitsText n
  | .array items => allFitText items
  | .object entries => entriesFitText entries
  | _ => true

def allFitText : List Json → Bool
  | [] => true
  | item :: rest => fitsText item && allFitText rest

def entriesFitText : List (String × Json) → Bool
  | [] => true
  | (_, value) :: rest => fitsText value && entriesFitText rest

end

end Json
end PageScript
