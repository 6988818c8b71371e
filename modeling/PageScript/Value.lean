import PageScript.Builtin
import PageScript.Fields
import PageScript.Json
import PageScript.Node

/-!
The values that programs compute with.
-/
namespace PageScript

/-- The place of a scope in the store of scopes. -/
abbrev ScopeId := Nat

/-- A function of a program: what was written, the scope it was written in, and a number that tells
it from every other function made in the same session. -/
structure Closure where
  id : Nat
  name : String
  params : List String
  body : Node
  scope : ScopeId

inductive Value where
  | null
  | bool (value : Bool)
  | number (value : Number)
  | string (value : String)
  | array (items : List Value)
  /-- Entries in order, no name twice. -/
  | object (entries : List (String × Value))
  | closure (function : Closure)
  | builtin (function : Builtin)
deriving Inhabited

/-- The kinds of values. -/
inductive ValueKind where
  | null | boolean | number | string | array | object | function
deriving DecidableEq

def ValueKind.name : ValueKind → String
  | null => "null"
  | boolean => "boolean"
  | number => "number"
  | string => "string"
  | array => "array"
  | object => "object"
  | function => "function"

namespace Value

def kind : Value → ValueKind
  | null => .null
  | bool _ => .boolean
  | number _ => .number
  | string _ => .string
  | array _ => .array
  | object _ => .object
  | closure _ | builtin _ => .function

/-- Whether a condition with this value holds. Objects and functions always hold. -/
def truthy : Value → Bool
  | null => false
  | bool b => b
  | number n => !n.isZero
  | string s => !s.isEmpty
  | array items => !items.isEmpty
  | object _ | closure _ | builtin _ => true

/-- An integer. -/
def int (n : Int) : Value := .number (.integer n)

mutual

/-- Plain data as a value. -/
def ofJson : Json → Value
  | .null => null
  | .bool b => bool b
  | .number n => number n
  | .string s => string s
  | .array items => array (ofItems items)
  | .object entries => object (ofEntries entries)

def ofItems : List Json → List Value
  | [] => []
  | item :: rest => ofJson item :: ofItems rest

def ofEntries : List (String × Json) → List (String × Value)
  | [] => []
  | (key, value) :: rest => (key, ofJson value) :: ofEntries rest

end

end Value

/-- The value that a literal stands for. -/
def Literal.toValue : Literal → Value
  | .null => .null
  | .bool b => .bool b
  | .number n => .number n
  | .string s => .string s

end PageScript
