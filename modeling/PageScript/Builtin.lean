/-!
The functions that every program can call, with what is shown of them to people.
-/
namespace PageScript

inductive Builtin where
  | print
  | len
  | str
  | type
deriving DecidableEq

namespace Builtin

def name : Builtin → String
  | print => "print"
  | len => "len"
  | str => "str"
  | type => "type"

def signature : Builtin → String
  | print => "print(value, ...)"
  | len => "len(array|string)"
  | str => "str(value)"
  | type => "type(value)"

/-- One line on what the function is for. -/
def purpose : Builtin → String
  | print => "Outputs values to the console"
  | len => "Returns the length"
  | str => "Converts a value to its display string"
  | type => "Returns the kind of a value as a string"

/-- All of them, in the order in which they are listed. -/
def all : List Builtin := [print, len, str, type]

theorem mem_all (b : Builtin) : b ∈ all := by cases b <;> decide

/-- The builtin with a given name. -/
def ofName? (name : String) : Option Builtin := all.find? (·.name = name)

theorem ofName?_name (b : Builtin) : ofName? b.name = some b := by cases b <;> decide

theorem name_of_ofName? {name : String} {b : Builtin} (h : ofName? name = some b) :
    b.name = name := by
  simpa using List.find?_some h

end Builtin
end PageScript
