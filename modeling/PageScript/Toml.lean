import PageScript.Calendar
import PageScript.Fields
import PageScript.Number

/-!
The data of configuration files in TOML, version 1.0.
-/
namespace PageScript

inductive Toml where
  | bool (value : Bool)
  | integer (value : Int)
  | double (value : Double)
  | string (value : String)
  | moment (value : Moment)
  | array (items : List Toml)
  /-- Entries in order, no name twice. -/
  | table (entries : List (String × Toml))
deriving Inhabited

/-- The value under a name in a table; data of any other kind has no entries. -/
def Toml.get? (name : String) : Toml → Option Toml
  | .table entries => Fields.get? entries name
  | _ => none

/-! ### Equality -/

namespace Toml

mutual

def same : Toml → Toml → Bool
  | .bool a, .bool b => a == b
  | .integer a, .integer b => a == b
  | .double a, .double b => a == b
  | .string a, .string b => a == b
  | .moment a, .moment b => a == b
  | .array items, .array items' => sameItems items items'
  | .table entries, .table entries' => sameEntries entries entries'
  | _, _ => false

def sameItems : List Toml → List Toml → Bool
  | [], [] => true
  | item :: rest, item' :: rest' => same item item' && sameItems rest rest'
  | _, _ => false

def sameEntries : List (String × Toml) → List (String × Toml) → Bool
  | [], [] => true
  | (name, item) :: rest, (name', item') :: rest' =>
    name == name' && same item item' && sameEntries rest rest'
  | _, _ => false

end

mutual

theorem same_iff : ∀ a b : Toml, same a b ↔ a = b
  | .bool a, b => by cases b <;> simp [same]
  | .integer a, b => by cases b <;> simp [same]
  | .double a, b => by cases b <;> simp [same]
  | .string a, b => by cases b <;> simp [same]
  | .moment a, b => by cases b <;> simp [same]
  | .array items, b => by cases b <;> simp [same, sameItems_iff items]
  | .table entries, b => by cases b <;> simp [same, sameEntries_iff entries]

theorem sameItems_iff : ∀ items items' : List Toml, sameItems items items' ↔ items = items'
  | [], items' => by cases items' <;> simp [sameItems]
  | item :: rest, items' => by
    cases items' <;> simp [sameItems, same_iff item, sameItems_iff rest]

theorem sameEntries_iff : ∀ entries entries' : List (String × Toml),
    sameEntries entries entries' ↔ entries = entries'
  | [], entries' => by cases entries' <;> simp [sameEntries]
  | (name, item) :: rest, [] => by simp [sameEntries]
  | (name, item) :: rest, (name', item') :: rest' => by
    simp [sameEntries, same_iff item, sameEntries_iff rest]

end

instance : DecidableEq Toml := fun a b => decidable_of_iff (same a b) (same_iff a b)

end Toml

end PageScript
