/-!
Named entries in the order in which their names first came. Writing a name again changes its value
and keeps its place.
-/
namespace PageScript

/-- A list of named entries; `put` and `ofList` never repeat a name. -/
abbrev Fields (α : Type) := List (String × α)

namespace Fields
variable {α β : Type}

/-- The value of the first entry with a name. -/
def get? : Fields α → String → Option α
  | [], _ => none
  | (key, value) :: rest, name => if key = name then some value else get? rest name

def contains (fields : Fields α) (name : String) : Bool := (get? fields name).isSome

/-- The same entries with `name` bound to `value`: in its old place, or else at the end. -/
def put : Fields α → String → α → Fields α
  | [], name, value => [(name, value)]
  | (key, old) :: rest, name, value =>
    if key = name then (key, value) :: rest else (key, old) :: put rest name value

/-- The entries without those of one name. -/
def remove (fields : Fields α) (name : String) : Fields α := fields.filter (·.1 ≠ name)

/-- The entries of a list, written one after another. -/
def ofList (entries : List (String × α)) : Fields α :=
  entries.foldl (fun fields entry => put fields entry.1 entry.2) []

def keys (fields : Fields α) : List String := fields.map (·.1)

@[simp] theorem get?_nil (name : String) : get? ([] : Fields α) name = none := rfl

theorem get?_put (fields : Fields α) (name : String) (value : α) (needle : String) :
    (put fields name value).get? needle =
      if needle = name then some value else fields.get? needle := by
  induction fields with
  | nil => simp [put, get?, eq_comm]
  | cons entry rest ih =>
    obtain ⟨key, old⟩ := entry
    by_cases hk : key = name
    · by_cases hn : key = needle <;> simp_all [put, get?, eq_comm]
    · by_cases hn : key = needle
      · subst hn; simp [put, get?, hk]
      · simp [put, get?, hk, hn, ih]

theorem get?_put_self (fields : Fields α) (name : String) (value : α) :
    (put fields name value).get? name = some value := by simp [get?_put]

theorem get?_put_of_ne {needle name : String} (h : needle ≠ name) (fields : Fields α) (value : α) :
    (put fields name value).get? needle = fields.get? needle := by simp [get?_put, h]

theorem keys_put (fields : Fields α) (name : String) (value : α) :
    (put fields name value).keys =
      if fields.contains name then fields.keys else fields.keys ++ [name] := by
  induction fields with
  | nil => simp [put, keys, contains, get?]
  | cons entry rest ih =>
    obtain ⟨key, old⟩ := entry
    by_cases hk : key = name
    · simp [put, keys, contains, get?, hk]
    · simp only [put, hk, if_false, keys, List.map_cons, contains, get?] at ih ⊢
      rw [ih]
      split <;> simp_all

end Fields
end PageScript
