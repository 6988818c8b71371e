import PageScript.Value

/-!
Equality as programs see it: values of different kinds differ, numbers are compared exactly, arrays
item by item, objects by name whatever the order, and functions by identity.
-/
namespace PageScript.Value

mutual

def equal : Value → Value → Bool
  | null, null => true
  | bool a, bool b => a == b
  | number a, number b => a.equal b
  | string a, string b => a == b
  | array as, array bs => itemsEqual as bs
  | object as, object bs => as.length == bs.length && entriesEqual as bs
  | closure f, closure g => f.id == g.id
  | builtin f, builtin g => f == g
  | _, _ => false

def itemsEqual : List Value → List Value → Bool
  | [], [] => true
  | a :: as, b :: bs => equal a b && itemsEqual as bs
  | _, _ => false

/-- Whether every entry has an equal one of the same name among `others`. -/
def entriesEqual : List (String × Value) → (others : List (String × Value)) → Bool
  | [], _ => true
  | (key, a) :: rest, others =>
    (match Fields.get? others key with
      | some b => equal a b
      | none => false)
    && entriesEqual rest others

end

end PageScript.Value
