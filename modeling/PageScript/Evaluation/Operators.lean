import PageScript.RuntimeError
import PageScript.Value.Display
import PageScript.Value.Equality

/-!
What operators do to values. Equality, `and` and `or` take values of every kind; `+` joins texts as
soon as one side is a string; all other operators take numbers, and the ordering ones also two
strings.
-/
namespace PageScript.Operators

/-- The text of a value, or the fault of having none. -/
def display (v : Value) : Except RuntimeFault String :=
  match v.display? with
  | some text => .ok text
  | none => .error .tooLargeToDisplay

/-- Both operands as numbers. -/
def numbers (operator : String) : Value → Value → Except RuntimeFault (Number × Number)
  | .number a, .number b => .ok (a, b)
  | a, b => .error (.operands operator a.kind b.kind)

/-- An operator that orders, on numbers and on strings, whose order is that of code points. -/
structure Ordering where
  numbers : Number → Number → Bool
  strings : String → String → Bool

def ordering? : String → Option Ordering
  | "<" => some ⟨Number.less, fun a b => a < b⟩
  | ">" => some ⟨fun a b => Number.less b a, fun a b => b < a⟩
  | "<=" => some ⟨Number.lessOrEqual, fun a b => !(b < a : Bool)⟩
  | ">=" => some ⟨fun a b => Number.lessOrEqual b a, fun a b => !(a < b : Bool)⟩
  | _ => none

/-- An operator that calculates; its result may be out of range. -/
def arithmetic? : String → Option (Number → Number → Option Number)
  | "+" => some Number.add
  | "-" => some Number.sub
  | "*" => some Number.mul
  | "/" => some Number.div
  | "%" => some Number.rem
  | _ => none

def isString : Value → Bool
  | .string _ => true
  | _ => false

/-- Two operands ordered. -/
def compare (operator : String) (ordering : Ordering) : Value → Value → Except RuntimeFault Value
  | .string a, .string b => .ok (.bool (ordering.strings a b))
  | left, right => do
    let (a, b) ← numbers operator left right
    return .bool (ordering.numbers a b)

/-- Two operands calculated with. A zero divisor is found before anything else. -/
def calculate (operator : String) (left right : Value) : Except RuntimeFault Value := do
  let (a, b) ← numbers operator left right
  if (operator = "/" ∨ operator = "%") ∧ b.isZero then throw .divisionByZero
  match arithmetic? operator with
  | none => throw (.unknownOperator operator)
  | some f =>
    match f a b with
    | some n => return .number n
    | none => throw (.outOfRange operator)

/-- An operator between two operands. -/
def binary (operator : String) (left right : Value) : Except RuntimeFault Value :=
  match operator with
  | "and" => .ok (.bool (left.truthy && right.truthy))
  | "or" => .ok (.bool (left.truthy || right.truthy))
  | "==" => .ok (.bool (left.equal right))
  | "!=" => .ok (.bool (!left.equal right))
  | _ =>
    if operator = "+" ∧ (isString left || isString right) then do
      let a ← display left
      let b ← display right
      return .string (a ++ b)
    else
      match ordering? operator with
      | some ordering => compare operator ordering left right
      | none => calculate operator left right

/-- An operator before its operand. -/
def unary (operator : String) (operand : Value) : Except RuntimeFault Value :=
  match operator with
  | "-" =>
    match operand with
    | .number n => .ok (.number n.neg)
    | v => .error (.negation v.kind)
  | "not" | "!" => .ok (.bool (!operand.truthy))
  | _ => .error (.unknownOperator operator)

end PageScript.Operators
