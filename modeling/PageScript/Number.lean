import PageScript.Number.Double
import PageScript.Number.Numeral
import PageScript.Number.Shortest

/-!
Numbers of the language: integers without bound and doubles. Two integers give exact results; as
soon as a double takes part, the integer is rounded to a double first. Comparison rounds nothing: it
compares exact places on the line of numbers.
-/
namespace PageScript

inductive Number where
  | integer (value : Int)
  | double (value : Double)
deriving DecidableEq

/-- A place on the line of numbers, counted in units of `2 ^ (-1074)`, with an end on either
side. -/
inductive Place where
  | bottom
  | point (units : Int)
  | top
deriving DecidableEq

namespace Place

def lt : Place → Place → Bool
  | bottom, bottom => false
  | bottom, _ => true
  | point a, point b => a < b
  | point _, top => true
  | _, _ => false

end Place

namespace Number

/-- Where a number stands on the line; a double that is not a number stands nowhere. -/
def place? : Number → Option Place
  | integer n => some (.point (n * (Double.one : Int)))
  | double .nan => none
  | double (.infinite true) => some .bottom
  | double (.infinite false) => some .top
  | double (.finite negative rank) => some (.point (Double.units negative rank))

/-- Equality of value: `1` and `1.0` are equal, and so are the two zeros. -/
def equal (a b : Number) : Bool :=
  match a.place?, b.place? with
  | some p, some q => p == q
  | _, _ => false

def less (a b : Number) : Bool :=
  match a.place?, b.place? with
  | some p, some q => p.lt q
  | _, _ => false

def lessOrEqual (a b : Number) : Bool :=
  match a.place?, b.place? with
  | some p, some q => p.lt q || p == q
  | _, _ => false

def isZero : Number → Bool
  | integer n => n == 0
  | double d => d.isZero

/-- The number as a double; `none` for an integer that rounds to infinity. -/
def toDouble? : Number → Option Double
  | integer n => let d := Double.ofInt n; if d.isInfinite then none else some d
  | double d => some d

/-- An operation on doubles, applied after rounding integers. -/
def onDoubles (f : Double → Double → Double) (a b : Number) : Option Number := do
  let x ← a.toDouble?
  let y ← b.toDouble?
  return double (f x y)

/-- Sums, differences and products are `none` only where an integer beyond the range of doubles
meets a double. -/
def add : Number → Number → Option Number
  | integer a, integer b => some (integer (a + b))
  | a, b => onDoubles Double.add a b

def sub : Number → Number → Option Number
  | integer a, integer b => some (integer (a - b))
  | a, b => onDoubles Double.sub a b

def mul : Number → Number → Option Number
  | integer a, integer b => some (integer (a * b))
  | a, b => onDoubles Double.mul a b

/-- The quotient of two integers is their exact quotient, rounded once; `none` if it is too large
for a double. -/
def div : Number → Number → Option Number
  | integer a, integer b =>
    let d := Double.round (decide (a < 0) != decide (b < 0)) (a.natAbs * Double.one) b.natAbs
    if d.isInfinite then none else some (double d)
  | a, b => onDoubles Double.div a b

def abs : Number → Number
  | integer n => integer n.natAbs
  | double d => double d.abs

def neg : Number → Number
  | integer n => integer (-n)
  | double d => double d.neg

/-- The remainder of the magnitudes, with the sign of a negative dividend. -/
def rem (a b : Number) : Option Number := do
  let rest ← match a.abs, b.abs with
    | integer m, integer n => some (integer (m.tmod n))
    | m, n => onDoubles Double.rem m n
  return if lessOrEqual (integer 0) a then rest else rest.neg

/-- Whether an integer has at most `Numeral.maxDigits` decimal digits. -/
def fitsText (n : Int) : Bool := n.natAbs < Nat.pow 10 Numeral.maxDigits

/-- The text of an integer; `none` if it has too many digits. -/
def integerText? (n : Int) : Option String := if fitsText n then some (toString n) else none

/-- The text of a number: a double that is an integer is written as that integer, in full. -/
def display? : Number → Option String
  | integer n => integerText? n
  | double d =>
    match d.toInt? with
    | some n => integerText? n
    | none => some d.text

end Number
end PageScript
