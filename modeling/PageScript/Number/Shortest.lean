import PageScript.Number.Double

/-!
The shortest decimal text of a double: the fewest digits that read back as the same number, the
nearest such digits, and of two equally near the even ones.
-/
namespace PageScript.Double

/-- A positive decimal number `digits * 10 ^ exponent`. -/
structure Decimal where
  digits : Nat
  exponent : Int
deriving DecidableEq

namespace Decimal

/-- The fraction `num / den` of units that a decimal stands for, scaled by a power of ten so that
both parts are whole. -/
def fraction (d : Decimal) : Nat × Nat :=
  (d.digits * one * Nat.pow 10 d.exponent.toNat, Nat.pow 10 (-d.exponent).toNat)

/-- Whether a decimal reads back as the magnitude at `rank`: it lies no further out than half-way
to either neighbour, and on the half-way points only if the rank is even. -/
def readsAs (d : Decimal) (rank : Nat) : Bool :=
  let (num, den) := d.fraction
  let low := (magnitude (rank - 1) + magnitude rank) * den
  let high := (magnitude rank + magnitude (rank + 1)) * den
  if rank % 2 = 0 then low ≤ 2 * num && 2 * num ≤ high else low < 2 * num && 2 * num < high

/-- The same decimal without the zeros its digits end in; `fuel` bounds their number. -/
def strip : (fuel : Nat) → Decimal → Decimal
  | 0, d => d
  | fuel + 1, d =>
    if d.digits != 0 && d.digits % 10 == 0 then strip fuel ⟨d.digits / 10, d.exponent + 1⟩ else d

end Decimal

/-- The least `e` from `start` on with `value < unit * 10 ^ e`. -/
def raisePlace (value : Nat) : (fuel : Nat) → (unit : Nat) → (start : Int) → Int
  | 0, _, e => e
  | fuel + 1, unit, e => if value < unit then e else raisePlace value fuel (unit * 10) (e + 1)

/-- The least `e` up to `start` with `value * 10 ^ (-e) < unit`, as long as one step further down
still holds. -/
def lowerPlace (unit : Nat) : (fuel : Nat) → (value : Nat) → (start : Int) → Int
  | 0, _, e => e
  | fuel + 1, value, e =>
    if value * 10 < unit then lowerPlace unit fuel (value * 10) (e - 1) else e

/-- The exponent `e` with `10 ^ (e - 1) ≤ x < 10 ^ e`, for `x` the positive magnitude at a rank. -/
def decimalPlace (rank : Nat) : Int :=
  let value := magnitude rank
  if value < one then lowerPlace one 400 value 0 else raisePlace value 400 one 0

/-- The decimals of `count` digits next to the magnitude at `rank`: the one below or equal to it,
the one above, and whether the second is nearer or, at equal distance, the even one. -/
def neighbours (rank count : Nat) : Decimal × Decimal × Bool :=
  let exponent := decimalPlace rank - count
  let num := magnitude rank * Nat.pow 10 (-exponent).toNat
  let den := one * Nat.pow 10 exponent.toNat
  let below := num / den
  let rest := num % den
  (⟨below, exponent⟩, ⟨below + 1, exponent⟩,
    den < 2 * rest || (2 * rest == den && below % 2 == 1))

/-- Of the decimals of `count` digits, the best that reads back. -/
def ofDigits? (rank count : Nat) : Option Decimal :=
  let (below, above, preferAbove) := neighbours rank count
  let (first, second) := if preferAbove then (above, below) else (below, above)
  if first.readsAs rank then some first else if second.readsAs rank then some second else none

/-- The shortest decimal that reads back as the positive magnitude at `rank`. Seventeen digits
are always enough; the exact value stands behind the search so that the answer reads back in any
case. -/
def shortest (rank : Nat) : Decimal :=
  match (List.range 17).findSome? fun k => ofDigits? rank (k + 1) with
  | some d => d.strip 400
  | none => ⟨magnitude rank * Nat.pow 5 1074, -1074⟩

/-- Digits from 0.0001 up to 16 places before the point are written out; all others get an
exponent of at least two digits. -/
def Decimal.text (d : Decimal) : String :=
  let digits := (toString d.digits).toList
  let count := digits.length
  let place := d.exponent + count
  if -4 < place ∧ place ≤ 16 then
    if place ≤ 0 then
      "0." ++ String.ofList (List.replicate (-place).toNat '0' ++ digits)
    else if (count : Int) ≤ place then
      String.ofList (digits ++ List.replicate (place - count).toNat '0') ++ ".0"
    else
      String.ofList (digits.take place.toNat) ++ "." ++ String.ofList (digits.drop place.toNat)
  else
    let power := place - 1
    let powerDigits := toString power.natAbs
    String.ofList (digits.take 1) ++ (if count ≤ 1 then "" else ".")
      ++ String.ofList (digits.drop 1) ++ "e" ++ (if power < 0 then "-" else "+")
      ++ (if power.natAbs < 10 then "0" else "") ++ powerDigits

/-- The text that reads back as the same number, always with a point or an exponent. -/
def text : Double → String
  | nan => "nan"
  | infinite negative => if negative then "-inf" else "inf"
  | finite negative rank =>
    (if negative then "-" else "") ++ if rank.val = 0 then "0.0" else (shortest rank).text

end PageScript.Double
