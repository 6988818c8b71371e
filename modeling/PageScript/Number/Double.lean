/-!
Double-precision numbers as exact data. A finite number is a sign and its rank in the order of
magnitudes. The rank fixes an exact count of units of `2 ^ (-1074)`, the smallest step there is, so
comparison, remainder and the exact result of every operation are integer arithmetic, and rounding
is one division.
-/
namespace PageScript

/-- How many magnitudes have one exponent. -/
abbrev Double.block : Nat := Nat.pow 2 52

/-- How many finite magnitudes there are: one block for each exponent. -/
abbrev Double.magnitudes : Nat := 2047 * Double.block

/-- A number in double precision. Zero has two signs; there is a single `nan`. -/
inductive Double where
  | nan
  | infinite (negative : Bool)
  | finite (negative : Bool) (rank : Fin Double.magnitudes)
deriving DecidableEq

namespace Double

/-- How many times the step between neighbours has been doubled at a rank. -/
def scale (rank : Nat) : Nat := rank / block - 1

/-- The magnitude at a rank in steps of its block: the first block counts from zero, all others
from the size of a block. -/
def significand (rank : Nat) : Nat := if rank < block then rank else block + rank % block

/-- The magnitude at a rank, in units. -/
def magnitude (rank : Nat) : Nat := significand rank * Nat.pow 2 (scale rank)

/-- How many units make one. -/
abbrev one : Nat := Nat.pow 2 1074

/-- The value of a finite number in units. -/
def units (negative : Bool) (rank : Nat) : Int :=
  if negative then -(magnitude rank : Int) else magnitude rank

/-- A zero of either sign. -/
def zero (negative : Bool) : Double := .finite negative ⟨0, by decide⟩

/-- The finite number with the given sign and rank, or infinity from the first rank that is too
large. -/
def ofRank (negative : Bool) (rank : Nat) : Double :=
  if h : rank < magnitudes then .finite negative ⟨rank, h⟩ else .infinite negative

/-- The rank nearest to `num / den` units, a tie going to the even rank. A quotient that rounds up
to the next block needs no care: the ranks of neighbouring blocks are consecutive. -/
def nearestRank (num den : Nat) : Nat :=
  let shift := (num / den).log2 - 52
  let step := den * Nat.pow 2 shift
  let below := num / step
  let rest := num % step
  let up := step < 2 * rest || (2 * rest == step && below % 2 == 1)
  shift * block + if up then below + 1 else below

/-- The number nearest to plus or minus `num / den` units. -/
def round (negative : Bool) (num den : Nat) : Double := ofRank negative (nearestRank num den)

/-- The number nearest to an integer; infinite if the integer is out of range. -/
def ofInt (n : Int) : Double := round (n < 0) (n.natAbs * one) 1

def isNegative : Double → Bool
  | nan => false
  | infinite negative => negative
  | finite negative _ => negative

def isInfinite : Double → Bool
  | infinite _ => true
  | _ => false

def isZero : Double → Bool
  | finite _ rank => rank.val == 0
  | _ => false

def neg : Double → Double
  | nan => nan
  | infinite negative => infinite !negative
  | finite negative rank => finite (!negative) rank

def abs : Double → Double
  | nan => nan
  | infinite _ => infinite false
  | finite _ rank => finite false rank

/-- A sum that is exactly zero is negative only if both terms are negative zeros. -/
def add : Double → Double → Double
  | finite s a, finite t b =>
    let sum := units s a + units t b
    if sum = 0 then zero (s && t) else round (sum < 0) sum.natAbs 1
  | infinite s, infinite t => if s = t then infinite s else nan
  | infinite s, finite _ _ => infinite s
  | finite _ _, infinite t => infinite t
  | _, _ => nan

def sub (a b : Double) : Double := add a b.neg

def mul : Double → Double → Double
  | finite s a, finite t b => round (s != t) (magnitude a * magnitude b) one
  | infinite s, infinite t => infinite (s != t)
  | infinite s, finite t b => if b.val = 0 then nan else infinite (s != t)
  | finite s a, infinite t => if a.val = 0 then nan else infinite (s != t)
  | _, _ => nan

/-- A quotient by zero is infinite, or not a number for a zero dividend. -/
def div : Double → Double → Double
  | finite s a, finite t b =>
    if b.val = 0 then if a.val = 0 then nan else infinite (s != t)
    else round (s != t) (magnitude a * one) (magnitude b)
  | infinite s, finite t _ => infinite (s != t)
  | finite s _, infinite t => zero (s != t)
  | _, _ => nan

/-- The remainder of the magnitudes; it is exact, because it is a whole number of the smaller
step. -/
def rem : Double → Double → Double
  | finite _ a, finite _ b => if b.val = 0 then nan else round false (magnitude a % magnitude b) 1
  | finite _ a, infinite _ => finite false a
  | _, _ => nan

/-- The integer that a number is equal to, if there is one. -/
def toInt? : Double → Option Int
  | finite negative rank =>
    if magnitude rank % one = 0 then some (units negative rank / one) else none
  | _ => none

/-- The integer that is left without the fraction; `none` if the number is infinite or none. -/
def truncate? : Double → Option Int
  | finite negative rank =>
    let whole : Int := (magnitude rank / one : Nat)
    some (if negative then -whole else whole)
  | _ => none

@[simp] theorem natAbs_units (negative : Bool) (rank : Nat) :
    (units negative rank).natAbs = magnitude rank := by
  cases negative <;> simp [units]

end Double
end PageScript
