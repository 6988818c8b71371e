import PageScript.Number.Double
import PageScript.Text.Blank
import PageScript.Text.Digit
import PageScript.Text.Split

/-!
Reading numbers from text. A numeral may have blanks around it, a sign, digits of any script, and
single underscores between digits. Doubles are rounded once, from the exact value.
-/
namespace PageScript.Numeral
open Text

/-- The most digits an integer may have to be read from text or written as text. -/
def maxDigits : Nat := 4300

/-- What may stand around a numeral: white space, but not the separators of files and records. -/
def isMargin (c : Char) : Bool := isBlank c && !(0x1c ≤ c.toNat && c.toNat ≤ 0x1f)

/-- The text without the margin on either side. -/
def trim (cs : List Char) : List Char :=
  ((cs.dropWhile isMargin).reverse.dropWhile isMargin).reverse

/-- The digit values of a text that follows the character `previous`: every underscore stands
between two digits. -/
def digitsAfter (previous : Char) : List Char → Option (List Nat)
  | [] => if previous = '_' then none else some []
  | c :: cs =>
    if c = '_' then
      if (digitValue? previous).isSome then digitsAfter c cs else none
    else do
      let d ← digitValue? c
      return d :: (← digitsAfter c cs)

/-- The digit values of a whole text. -/
def digits? (cs : List Char) : Option (List Nat) := digitsAfter ' ' cs

/-- The number that a list of decimal digits stands for. -/
def ofDigits (ds : List Nat) : Nat := ds.foldl (fun n d => 10 * n + d) 0

/-- A sign at the front, as whether it is a minus, and what follows it. -/
def sign : List Char → Bool × List Char
  | '-' :: cs => (true, cs)
  | '+' :: cs => (false, cs)
  | cs => (false, cs)

/-- The integer that a text denotes, if it is an integer numeral of at most `maxDigits` digits. -/
def integer? (text : String) : Option Int := do
  let (negative, body) := sign (trim text.toList)
  let ds ← digits? body
  if ds.isEmpty || maxDigits < ds.length then none
  else
    let n := ofDigits ds
    return if negative then -(n : Int) else n

/-- The double nearest to plus or minus `mantissa * 10 ^ exponent`. Values far outside the range
are settled before any power is taken. -/
def scaled (negative : Bool) (mantissa : Nat) (exponent : Int) : Double :=
  if mantissa = 0 then .zero negative
  else if 310 < exponent then .infinite negative
  else if exponent + mantissa.log2 + 1 < -330 then .zero negative
  else
    .round negative (mantissa * Double.one * Nat.pow 10 exponent.toNat)
      (Nat.pow 10 (-exponent).toNat)

/-- An exponent: a sign and at least one digit. -/
def exponent? (cs : List Char) : Option Int := do
  let (negative, body) := sign cs
  let ds ← digits? body
  if ds.isEmpty then none else return if negative then -(ofDigits ds : Int) else ofDigits ds

/-- The double that a text denotes: digits with or without a point and an exponent, or a name of
infinity or of the number that is none, in any case of letters. -/
def double? (text : String) : Option Double := do
  let (negative, body) := sign (trim text.toList)
  let name := String.ofList (body.map Char.toLower)
  if name = "inf" || name = "infinity" then return .infinite negative
  if name = "nan" then return .nan
  let (mantissa, power) := cutAt (fun c => c == 'e' || c == 'E') body
  let exponent ← match power with
    | none => some 0
    | some cs => exponent? cs
  let (whole, fraction) := cutAt (· == '.') mantissa
  let whole ← digits? whole
  let fraction ← digits? (fraction.getD [])
  if whole.isEmpty && fraction.isEmpty then none
  else return scaled negative (ofDigits (whole ++ fraction)) (exponent - fraction.length)

end PageScript.Numeral
