/-!
Code units of sixteen bits: a character beyond the first 65536 code points takes two of them.
-/
namespace PageScript.Text

/-- The code units of one character. -/
def units (c : Char) : List Nat :=
  let n := c.toNat
  if n < 0x10000 then [n]
  else [0xd800 + (n - 0x10000) / 0x400, 0xdc00 + (n - 0x10000) % 0x400]

/-- How many code units a text takes. -/
def unitCount : List Char → Nat
  | [] => 0
  | c :: cs => (units c).length + unitCount cs

/-- The number of characters, counted from the start, that it takes to reach `target` code units;
all of them if there are fewer units. -/
def charsWithin : List Char → (target : Nat) → Nat
  | [], _ => 0
  | _, 0 => 0
  | c :: cs, target => 1 + charsWithin cs (target - (units c).length)

def isHighSurrogate (unit : Nat) : Bool := 0xd800 ≤ unit && unit < 0xdc00

def isLowSurrogate (unit : Nat) : Bool := 0xdc00 ≤ unit && unit < 0xe000

/-- The character that a pair of surrogates stands for. -/
def pairChar (high low : Nat) : Char :=
  Char.ofNat (0x10000 + (high - 0xd800) * 0x400 + (low - 0xdc00))

/-- The character of a code point; a surrogate, which is none, becomes the replacement character. So
texts that differ in surrogates alone are not told apart. -/
def charOfCode (n : Nat) : Char :=
  if isHighSurrogate n || isLowSurrogate n then '\ufffd' else Char.ofNat n

end PageScript.Text
