import PageScript.Text.Utf8

/-!
Text as bytes whose encoding has to be found out from the bytes themselves: by a mark at the front,
or else by where the first characters, which are ASCII, have zeros.
-/
namespace PageScript.Text

/-- The width of a unit in bytes and whether its high byte comes first; UTF-8 has no order. -/
inductive Encoding where
  | utf8
  | utf16 (bigEndian : Bool)
  | utf32 (bigEndian : Bool)
deriving DecidableEq

namespace Encoding

/-- The encoding that a mark at the front announces, and how long the mark is. -/
def ofMark? : List UInt8 → Option (Encoding × Nat)
  | 0x00 :: 0x00 :: 0xfe :: 0xff :: _ => some (utf32 true, 4)
  | 0xff :: 0xfe :: 0x00 :: 0x00 :: _ => some (utf32 false, 4)
  | 0xfe :: 0xff :: _ => some (utf16 true, 2)
  | 0xff :: 0xfe :: _ => some (utf16 false, 2)
  | 0xef :: 0xbb :: 0xbf :: _ => some (utf8, 3)
  | _ => none

/-- The encoding that the zeros among the first bytes speak for. -/
def ofZeros : List UInt8 → Encoding
  | [a, b] => if a = 0 then utf16 true else if b = 0 then utf16 false else utf8
  | a :: b :: c :: d :: _ =>
    if a = 0 then if b = 0 then utf32 true else utf16 true
    else if b = 0 then if c = 0 ∧ d = 0 then utf32 false else utf16 false
    else utf8
  | _ => utf8

end Encoding

/-- The units of two bytes, if the bytes come out even. -/
def units16? (bigEndian : Bool) : List UInt8 → Option (List Nat)
  | [] => some []
  | a :: b :: rest =>
    let n := if bigEndian then a.toNat * 256 + b.toNat else b.toNat * 256 + a.toNat
    (units16? bigEndian rest).map (n :: ·)
  | [_] => none

/-- The code points of units of four bytes, if the bytes come out even and no unit is too large. -/
def units32? (bigEndian : Bool) : List UInt8 → Option (List Nat)
  | [] => some []
  | a :: b :: c :: d :: rest =>
    let high := if bigEndian then a.toNat * 256 + b.toNat else d.toNat * 256 + c.toNat
    let low := if bigEndian then c.toNat * 256 + d.toNat else b.toNat * 256 + a.toNat
    let n := high * 65536 + low
    if n < 0x110000 then (units32? bigEndian rest).map (n :: ·) else none
  | _ => none

/-- The characters of units of sixteen bits, where pairs of surrogates join. -/
def ofUnits : List Nat → List Char
  | [] => []
  | [unit] => [charOfCode unit]
  | high :: low :: rest =>
    if isHighSurrogate high && isLowSurrogate low then pairChar high low :: ofUnits rest
    else charOfCode high :: ofUnits (low :: rest)

/-- The characters of bytes in an encoding. -/
def decode? (encoding : Encoding) (bytes : List UInt8) : Option (List Char) :=
  match encoding with
  | .utf8 =>
    match codePoints true 0 bytes with
    | .ok points => some (points.map charOfCode)
    | .error _ => none
  | .utf16 bigEndian => (units16? bigEndian bytes).map ofUnits
  | .utf32 bigEndian => (units32? bigEndian bytes).map (·.map charOfCode)

/-- The characters of bytes in the encoding that they are found to be in. -/
def detect? (bytes : List UInt8) : Option (List Char) :=
  match Encoding.ofMark? bytes with
  | some (encoding, mark) => decode? encoding (bytes.drop mark)
  | none => decode? (Encoding.ofZeros bytes) bytes

end PageScript.Text
