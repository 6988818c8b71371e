import PageScript.Text.Units

/-!
Text as bytes in UTF-8.
-/
namespace PageScript.Text

def isContinuation (b : UInt8) : Bool := 0x80 ≤ b && b < 0xc0

/-- The six low bits of a continuation byte. -/
def payload (b : UInt8) : Nat := b.toNat % 64

/-- The code point of a sequence of two bytes. -/
def twoBytes? (a b : UInt8) : Option Nat :=
  if 0xc2 ≤ a ∧ a < 0xe0 ∧ isContinuation b then some (a.toNat % 32 * 64 + payload b) else none

/-- The code point of a sequence of three bytes; surrogates only if they are let pass. -/
def threeBytes? (surrogates : Bool) (a b c : UInt8) : Option Nat :=
  let n := a.toNat % 16 * 4096 + payload b * 64 + payload c
  if 0xe0 ≤ a ∧ a < 0xf0 ∧ isContinuation b ∧ isContinuation c ∧ 0x800 ≤ n
      ∧ (surrogates ∨ n < 0xd800 ∨ 0xe000 ≤ n) then some n
  else none

/-- The code point of a sequence of four bytes. -/
def fourBytes? (a b c d : UInt8) : Option Nat :=
  let n := a.toNat % 8 * 262144 + payload b * 4096 + payload c * 64 + payload d
  if 0xf0 ≤ a ∧ a < 0xf8 ∧ isContinuation b ∧ isContinuation c ∧ isContinuation d
      ∧ 0x10000 ≤ n ∧ n < 0x110000 then some n
  else none

/-- The code points of bytes that begin at `offset`, or where the first sequence begins that is
none. -/
def codePoints (surrogates : Bool) (offset : Nat) : List UInt8 → Except Nat (List Nat)
  | [] => .ok []
  | a :: rest =>
    if a < 0x80 then (codePoints surrogates (offset + 1) rest).map (a.toNat :: ·)
    else
      match rest with
      | [] => .error offset
      | b :: rest =>
        match twoBytes? a b with
        | some n => (codePoints surrogates (offset + 2) rest).map (n :: ·)
        | none =>
          match rest with
          | [] => .error offset
          | c :: rest =>
            match threeBytes? surrogates a b c with
            | some n => (codePoints surrogates (offset + 3) rest).map (n :: ·)
            | none =>
              match rest with
              | [] => .error offset
              | d :: rest =>
                match fourBytes? a b c d with
                | some n => (codePoints surrogates (offset + 4) rest).map (n :: ·)
                | none => .error offset

/-- The characters of bytes in UTF-8, or the offset of the first byte that is out of place. -/
def ofUtf8 (bytes : List UInt8) : Except Nat (List Char) :=
  (codePoints false 0 bytes).map (·.map charOfCode)

/-- Every end of a line as a line feed. -/
def normalizeEnds : List Char → List Char
  | [] => []
  | '\r' :: '\n' :: rest => '\n' :: normalizeEnds rest
  | '\r' :: rest => '\n' :: normalizeEnds rest
  | c :: rest => c :: normalizeEnds rest

end PageScript.Text
