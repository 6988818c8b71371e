import PageScript.Json
import PageScript.Text.Encoding

/-!
Reading plain data from JSON text. The text is first cut into lexemes, each as long as possible;
then one pass over the lexemes keeps the open arrays and objects on a stack. Errors are met in the
order of the text, so an integer with too many digits is reported only if nothing before it is
malformed. Arrays and objects may be nested as deeply as they like: that a stack may run out is left
out.
-/
namespace PageScript.Json

/-- Why a text is no data. -/
inductive ReadError where
  | malformed
  /-- An integer of more than `Numeral.maxDigits` digits. -/
  | oversizedInteger
deriving DecidableEq

/-- A piece of JSON text. -/
inductive Lexeme where
  | beginArray
  | endArray
  | beginObject
  | endObject
  | colon
  | comma
  /-- A number or a name, with what it stands for. -/
  | scalar (value : Json)
  | text (value : String)
  | blank
  | wrong (error : ReadError)

namespace Lexeme

/-- How many characters follow the opening quote of a string, up to and with the closing one. -/
def stringLength? : List Char → Option Nat
  | [] => none
  | '"' :: _ => some 1
  | '\\' :: _ :: cs => (stringLength? cs).map (· + 2)
  | _ :: cs => (stringLength? cs).map (· + 1)

/-- The value of four hexadecimal digits. -/
def hexDigits? (a b c d : Char) : Option Nat := do
  let digit (c : Char) : Option Nat :=
    if c.isDigit then some (c.toNat - 0x30)
    else if 'a' ≤ c ∧ c ≤ 'f' then some (c.toNat - 0x61 + 10)
    else if 'A' ≤ c ∧ c ≤ 'F' then some (c.toNat - 0x41 + 10)
    else none
  return (← digit a) * 4096 + (← digit b) * 256 + (← digit c) * 16 + (← digit d)

/-- The code units of the inside of a string, or code points beyond them: the halves of a pair may
be escaped one by one. -/
def unescape? : List Char → Option (List Nat)
  | [] => some []
  | '\\' :: 'u' :: a :: b :: c :: d :: cs => do
    let unit ← hexDigits? a b c d
    return unit :: (← unescape? cs)
  | '\\' :: c :: cs => do
    let plain ← match c with
      | '"' => some 0x22 | '\\' => some 0x5c | '/' => some 0x2f | 'b' => some 8 | 'f' => some 12
      | 'n' => some 10 | 'r' => some 13 | 't' => some 9 | _ => none
    return plain :: (← unescape? cs)
  | c :: cs => do
    if c.toNat < 0x20 ∨ c = '\\' then none
    return c.toNat :: (← unescape? cs)

/-- How many digits stand at the front. -/
def digitCount (cs : List Char) : Nat := (cs.takeWhile Char.isDigit).length

/-- The length of a fraction: a point and at least one digit. -/
def fractionLength : List Char → Nat
  | '.' :: cs => match digitCount cs with | 0 => 0 | n => n + 1
  | _ => 0

/-- The length of an exponent: a letter, perhaps a sign, and at least one digit. -/
def exponentLength : List Char → Nat
  | c :: cs =>
    if c = 'e' ∨ c = 'E' then
      let sign := match cs with | '+' :: _ => 1 | '-' :: _ => 1 | _ => 0
      match digitCount (cs.drop sign) with | 0 => 0 | n => n + sign + 1
    else 0
  | [] => 0

/-- The number that begins with the digit `first` and goes on with `cs`, and how many characters of
`cs` belong to it. A zero is never followed by digits of the same number. -/
def number (negative : Bool) (first : Char) (cs : List Char) : Lexeme × Nat :=
  let whole := if first = '0' then 0 else digitCount cs
  let fraction := fractionLength (cs.drop whole)
  let exponent := exponentLength (cs.drop (whole + fraction))
  let total := whole + fraction + exponent
  let text := String.ofList ((if negative then ['-', first] else [first]) ++ cs.take total)
  let lexeme :=
    if fraction + exponent = 0 then
      match Numeral.integer? text with
      | some n => .scalar (.int n)
      | none => .wrong .oversizedInteger
    else
      match Numeral.double? text with
      | some d => .scalar (.number (.double d))
      | none => .wrong .malformed
  (lexeme, total)

/-- The names that stand for data, with what they stand for. -/
def names : List (String × Json) :=
  [("null", .null), ("true", .bool true), ("false", .bool false),
   ("NaN", .number (.double .nan)), ("Infinity", .number (.double (.infinite false))),
   ("-Infinity", .number (.double (.infinite true)))]

/-- The name that a text begins with. -/
def name? (cs : List Char) : Option (Lexeme × Nat) :=
  (names.find? fun entry => entry.1.toList.isPrefixOf cs).map fun entry =>
    (.scalar entry.2, entry.1.length - 1)

/-- The lexeme at the start of a text, and how many characters it has after the first. -/
def scan (c : Char) (cs : List Char) : Lexeme × Nat :=
  match c with
  | '[' => (.beginArray, 0)
  | ']' => (.endArray, 0)
  | '\x7b' => (.beginObject, 0)
  | '\x7d' => (.endObject, 0)
  | ':' => (.colon, 0)
  | ',' => (.comma, 0)
  | ' ' | '\t' | '\n' | '\r' => (.blank, 0)
  | '"' =>
    match stringLength? cs with
    | none => (.wrong .malformed, 0)
    | some n =>
      match unescape? (cs.take (n - 1)) with
      | some units => (.text (String.ofList (Text.ofUnits units)), n)
      | none => (.wrong .malformed, n)
  | _ =>
    if c.isDigit then number false c cs
    else
      match name? (c :: cs) with
      | some found => found
      | none =>
        match c, cs with
        | '-', d :: ds =>
          if d.isDigit then (number true d ds).map id (· + 1) else (.wrong .malformed, 0)
        | _, _ => (.wrong .malformed, 0)

/-- All lexemes of a text. -/
def all : List Char → List Lexeme
  | [] => []
  | c :: cs => let (lexeme, more) := scan c cs; lexeme :: all (cs.drop more)
termination_by cs => cs.length

end Lexeme

/-- An array or object that is still open: what stood in it before, latest first, and for an object
the key whose value is being read. -/
inductive Open where
  | array (items : List Json)
  | object (entries : List (String × Json)) (key : String)

/-- What may come next. -/
inductive Expecting where
  | value
  | valueOrEnd
  | keyOrEnd
  | key (entries : List (String × Json))
  | colon (entries : List (String × Json)) (key : String)
  /-- A comma, an end, or nothing more at the outermost level. -/
  | after (value : Json)

/-- Reads one lexeme: what may follow it and which arrays and objects are open then. -/
def step (expecting : Expecting) (stack : List Open) (lexeme : Lexeme) :
    Except ReadError (Expecting × List Open) :=
  match expecting, lexeme, stack with
  | _, .blank, _ => .ok (expecting, stack)
  | .value, .scalar v, _ | .valueOrEnd, .scalar v, _ => .ok (.after v, stack)
  | .value, .text s, _ | .valueOrEnd, .text s, _ => .ok (.after (.string s), stack)
  | .value, .beginArray, _ | .valueOrEnd, .beginArray, _ => .ok (.valueOrEnd, .array [] :: stack)
  | .value, .beginObject, _ | .valueOrEnd, .beginObject, _ => .ok (.keyOrEnd, stack)
  | .value, .wrong e, _ | .valueOrEnd, .wrong e, _ => .error e
  | .valueOrEnd, .endArray, .array items :: rest => .ok (.after (.array items.reverse), rest)
  | .keyOrEnd, .endObject, _ => .ok (.after (.object []), stack)
  | .keyOrEnd, .text key, _ => .ok (.colon [] key, stack)
  | .key entries, .text key, _ => .ok (.colon entries key, stack)
  | .colon entries key, .colon, _ => .ok (.value, .object entries key :: stack)
  | .after v, .comma, .array items :: rest => .ok (.value, .array (v :: items) :: rest)
  | .after v, .endArray, .array items :: rest =>
    .ok (.after (.array (v :: items).reverse), rest)
  | .after v, .comma, .object entries key :: rest => .ok (.key ((key, v) :: entries), rest)
  | .after v, .endObject, .object entries key :: rest =>
    .ok (.after (.object (Fields.ofList ((key, v) :: entries).reverse)), rest)
  | _, _, _ => .error .malformed

/-- Reads all lexemes in order. -/
def run (expecting : Expecting) (stack : List Open) : List Lexeme → Except ReadError Json
  | [] =>
    match expecting, stack with
    | .after v, [] => .ok v
    | _, _ => .error .malformed
  | lexeme :: rest =>
    match step expecting stack lexeme with
    | .ok (next, stack) => run next stack rest
    | .error e => .error e

/-- The data that a text stands for. Of entries with one key the first gives the place and the last
the value. -/
def read (text : List Char) : Except ReadError Json := run .value [] (Lexeme.all text)

/-- The data that bytes stand for, in whatever encoding. -/
def ofBytes (bytes : List UInt8) : Except ReadError Json :=
  match Text.detect? bytes with
  | some text => read text
  | none => .error .malformed

end PageScript.Json
