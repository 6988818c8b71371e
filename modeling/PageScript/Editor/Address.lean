import PageScript.Number.Numeral
import PageScript.Text.Split

/-!
Addresses of documents: a scheme, perhaps a host between two slashes and the path, and the path. An
address is readable unless its host is spoiled: brackets without a numeric address in them, or a
character that reads as a separator.
-/
namespace PageScript.Address

/-! ### Numeric hosts -/

def isHexDigit (c : Char) : Bool :=
  c.isDigit || ('a' ≤ c && c ≤ 'f') || ('A' ≤ c && c ≤ 'F')

/-- Whether a piece is a group: one to four hexadecimal digits. -/
def isGroup (piece : List Char) : Bool :=
  piece != [] && piece.length ≤ 4 && piece.all isHexDigit

/-- Whether a piece is one of the four numbers between points: up to 255, with no zero in front. -/
def isOctet (piece : List Char) : Bool :=
  piece != [] && piece.length ≤ 3 && piece.all Char.isDigit
    && (piece == ['0'] || piece.head? != some '0')
    && Numeral.ofDigits (piece.map (·.toNat - 0x30)) ≤ 255

/-- Four numbers between points. -/
def isDotted (piece : List Char) : Bool :=
  let octets := Text.pieces '.' piece
  octets.length == 4 && octets.all isOctet

/-- The pieces of a numeric address, the last of which may be four numbers between points; they
stand for two groups. -/
def undotted? (pieces : List (List Char)) : Option (List (List Char)) :=
  match pieces.getLast? with
  | none => some pieces
  | some last =>
    if !last.contains '.' then some pieces
    else if isDotted last then some (pieces.dropLast ++ [['0'], ['0']])
    else none

/-- The groups on one side of a gap. If there are none, the side is written as one empty piece. -/
def side (pieces : List (List Char)) : List (List Char) := if pieces = [[]] then [] else pieces

/-- Whether pieces are eight groups, or fewer with one gap: an empty piece that is neither the
first nor the last. -/
def fillsGroups : List (List Char) → Bool
  | [] => false
  | first :: rest =>
    let before := rest.dropLast.takeWhile (· != [])
    if before.length = rest.dropLast.length then
      rest.length == 7 && (first :: rest).all isGroup
    else
      let groups := side (first :: before) ++ side (rest.drop (before.length + 1))
      groups.length ≤ 7 && groups.all isGroup

/-- A numeric address, perhaps with a zone behind a percent sign. -/
def isGrouped (cs : List Char) : Bool :=
  let (address, zone) := Text.cutAt (· == '%') cs
  zone.all (fun name => name != [] && !name.contains '%')
    && (undotted? (Text.pieces ':' address)).any fillsGroups

/-- A numeric address of a later kind: the letter `v`, its version in hexadecimal digits, a point
and anything. -/
def isVersioned (cs : List Char) : Bool :=
  match cs with
  | 'v' :: rest =>
    match rest.takeWhile isHexDigit, rest.dropWhile isHexDigit with
    | _ :: _, '.' :: _ :: _ => true
    | _, _ => false
  | _ => false

/-! ### Hosts -/

/-- The characters that read as a slash, question mark, number sign, at sign or colon once their
styling is taken away. -/
def separatorLookalikes : List Nat :=
  [0x2047, 0x2048, 0x2049, 0x2100, 0x2101, 0x2105, 0x2106, 0x2a74, 0xfe13, 0xfe16, 0xfe55, 0xfe56,
    0xfe5f, 0xfe6b, 0xff03, 0xff0f, 0xff1a, 0xff1f, 0xff20]

/-- What stands between the first opening bracket and the next closing one. -/
def bracketed (host : List Char) : List Char :=
  ((Text.cutAt (· == '[') host).2.getD []).takeWhile (· != ']')

/-- Whether brackets come in both kinds, with a numeric address in them, or not at all. -/
def bracketsFit (host : List Char) : Bool :=
  match host.contains '[', host.contains ']' with
  | false, false => true
  | true, true => isGrouped (bracketed host) || isVersioned (bracketed host)
  | _, _ => false

/-- Whether a character may stand in the name of a scheme. -/
def isSchemeChar (c : Char) : Bool := c.isAlphanum || c == '+' || c == '-' || c == '.'

/-- What follows the scheme, a name that begins with a letter and ends at a colon. -/
def afterScheme (cs : List Char) : List Char :=
  match Text.cutAt (· == ':') cs with
  | (c :: name, some rest) => if c.isAlpha && name.all isSchemeChar then rest else cs
  | _ => cs

/-- The address without the controls and blanks in front of it, and without tabs and line ends. -/
def cleaned (cs : List Char) : List Char :=
  (cs.dropWhile (·.toNat ≤ 0x20)).filter fun c => c != '\t' && c != '\n' && c != '\r'

/-- The host of an address: what two slashes lead in, up to the next separator. -/
def host (address : String) : List Char :=
  match afterScheme (cleaned address.toList) with
  | '/' :: '/' :: rest => rest.takeWhile fun c => c != '/' && c != '?' && c != '#'
  | _ => []

/-- Whether an address can be taken apart. -/
def isReadable (address : String) : Bool :=
  bracketsFit (host address)
    && (host address).all fun c => !separatorLookalikes.contains c.toNat

end PageScript.Address
