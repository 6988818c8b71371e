import PageScript.Number.Numeral
import PageScript.Text.Utf8
import PageScript.Toml.Draft

/-!
Reading TOML text. Each reader takes what it reads from the front of a text and gives it with the
rest of the text. A document is read statement by statement, and reading stops at the first fault.
There is no limit to the nesting of arrays and tables, as there is none in `Json.read`.
-/
namespace PageScript.Toml

/-- Why a text is no document. -/
inductive Fault where
  | statement
  | lineEnd
  | headerEnd
  | key
  | equals
  | value
  | moment
  | control
  | escape
  | unterminated
  | unclosedArray
  | unclosedTable
  /-- A key or header for what already stands there. -/
  | conflict
  /-- A decimal integer of more than `Numeral.maxDigits` digits. -/
  | oversizedInteger
deriving DecidableEq

def Fault.message : Fault → String
  | statement => "Invalid statement"
  | lineEnd => "Expected the end of the line after a statement"
  | headerEnd => "Expected a closing bracket after a table name"
  | key => "Invalid key"
  | equals => "Expected '=' after a key"
  | value => "Invalid value"
  | moment => "Invalid date or time"
  | control => "Invalid control character"
  | escape => "Invalid escape in a string"
  | unterminated => "Unterminated string"
  | unclosedArray => "Unclosed array"
  | unclosedTable => "Unclosed inline table"
  | conflict => "Cannot overwrite a value"
  | oversizedInteger => "Integer too long"

/-! ### Blanks and comments -/

def isBlank (c : Char) : Bool := c == ' ' || c == '\t'

/-- Control characters, the tab apart. -/
def isControl (c : Char) : Bool := (c.toNat < 0x20 && c != '\t') || c.toNat == 0x7f

def skipBlanks (cs : List Char) : List Char := cs.dropWhile isBlank

/-- Passes over a comment, if one stands at the front, up to the end of the line. -/
def skipComment : List Char → Except Fault (List Char)
  | '#' :: cs =>
    if (cs.takeWhile (· ≠ '\n')).any isControl then .error .control
    else .ok (cs.dropWhile (· ≠ '\n'))
  | cs => .ok cs

/-- Passes over blanks, ends of lines and comments; `inside` says whether a comment goes on. -/
def skipGap (inside : Bool) : List Char → Except Fault (List Char)
  | [] => .ok []
  | c :: cs =>
    if c = '\n' then skipGap false cs
    else if inside then if isControl c then .error .control else skipGap true cs
    else if isBlank c then skipGap false cs
    else if c = '#' then skipGap true cs
    else .ok (c :: cs)

/-! ### Strings -/

/-- A text as it stands, up to a single quote. -/
def literalString (cs : List Char) : Except Fault (String × List Char) :=
  let text := cs.takeWhile (· ≠ '\'')
  match cs.dropWhile (· ≠ '\'') with
  | [] => .error .unterminated
  | _ :: rest => if text.any isControl then .error .control else .ok (String.ofList text, rest)

/-- A text as it stands, up to three quotes. -/
def longLiteral : List Char → Except Fault (List Char × List Char)
  | '\'' :: '\'' :: '\'' :: rest => .ok ([], rest)
  | [] => .error .unterminated
  | c :: cs =>
    match longLiteral cs with
    | .ok (text, rest) =>
      if isControl c ∧ c ≠ '\n' then .error .control else .ok (c :: text, rest)
    | .error fault => .error fault

/-- The value of a hexadecimal digit. -/
def hexDigit? (c : Char) : Option Nat :=
  if c.isDigit then some (c.toNat - 0x30)
  else if 'a' ≤ c ∧ c ≤ 'f' then some (c.toNat - 0x61 + 10)
  else if 'A' ≤ c ∧ c ≤ 'F' then some (c.toNat - 0x41 + 10)
  else none

/-- The character that hexadecimal digits denote, if they denote one. -/
def hexChar? (digits : List Char) : Option Char := do
  let ds ← digits.mapM hexDigit?
  let n := ds.foldl (fun n d => 16 * n + d) 0
  if n < 0xd800 ∨ (0xe000 ≤ n ∧ n < 0x110000) then some (Char.ofNat n) else none

/-- The characters that single letters denote after a backslash. -/
def escapes : List (Char × Char) :=
  [('b', '\x08'), ('t', '\t'), ('n', '\n'), ('f', '\x0c'), ('r', '\r'), ('"', '"'), ('\\', '\\')]

/-- What is passed over inside a text of several lines. -/
inductive Skipping where
  | nothing
  /-- Blanks between a backslash and the end of its line. -/
  | lineEnd
  /-- Blanks and ends of lines, up to the next other character. -/
  | margin
deriving DecidableEq

/-- A text with escapes, up to its closing quote, or three of them if it is `long`. -/
def basicText (long : Bool) (skipping : Skipping) :
    List Char → Except Fault (List Char × List Char)
  | [] => .error .unterminated
  | c :: cs =>
    if skipping = .lineEnd then
      if isBlank c then basicText long .lineEnd cs
      else if c = '\n' then basicText long .margin cs
      else .error .escape
    else if skipping = .margin ∧ (isBlank c ∨ c = '\n') then basicText long .margin cs
    else
      let put (c : Char) (rest : Except Fault (List Char × List Char)) :=
        rest.map fun (text, rest) => (c :: text, rest)
      match c, cs with
      | '"', '"' :: '"' :: rest =>
        if long then .ok ([], rest) else .ok ([], '"' :: '"' :: rest)
      | '"', rest => if long then put '"' (basicText long .nothing rest) else .ok ([], rest)
      | '\\', 'u' :: d₁ :: d₂ :: d₃ :: d₄ :: rest =>
        match hexChar? [d₁, d₂, d₃, d₄] with
        | some c => put c (basicText long .nothing rest)
        | none => .error .escape
      | '\\', 'U' :: d₁ :: d₂ :: d₃ :: d₄ :: d₅ :: d₆ :: d₇ :: d₈ :: rest =>
        match hexChar? [d₁, d₂, d₃, d₄, d₅, d₆, d₇, d₈] with
        | some c => put c (basicText long .nothing rest)
        | none => .error .escape
      | '\\', d :: rest =>
        if long ∧ isBlank d then basicText long .lineEnd rest
        else if long ∧ d = '\n' then basicText long .margin rest
        else
          match escapes.lookup d with
          | some c => put c (basicText long .nothing rest)
          | none => .error .escape
      | '\\', [] => .error .escape
      | c, rest =>
        if isControl c ∧ ¬(long ∧ c = '\n') then .error .control
        else put c (basicText long .nothing rest)

/-- A text of several lines may end with up to two quotes of its own before the closing ones, and a
line end right after the opening ones does not belong to it. -/
def longString (quote : Char) (cs : List Char) : Except Fault (String × List Char) := do
  let body := match cs with | '\n' :: rest => rest | _ => cs
  let (text, rest) ← if quote = '"' then basicText true .nothing body else longLiteral body
  let more := (rest.take 2).takeWhile (· = quote)
  return (String.ofList (text ++ more), rest.drop more.length)

def basicString (cs : List Char) : Except Fault (String × List Char) :=
  (basicText false .nothing cs).map fun (text, rest) => (String.ofList text, rest)

/-! ### Keys -/

def isKeyChar (c : Char) : Bool := c.isAlphanum || c == '-' || c == '_'

/-- A part of a key: bare, or a string in one line. -/
def keyPart : List Char → Except Fault (String × List Char)
  | '\'' :: cs => literalString cs
  | '"' :: cs => basicString cs
  | cs =>
    match cs.takeWhile isKeyChar with
    | [] => .error .key
    | name => .ok (String.ofList name, cs.dropWhile isKeyChar)

/-- The parts of a dotted key, the last one apart from those before it. -/
def keyParts : (fuel : Nat) → List Char → Except Fault (Key × List Char)
  | 0, _ => .error .key
  | fuel + 1, cs => do
    let (name, rest) ← keyPart cs
    match skipBlanks rest with
    | '.' :: rest =>
      let ((path, last), rest) ← keyParts fuel (skipBlanks rest)
      return ((name :: path, last), rest)
    | rest => return (([], name), rest)

/-- A dotted key and the blanks after it. -/
def key (cs : List Char) : Except Fault (Key × List Char) := keyParts (cs.length + 1) cs

/-! ### Numbers -/

/-- How many characters go on with digits, single underscores allowed between two of them. -/
def moreDigits (p : Char → Bool) : List Char → Nat
  | '_' :: c :: cs => if p c then moreDigits p cs + 2 else 0
  | c :: cs => if p c then moreDigits p cs + 1 else 0
  | [] => 0

/-- How many characters at the front are digits, underscores allowed between them. -/
def digitRun (p : Char → Bool) : List Char → Nat
  | c :: cs => if p c then moreDigits p cs + 1 else 0
  | [] => 0

/-- The bases of integers, with the letters that mark them. -/
def bases : List (Char × Nat) := [('x', 16), ('o', 8), ('b', 2)]

/-- An integer in a base that a letter marks, with its length. -/
def markedInteger? : List Char → Option (Int × Nat)
  | '0' :: mark :: cs => do
    let base ← bases.lookup mark
    let n := digitRun (fun c => (hexDigit? c).any (· < base)) cs
    if n = 0 then none
    let ds := (cs.take n).filterMap hexDigit?
    return (((ds.foldl (fun n d => base * n + d) 0 : Nat) : Int), n + 2)
  | _ => none

/-- The length of a sign at the front. -/
def signLength : List Char → Nat
  | '+' :: _ | '-' :: _ => 1
  | _ => 0

/-- The lengths of a decimal number's whole part with its sign, fraction and exponent; the whole
part has no zeros before other digits, and without it there is no number. -/
def decimalLengths (cs : List Char) : Nat × Nat × Nat :=
  let sign := signLength cs
  let whole :=
    match cs.drop sign with
    | '0' :: _ => 1
    | digits => digitRun Char.isDigit digits
  if whole = 0 then (0, 0, 0)
  else
    let fraction :=
      match cs.drop (sign + whole) with
      | '.' :: digits => match digitRun Char.isDigit digits with | 0 => 0 | n => n + 1
      | _ => 0
    let exponent :=
      match cs.drop (sign + whole + fraction) with
      | c :: rest =>
        if c = 'e' ∨ c = 'E' then
          match digitRun Char.isDigit (rest.drop (signLength rest)) with
          | 0 => 0
          | n => n + 1 + signLength rest
        else 0
      | [] => 0
    (sign + whole, fraction, exponent)

/-- The doubles with names. -/
def namedDoubles : List (String × Double) :=
  [("inf", .infinite false), ("+inf", .infinite false), ("-inf", .infinite true), ("nan", .nan),
   ("+nan", .nan), ("-nan", .nan)]

/-- A number. -/
def number (cs : List Char) : Except Fault (Toml × List Char) :=
  match markedInteger? cs with
  | some (n, length) => .ok (.integer n, cs.drop length)
  | none =>
    let (whole, fraction, exponent) := decimalLengths cs
    let length := whole + fraction + exponent
    let text := String.ofList (cs.take length)
    if whole = 0 then
      match namedDoubles.find? fun entry => entry.1.toList.isPrefixOf cs with
      | some (name, d) => .ok (.double d, cs.drop name.length)
      | none => .error .value
    else if fraction + exponent = 0 then
      match Numeral.integer? text with
      | some n => .ok (.integer n, cs.drop length)
      | none => .error .oversizedInteger
    else
      match Numeral.double? text with
      | some d => .ok (.double d, cs.drop length)
      | none => .error .value

/-! ### Dates and times -/

/-- The number that two digits denote, if it lies between two bounds. -/
def twoDigits? (low high : Nat) (a b : Char) : Option Nat :=
  if a.isDigit ∧ b.isDigit then
    let n := 10 * (a.toNat - 0x30) + (b.toNat - 0x30)
    if low ≤ n ∧ n ≤ high then some n else none
  else none

/-- The microseconds that the digits after a point denote; further places are cut off. -/
def microseconds (digits : List Char) : Nat :=
  ((digits ++ List.replicate 6 '0').take 6).foldl (fun n c => 10 * n + (c.toNat - 0x30)) 0

/-- A time of day at the front of a text. -/
def time? : List Char → Option (TimeOfDay × List Char)
  | h₁ :: h₂ :: ':' :: m₁ :: m₂ :: ':' :: s₁ :: s₂ :: rest => do
    let hour ← twoDigits? 0 23 h₁ h₂
    let minute ← twoDigits? 0 59 m₁ m₂
    let second ← twoDigits? 0 59 s₁ s₂
    match rest with
    | '.' :: cs =>
      match cs.takeWhile Char.isDigit with
      | [] => return (⟨hour, minute, second, 0⟩, rest)
      | digits =>
        return (⟨hour, minute, second, microseconds digits⟩, cs.dropWhile Char.isDigit)
    | _ => return (⟨hour, minute, second, 0⟩, rest)
  | _ => none

/-- A distance from universal time at the front of a text, in minutes. -/
def offset? : List Char → Option (Int × List Char)
  | 'Z' :: rest | 'z' :: rest => some (0, rest)
  | sign :: h₁ :: h₂ :: ':' :: m₁ :: m₂ :: rest => do
    let hours ← twoDigits? 0 23 h₁ h₂
    let minutes ← twoDigits? 0 59 m₁ m₂
    let n : Nat := 60 * hours + minutes
    if sign = '+' then some ((n : Int), rest)
    else if sign = '-' then some (-(n : Int), rest)
    else none
  | _ => none

/-- A date at the front of a text. Not every month has so many days. -/
def date? : List Char → Option (Date × List Char)
  | y₁ :: y₂ :: y₃ :: y₄ :: '-' :: m₁ :: m₂ :: '-' :: d₁ :: d₂ :: rest => do
    let century ← twoDigits? 0 99 y₁ y₂
    let year ← twoDigits? 0 99 y₃ y₄
    let month ← twoDigits? 1 12 m₁ m₂
    let day ← twoDigits? 1 31 d₁ d₂
    return (⟨100 * century + year, month, day⟩, rest)
  | _ => none

/-- The time and the distance from universal time that go on after a date. -/
def timeAfterDate? : List Char → Option (TimeOfDay × Option Int × List Char)
  | c :: cs =>
    if c = 'T' ∨ c = 't' ∨ c = ' ' then do
      let (time, rest) ← time? cs
      match offset? rest with
      | some (offset, rest) => return (time, some offset, rest)
      | none => return (time, none, rest)
    else none
  | [] => none

/-- A date, a time, or both at the front of a text; `none` if neither stands there. -/
def moment? (cs : List Char) : Option (Except Fault (Moment × List Char)) :=
  match date? cs with
  | some (date, rest) =>
    some <|
      if !date.isReal then .error .moment
      else
        match timeAfterDate? rest with
        | some (time, offset, rest) => .ok (.dateTime date time offset, rest)
        | none => .ok (.date date, rest)
  | none => (time? cs).map fun (time, rest) => .ok (.time time, rest)

/-! ### Values -/

/-- A value that holds no others. -/
def scalar (cs : List Char) : Except Fault (Toml × List Char) :=
  match cs with
  | '"' :: '"' :: '"' :: rest => (longString '"' rest).map fun (s, rest) => (.string s, rest)
  | '"' :: rest => (basicString rest).map fun (s, rest) => (.string s, rest)
  | '\'' :: '\'' :: '\'' :: rest => (longString '\'' rest).map fun (s, rest) => (.string s, rest)
  | '\'' :: rest => (literalString rest).map fun (s, rest) => (.string s, rest)
  | 't' :: 'r' :: 'u' :: 'e' :: rest => .ok (.bool true, rest)
  | 'f' :: 'a' :: 'l' :: 's' :: 'e' :: rest => .ok (.bool false, rest)
  | _ =>
    match moment? cs with
    | some read => read.map fun (m, rest) => (.moment m, rest)
    | none => number cs

mutual

/-- A value. The fuel bounds the characters of arrays and inline tables that are read. -/
def value : (fuel : Nat) → List Char → Except Fault (Toml × List Char)
  | 0, _ => .error .value
  | fuel + 1, '[' :: cs => do
    match ← skipGap false cs with
    | ']' :: rest => return (.array [], rest)
    | rest =>
      let (items, rest) ← values fuel rest
      return (.array items, rest)
  | fuel + 1, '\x7b' :: cs =>
    match skipBlanks cs with
    | '\x7d' :: rest => .ok (.table [], rest)
    | rest => entries fuel [] rest
  | _ + 1, cs => scalar cs

/-- The items of an array up to its end; a comma may follow the last one. -/
def values : (fuel : Nat) → List Char → Except Fault (List Toml × List Char)
  | 0, _ => .error .value
  | fuel + 1, cs => do
    let (item, rest) ← value fuel cs
    match ← skipGap false rest with
    | ']' :: rest => return ([item], rest)
    | ',' :: rest =>
      match ← skipGap false rest with
      | ']' :: rest => return ([item], rest)
      | rest =>
        let (items, rest) ← values fuel rest
        return (item :: items, rest)
    | _ => throw .unclosedArray

/-- The entries of an inline table up to its end, added to those before them. -/
def entries : (fuel : Nat) → Draft → List Char → Except Fault (Toml × List Char)
  | 0, _, _ => .error .value
  | fuel + 1, draft, cs => do
    let ((path, name), v, rest) ← pair fuel cs
    match draft.assign 0 v path name with
    | none => throw .conflict
    | some draft =>
      match skipBlanks rest with
      | '\x7d' :: rest => return (.table (finishEntries draft), rest)
      | ',' :: rest => entries fuel draft (skipBlanks rest)
      | _ => throw .unclosedTable

/-- A key and the value that is given to it. -/
def pair : (fuel : Nat) → List Char → Except Fault (Key × Toml × List Char)
  | 0, _ => .error .value
  | fuel + 1, cs => do
    let (key, rest) ← key cs
    match rest with
    | '=' :: rest =>
      let (v, rest) ← value fuel (skipBlanks rest)
      return (key, v, rest)
    | _ => throw .equals

end

/-! ### Documents -/

/-- A document as far as it is read: its tables, the path of the table that is open, and how many
headers there were. -/
structure Progress where
  draft : Draft
  path : List String
  part : Nat

/-- After a header, if it was allowed. -/
def Progress.opened (p : Progress) (path : List String) : Option Draft → Except Fault Progress
  | some draft => .ok ⟨draft, path, p.part + 1⟩
  | none => .error .conflict

/-- A header behind its brackets: the key, and `closing` after it. -/
def header (closing : List Char) (cs : List Char) : Except Fault (Key × List Char) := do
  let (key, rest) ← key (skipBlanks cs)
  if closing.isPrefixOf rest then return (key, rest.drop closing.length) else throw .headerEnd

/-- One statement at the front of a text: a header, or a value for a key. -/
def statement (p : Progress) (cs : List Char) : Except Fault (Progress × List Char) :=
  match cs with
  | '[' :: '[' :: rest => do
    let ((path, name), rest) ← header [']', ']'] rest
    return (← p.opened (path ++ [name]) (p.draft.append path name), rest)
  | '[' :: rest => do
    let ((path, name), rest) ← header [']'] rest
    return (← p.opened (path ++ [name]) (p.draft.declare path name), rest)
  | c :: _ =>
    if isKeyChar c ∨ c = '"' ∨ c = '\'' then do
      let ((path, name), v, rest) ← pair (2 * cs.length + 2) cs
      match p.draft.within (·.assign p.part v path name) p.path with
      | some draft => return ({ p with draft }, rest)
      | none => throw .conflict
    else if c = '#' then .ok (p, cs)
    else .error .statement
  | [] => .ok (p, [])

/-- Reads all statements. A fault comes with the text from the statement on that it is in. -/
def statements : (fuel : Nat) → Progress → List Char → Except (Fault × List Char) Progress
  | 0, p, _ => .ok p
  | fuel + 1, p, cs =>
    match skipBlanks cs with
    | [] => .ok p
    | '\n' :: rest => statements fuel p rest
    | cs =>
      match statement p cs with
      | .error fault => .error (fault, cs)
      | .ok (p, rest) =>
        match skipComment (skipBlanks rest) with
        | .error fault => .error (fault, cs)
        | .ok [] => .ok p
        | .ok ('\n' :: rest) => statements fuel p rest
        | .ok _ => .error (.lineEnd, cs)

/-- A fault and the line on which its statement begins. -/
structure ReadError where
  fault : Fault
  line : Nat
deriving DecidableEq

def ReadError.message (e : ReadError) : String :=
  e.fault.message ++ " (at line " ++ toString e.line ++ ")"

/-- Every pair of a carriage return and a line feed as a line feed. -/
def joinEnds : List Char → List Char
  | '\r' :: '\n' :: rest => '\n' :: joinEnds rest
  | c :: rest => c :: joinEnds rest
  | [] => []

/-- The table that a text stands for. -/
def read (text : List Char) : Except ReadError (Fields Toml) :=
  let cs := joinEnds text
  match statements (cs.length + 1) ⟨[], [], 0⟩ cs with
  | .ok p => .ok (finishEntries p.draft)
  | .error (fault, rest) =>
    .error ⟨fault, 1 + (cs.take (cs.length - rest.length)).count '\n'⟩

end PageScript.Toml
