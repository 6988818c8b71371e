import PageScript.Token

/-!
Lexemes: a source text cut, without gaps, into tokens and what stands between them (blanks, line
ends, comments). Each lexeme is as long as its kind allows. The tokens of a text are its lexemes
that are tokens, with the places where they begin, and an end of input.
-/
namespace PageScript

/-- A piece of the source: its characters, and the kind and text of the token that it is, if it is
one. -/
structure Lexeme where
  raw : List Char
  token? : Option (TokenKind × String)

/-- A place in the source, counted from one. -/
structure Position where
  line : Int
  column : Int
deriving DecidableEq

namespace Position

/-- The start of a text. -/
def start : Position := ⟨1, 1⟩

/-- The place after one character. Only a line feed ends a line. -/
def after (p : Position) (c : Char) : Position :=
  if c = '\n' then ⟨p.line + 1, 1⟩ else ⟨p.line, p.column + 1⟩

/-- The place after a text. -/
def afterAll (p : Position) (cs : List Char) : Position := cs.foldl after p

@[simp] theorem afterAll_nil (p : Position) : p.afterAll [] = p := rfl

@[simp] theorem afterAll_cons (p : Position) (c : Char) (cs : List Char) :
    p.afterAll (c :: cs) = (p.after c).afterAll cs := rfl

theorem afterAll_append (p : Position) (as bs : List Char) :
    p.afterAll (as ++ bs) = (p.afterAll as).afterAll bs := List.foldl_append ..

end Position

namespace Lexeme

/-- The signs of one character that begin no longer sign. -/
def singleSigns : List (Char × TokenKind) :=
  [('(', .leftParen), (')', .rightParen), ('\x7b', .leftBrace), ('\x7d', .rightBrace),
   ('[', .leftBracket), (']', .rightBracket), (',', .comma), ('.', .dot), (':', .colon),
   (';', .semicolon), ('+', .plus), ('*', .star), ('%', .percent), ('/', .slash),
   ('-', .minus), ('=', .assign), ('!', .notOp), ('<', .less), ('>', .greater)]

/-- The signs of two characters. -/
def doubleSigns : List ((Char × Char) × TokenKind) :=
  [(('\x7b', '\x7b'), .templateStart), (('\x7d', '\x7d'), .templateEnd), (('-', '>'), .arrow),
   (('=', '='), .equal), (('!', '='), .notEqual), (('<', '='), .lessEqual),
   (('>', '='), .greaterEqual)]

/-- The kind of the sign that two characters make together. -/
def doubleSign? (c : Char) : List Char → Option TokenKind
  | d :: _ => doubleSigns.lookup (c, d)
  | [] => none

/-- The text of a string that goes on with the given characters after its opening quote, and how
many of them belong to it, the closing quote included. A backslash before the delimiting quote
stands for the quote; any other backslash stands for itself. -/
def stringBody? (quote : Char) : List Char → Option (List Char × Nat)
  | [] => none
  | c :: cs =>
    if c = quote then some ([], 1)
    else
      match cs with
      | d :: ds =>
        if c = '\\' ∧ d = quote then (stringBody? quote ds).map fun (text, n) => (d :: text, n + 2)
        else (stringBody? quote (d :: ds)).map fun (text, n) => (c :: text, n + 1)
      | [] => none

/-- How many digits, and then a point with digits after it, stand at the start. -/
def numberLength (cs : List Char) : Nat :=
  let whole := (cs.takeWhile isDigit).length
  match cs.drop whole with
  | '.' :: rest =>
    match (rest.takeWhile isDigit).length with
    | 0 => whole
    | n => whole + 1 + n
  | _ => whole

/-- Whether a character separates tokens. -/
def isSpace (c : Char) : Bool := c == ' ' || c == '\t' || c == '\r' || c == '\n'

/-- The token that begins with `c` and may go on into `cs`, if one does, and how many characters of
`cs` belong to the lexeme. -/
def scan (c : Char) (cs : List Char) : Option (TokenKind × String) × Nat :=
  if isSpace c then (none, 0)
  else if c = '/' ∧ cs.head? = some '/' then (none, (cs.takeWhile (· ≠ '\n')).length)
  else
    match doubleSign? c cs with
    | some kind => (some (kind, String.ofList (c :: cs.take 1)), 1)
    | none =>
      match singleSigns.lookup c with
      | some kind => (some (kind, String.singleton c), 0)
      | none =>
        if isQuote c then
          match stringBody? c cs with
          | some (text, n) => (some (.string, String.ofList text), n)
          | none => (some (.error, String.ofList (c :: cs)), cs.length)
        else if isDigit c then
          let n := numberLength cs
          (some (.number, String.ofList (c :: cs.take n)), n)
        else if isIdentStart c then
          let n := (cs.takeWhile isIdentChar).length
          let word := String.ofList (c :: cs.take n)
          (some (.ofWord word, word), n)
        else (some (.error, String.singleton c), 0)

/-- All lexemes of a text. -/
def all : List Char → List Lexeme
  | [] => []
  | c :: cs => let (token?, more) := scan c cs; ⟨c :: cs.take more, token?⟩ :: all (cs.drop more)
termination_by cs => cs.length

/-- Nothing is lost and nothing is added. -/
theorem flatMap_raw_all (cs : List Char) : (all cs).flatMap Lexeme.raw = cs := by
  fun_induction all cs with
  | case1 => rfl
  | case2 c cs token? more h ih => simp [ih]

/-- The tokens among lexemes that begin at `p`. -/
def tokens (p : Position) : List Lexeme → List Token
  | [] => [⟨.endOfInput, "", p.line, p.column⟩]
  | lexeme :: rest =>
    let following := tokens (p.afterAll lexeme.raw) rest
    match lexeme.token? with
    | some (kind, text) => ⟨kind, text, p.line, p.column⟩ :: following
    | none => following

theorem exists_endOfInput (p : Position) (lexemes : List Lexeme) :
    ∃ t ∈ tokens p lexemes, t.kind = .endOfInput := by
  induction lexemes generalizing p with
  | nil => exact ⟨_, List.mem_singleton_self _, rfl⟩
  | cons lexeme rest ih =>
    obtain ⟨t, ht, hk⟩ := ih (p.afterAll lexeme.raw)
    refine ⟨t, ?_, hk⟩
    simp only [tokens]
    split
    · exact List.mem_cons_of_mem _ ht
    · exact ht

end Lexeme

/-- The tokens of a source text, the last of which is the end of input. -/
def Token.ofSource (source : String) : List Token :=
  Lexeme.tokens .start (Lexeme.all source.toList)

theorem Token.exists_endOfInput (source : String) :
    ∃ t ∈ Token.ofSource source, t.kind = .endOfInput := Lexeme.exists_endOfInput ..

end PageScript
