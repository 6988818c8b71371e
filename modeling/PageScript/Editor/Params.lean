import PageScript.Editor.Toolkit
import PageScript.Json.Inline
import PageScript.Node.Record

/-!
The parameters of requests. A field of the wrong kind is taken for what was meant wherever that can
be told: a number in the place of a text is its text, a text in the place of a number is the numeral
it holds. Only what makes no sense, or is missing, does not fit.
-/
namespace PageScript.Params

/-! ### Fields -/

/-- The largest number that editors send. -/
def maxInteger : Int := 0x7fffffff

/-- The integer that data stands for: a double without its fraction, a truth value as zero or one,
a text as the numeral that it is. -/
def whole? : Json → Option Int
  | .number (.integer n) => some n
  | .number (.double d) => d.truncate?
  | .bool value => some (if value then 1 else 0)
  | .string s => Numeral.integer? s
  | .null | .array _ | .object _ => none

/-- An integer in the range that editors use. -/
def integer? (j : Json) : Option Int := do
  let n ← whole? j
  if -maxInteger - 1 ≤ n ∧ n ≤ maxInteger then some n else none

/-- A number of lines or characters. -/
def count? (j : Json) : Option Int := do
  let n ← integer? j
  if 0 ≤ n then some n else none

/-- What data is a list of: the items of an array, the names in an object, or the characters of a
text. -/
def items? : Json → Option (List Json)
  | .array items => some items
  | .object entries => some (entries.map fun entry => .string entry.1)
  | .string s => some (s.toList.map fun c => .string c.toString)
  | .null | .bool _ | .number _ => none

def place? (j : Json) : Option Mark := do
  return ⟨← count? (← j.get? "line"), ← count? (← j.get? "character")⟩

def uri? (j : Json) : Option String := (j.get? "uri").map Json.text

/-! ### Requests -/

/-- The address of the document that a request is about. -/
def subject? (params : Json) : Option String := do uri? (← params.get? "textDocument")

/-- The document that is opened, and its address. -/
def opened? (params : Json) : Option (String × Document) := do
  let item ← params.get? "textDocument"
  let uri ← uri? item
  let language ← Literal.ofRecord? (← item.get? "languageId")
  let version ← integer? (← item.get? "version")
  let text ← item.get? "text"
  return (uri, ⟨text.text, version, language⟩)

/-- Whether a change says as it should what stretch it is meant for, if it says so at all. The
length of the stretch may be left out or be null. -/
def stretchFits (change : Json) : Bool :=
  match change.get? "range" with
  | none => true
  | some range =>
    ((range.get? "start").bind place?).isSome && ((range.get? "end").bind place?).isSome
      && match change.get? "rangeLength" with
        | none | some .null => true
        | some length => (count? length).isSome

/-- The new text of a change, whatever the stretch. A literal in the place of a change is let
through, but it has no text. -/
def change? : Json → Option (Option String)
  | .array _ => none
  | .object entries =>
    if stretchFits (.object entries) then (Fields.get? entries "text").map fun j => some j.text
    else none
  | _ => some none

/-- A list of changes to a document: address, version and new texts. -/
def changed? (params : Json) : Option (String × Int × List (Option String)) := do
  let item ← params.get? "textDocument"
  let uri ← uri? item
  let version ← integer? (← item.get? "version")
  let changes ← items? (← params.get? "contentChanges")
  return (uri, version, ← changes.mapM change?)

/-- A place in a document. -/
def spot? (params : Json) : Option (String × Mark) := do
  return (← subject? params, ← place? (← params.get? "position"))

/-- Whether data is the number of one of the three ways in which a completion may be asked for. -/
def isTrigger : Json → Bool
  | .number n => [1, 2, 3].any fun (trigger : Int) => n.equal (.integer trigger)
  | .bool value => value
  | _ => false

/-- Whether a request for completion says as it should how it came about, if it says so at all. -/
def triggerFits (params : Json) : Bool :=
  match params.get? "context" with
  | none | some .null => true
  | some context => (context.get? "triggerKind").any isTrigger

/-! ### Readings -/

/-- What was read, unless it did not fit. -/
def read {α : Type} : Option α → Except String α
  | some value => .ok value
  | none => .error "the parameters do not fit"

/-- The new text of a change. -/
def newText : Option String → Except String String
  | some text => .ok text
  | none => .error "the change has no text"

def opening (params : Json) : Except String (String × Document) := read (opened? params)

def changing (params : Json) : Except String Changes :=
  read ((changed? params).map fun (uri, version, texts) => ⟨uri, version, texts.map newText⟩)

/-- A request that is about a document as a whole. -/
def subject (params : Json) : Except String String := read (subject? params)

def completing (params : Json) : Except String (String × Mark) :=
  read (if triggerFits params then spot? params else none)

def hovering (params : Json) : Except String (String × Mark) := read (spot? params)

end PageScript.Params
