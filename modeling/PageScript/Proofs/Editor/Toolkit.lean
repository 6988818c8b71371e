import Mathlib.Data.List.DropRight
import Mathlib.Data.List.Forall2
import PageScript.Editor.Toolkit
import PageScript.Editor.Word

/-!
What is asked of the tools that a server is built on. Parameters may be rejected for any reason, but
what is read from them is what they say; words are runs of letters, digits and underscores; and
results are written with all that they tell. Each of these is asked for only where it is needed.
-/
namespace PageScript

/-! ### Fields of data -/

/-- Whether a text is the one that stands at a path of data, if there is a text at all. -/
def Json.TextAt (j : Json) (path : List String) (text : String) : Prop :=
  ∀ found, j.at? path = some (.string found) → text = found

/-- Whether a number is the one that stands at a path of data, if there is an integer at all. -/
def Json.IntAt (j : Json) (path : List String) (n : Int) : Prop :=
  ∀ found, j.at? path = some (.int found) → n = found

/-- Whether data tells where something is wrong, and what. -/
structure Diagnostic.IsWrittenAs (d : Diagnostic) (j : Json) : Prop where
  firstLine : j.at? ["range", "start", "line"] = some (.int d.first.line)
  firstCharacter : j.at? ["range", "start", "character"] = some (.int d.first.character)
  lastLine : j.at? ["range", "end", "line"] = some (.int d.last.line)
  lastCharacter : j.at? ["range", "end", "character"] = some (.int d.last.character)
  message : j.get? "message" = some (.string d.message)

namespace Toolkit

/-! ### Reading -/

/-- Whether parameters are rejected, or else read for what they say. -/
structure ReturnsFields (kit : Toolkit) : Prop where
  opening {ps : Json} {uri : String} {document : Document}
    (h : kit.opening ps = .ok (uri, document)) :
    ps.TextAt ["textDocument", "uri"] uri ∧
      ps.TextAt ["textDocument", "text"] document.text ∧
      (∀ version, ps.at? ["textDocument", "version"] = some (.int version) →
        document.version = some version) ∧
      ∀ language, ps.at? ["textDocument", "languageId"] = some (.string language) →
        document.language = .string language
  changing {ps : Json} {changes : Changes} (h : kit.changing ps = .ok changes) :
    ps.TextAt ["textDocument", "uri"] changes.uri ∧
      ps.IntAt ["textDocument", "version"] changes.version ∧
      ∀ items texts, ps.at? ["contentChanges"] = some (.array items) →
        List.Forall₂ (fun item text => item.get? "text" = some (.string text)) items texts →
        changes.texts = texts.map .ok
  closing {ps : Json} {uri : String} (h : kit.closing ps = .ok uri) :
    ps.TextAt ["textDocument", "uri"] uri
  hovering {ps : Json} {uri : String} {place : Mark} (h : kit.hovering ps = .ok (uri, place)) :
    ps.TextAt ["textDocument", "uri"] uri ∧ ps.IntAt ["position", "line"] place.line ∧
      ps.IntAt ["position", "character"] place.character
  diagnosing {ps : Json} {uri : String} (h : kit.diagnosing ps = .ok uri) :
    ps.TextAt ["textDocument", "uri"] uri

/-! ### Words -/

/-- Whether the word at a place of a line joins the runs of word characters right before it and
right behind it: in texts in which every character is one unit, and only line feeds end lines. -/
def JoinsWords (kit : Toolkit) : Prop :=
  ∀ (text : String) (number : Nat) (line : Text.Line) (n : Nat),
    (∀ c ∈ text.toList, c.toNat < 0x10000) →
    (∀ c ∈ text.toList, Text.isLineEnd c → c = '\n') →
    (Text.lines text.toList)[number]? = some line → n ≤ line.content.length →
    kit.wordAt text ⟨number, n⟩ =
      String.ofList ((line.content.take n).rtakeWhile Text.isWordChar ++
        (line.content.drop n).takeWhile Text.isWordChar)

/-! ### Writing -/

/-- Whether all that is wrong with a document is written, in order. -/
def WritesReports (kit : Toolkit) : Prop :=
  ∀ ds, ∃ items, (kit.writeReport ds).get? "items" = some (.array items) ∧
    List.Forall₂ Diagnostic.IsWrittenAs ds items

/-- Whether an explanation is written as it is, with the way in which it is marked up. -/
def WritesHelp (kit : Toolkit) : Prop :=
  ∀ text, (kit.writeHelp text).at? ["contents", "kind"] = some (.string "markdown") ∧
    (kit.writeHelp text).at? ["contents", "value"] = some (.string text)

end Toolkit
end PageScript
