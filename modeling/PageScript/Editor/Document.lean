import PageScript.Fields
import PageScript.Literal

/-!
The documents that an editor has open, by their addresses.
-/
namespace PageScript

/-- An open document. Its language is named as the editor names it, by a text as a rule. -/
structure Document where
  text : String
  version : Option Int
  language : Literal
deriving DecidableEq

/-- The open documents. -/
abbrev Documents := Fields Document

namespace Documents

/-- Opens a document, or opens it anew. -/
def opened (ds : Documents) (uri : String) (document : Document) : Documents := ds.put uri document

/-- Replaces the text and version of a document; one that is not open stays so. -/
def updated (ds : Documents) (uri text : String) (version : Option Int) : Documents :=
  match ds.get? uri with
  | some old => ds.put uri { old with text, version }
  | none => ds

def closed (ds : Documents) (uri : String) : Documents := ds.remove uri

end Documents
end PageScript
