import PageScript.Editor.Diagnostic
import PageScript.Editor.Document
import PageScript.Editor.Help

/-!
What the server leaves to others: to read the parameters of requests, to make documents and to find
words in them, and to write results as data.
-/
namespace PageScript

/-- Changes of a document that come together. A change that has no new text says why. -/
structure Changes where
  uri : String
  version : Int
  texts : List (Except String String)

/-- What a server can do, as it tells an editor. -/
structure Capabilities where
  /-- Whether a change carries the whole text of a document. -/
  wholeText : Bool
  /-- The characters behind which an editor asks for words. -/
  triggers : List String
  help : Bool
  /-- Whether what is wrong with one document may hang on another. -/
  acrossDocuments : Bool
  /-- Whether it is told at once what is wrong with all documents. -/
  wholeWorkspace : Bool

/-- The tools that a server is built on. Parameters are read as what a method takes, or rejected with
a reason. -/
structure Toolkit where
  /-- The document that is to be opened, behind its address. -/
  opening : Json → Except String (String × Document)
  changing : Json → Except String Changes
  /-- The address of the document that is to be closed. -/
  closing : Json → Except String String
  /-- The place for which words are asked for, behind the address of its document. -/
  completing : Json → Except String (String × Mark)
  /-- The place for which help is asked for, behind the address of its document. -/
  hovering : Json → Except String (String × Mark)
  /-- The address of the document that is to be checked. -/
  diagnosing : Json → Except String String
  /-- Why no document can be made for an address, if it is so. -/
  refusal? : String → Option String
  /-- The word around a place of a text. -/
  wordAt : String → Mark → String
  writeCapabilities : Capabilities → Json
  writeItems : List Help.Item → Json
  writeHelp : String → Json
  writeReport : List Diagnostic → Json

end PageScript
