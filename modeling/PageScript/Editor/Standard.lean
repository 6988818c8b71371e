import PageScript.Editor.Address
import PageScript.Editor.Params
import PageScript.Editor.Results
import PageScript.Editor.Word

/-!
The tools that the server is run with.
-/
namespace PageScript

/-- Why no document can be made for an address, if it is so. -/
def Address.refusal? (uri : String) : Option String :=
  if isReadable uri then none else some "the address cannot be taken apart"

/-- Parameters, addresses and words as the protocol of editors has them. -/
def Toolkit.standard : Toolkit where
  opening := Params.opening
  changing := Params.changing
  closing := Params.subject
  completing := Params.completing
  hovering := Params.hovering
  diagnosing := Params.subject
  refusal? := Address.refusal?
  wordAt text place := Text.wordAt text place.line place.character
  writeCapabilities := Results.capabilities
  writeItems := Results.items
  writeHelp := Results.help
  writeReport := Results.report

end PageScript
