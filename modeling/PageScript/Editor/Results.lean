import PageScript.Editor.Toolkit

/-!
Results as data: a name in small letters for every field, with a capital inside where a new word
begins, and a number for every kind.
-/
namespace PageScript.Results

def capabilities (c : Capabilities) : Json :=
  .object
    [("textDocumentSync", .int (if c.wholeText then 1 else 2)),
     ("completionProvider", .object [("triggerCharacters", .array (c.triggers.map .string))]),
     ("hoverProvider", .bool c.help),
     ("diagnosticProvider", .object
       [("interFileDependencies", .bool c.acrossDocuments),
        ("workspaceDiagnostics", .bool c.wholeWorkspace)])]

def mark (m : Mark) : Json :=
  .object [("line", .int m.line), ("character", .int m.character)]

def diagnostic (d : Diagnostic) : Json :=
  .object
    [("range", .object [("start", mark d.first), ("end", mark d.last)]),
     ("message", .string d.message), ("severity", .int 1),
     ("source", .string Diagnostic.source)]

def report (ds : List Diagnostic) : Json :=
  .object [("items", .array (ds.map diagnostic)), ("kind", .string "full")]

def item (i : Help.Item) : Json :=
  .object
    ([("label", .string i.label),
      ("kind", .int (match i.kind with | .keyword => 14 | .function => 3)),
      ("detail", .string i.detail)] ++
      match i.documentation with
      | some text => [("documentation", .string text)]
      | none => [])

def items (is : List Help.Item) : Json := .array (is.map item)

def help (text : String) : Json :=
  .object [("contents", .object [("kind", .string "markdown"), ("value", .string text)])]

end PageScript.Results
