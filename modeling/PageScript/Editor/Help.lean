import PageScript.Builtin

/-!
What editors show about the reserved words and the builtins.
-/
namespace PageScript.Help

/-- The reserved words, each with one line on what it is. -/
def keywords : List (String × String) :=
  [("let", "Variable declaration"), ("fn", "Function definition"), ("if", "Conditional statement"),
   ("else", "Else branch"), ("for", "For loop"), ("while", "While loop"),
   ("return", "Return statement"), ("true", "Boolean true"), ("false", "Boolean false"),
   ("and", "Logical AND"), ("or", "Logical OR"), ("not", "Logical NOT")]

/-- The words that have an explanation of their own. -/
def keywordTexts : List (String × String) :=
  [("let", "Variable declaration: \x60let name = value\x60"),
   ("fn", "Function definition: \x60fn name(params) \x7b body \x7d\x60"),
   ("if", "Conditional: \x60if condition \x7b then \x7d else \x7b else \x7d\x60"),
   ("for", "For loop: \x60for item in array \x7b body \x7d\x60"),
   ("while", "While loop: \x60while condition \x7b body \x7d\x60"),
   ("return", "Return from function: \x60return value\x60")]

/-- The explanation of a builtin. -/
def builtinText (b : Builtin) : String :=
  "Built-in function: \x60" ++ b.signature ++ "\x60 - " ++ b.purpose

/-- The explanation of a word, if it has one. -/
def text? (word : String) : Option String :=
  match Builtin.ofName? word with
  | some b => some (builtinText b)
  | none => keywordTexts.lookup word

/-- What a proposed word is. -/
inductive ItemKind where
  | keyword
  | function
deriving DecidableEq

/-- A word that an editor may propose. -/
structure Item where
  label : String
  kind : ItemKind
  detail : String
  documentation : Option String

/-- Every word that can be proposed, wherever the cursor is. -/
def items : List Item :=
  keywords.map (fun (word, detail) => ⟨word, .keyword, detail, none⟩) ++
    Builtin.all.map fun b =>
      ⟨b.name, .function, b.purpose, some (b.signature ++ " - " ++ b.purpose)⟩

end PageScript.Help
