import PageScript.Text.Split

/-!
Paths of files, in a normal form: no empty steps and no steps to where one is already.
-/
namespace PageScript

/-- A path: the slashes it begins with (none, one, or exactly two) and its steps. -/
structure Path where
  root : String
  steps : List String
deriving DecidableEq

namespace Path

/-- The slashes that tell where a path begins. More than two count as one. -/
def rootOf (cs : List Char) : String :=
  match (cs.takeWhile (· = '/')).length with
  | 0 => ""
  | 2 => "//"
  | _ => "/"

def ofString (text : String) : Path :=
  let cs := text.toList
  ⟨rootOf cs, (Text.pieces '/' cs).filterMap fun piece =>
    if piece = [] ∨ piece = ['.'] then none else some (String.ofList piece)⟩

/-- The text of a path; a dot stands for the path without any step. -/
def text (p : Path) : String :=
  let s := p.root ++ "/".intercalate p.steps
  if s = "" then "." else s

/-- The path of the directory that a file is in. -/
def parent (p : Path) : Path := { p with steps := p.steps.dropLast }

/-- The path of a file in a directory. -/
def child (p : Path) (name : String) : Path := { p with steps := p.steps ++ [name] }

/-- Whether a path can be the name of anything: no null character is in it. -/
def isNameable (p : Path) : Bool := p.steps.all fun step => !step.toList.contains '\x00'

end Path
end PageScript
