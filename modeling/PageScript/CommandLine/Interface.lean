import PageScript.Text.Quoted

/-!
What a command-line tool takes: its switches and its operand, and the texts that tell people so.
-/
namespace PageScript

/-- What a switch takes behind it. -/
inductive Taking where
  | nothing
  /-- Any text, with the name that stands for it in the help. -/
  | text (name : String)
  | integer (name : String)
  | oneOf (choices : List String)
deriving DecidableEq

/-- A switch: its names, a short one first if it has one, and what it is for. -/
structure Switch where
  names : List String
  taking : Taking
  purpose : String
deriving DecidableEq

/-- What a tool takes: switches, and perhaps one operand. -/
structure Interface where
  tool : String
  purpose : String
  operand : Option (String × String)
  switches : List Switch

namespace Taking

/-- What stands in the help for the text that a switch takes; `none` if it takes none. -/
def placeholder? : Taking → Option String
  | nothing => none
  | text name | integer name => some name
  | oneOf choices => some ("\x7b" ++ ",".intercalate choices ++ "\x7d")

end Taking

namespace Switch

/-- The switch that asks for help. -/
def help : Switch := ⟨["-h", "--help"], .nothing, "show this help message and exit"⟩

def takesText (s : Switch) : Bool := s.taking.placeholder?.isSome

/-- A name of a switch, with the placeholder of the text behind it. -/
def form (s : Switch) (name : String) : String :=
  match s.taking.placeholder? with
  | some placeholder => name ++ " " ++ placeholder
  | none => name

/-- All forms of a switch. -/
def forms (s : Switch) : String := ", ".intercalate (s.names.map s.form)

/-- All names of a switch, as messages about it begin. -/
def title (s : Switch) : String := "/".intercalate s.names

/-- A switch in a line that shows how to use a tool. -/
def inUsage (s : Switch) : String :=
  "[" ++ ((s.names.head?.map s.form).getD "") ++ "]"

end Switch

namespace Interface

/-- All switches: every tool gives help. -/
def allSwitches (i : Interface) : List Switch := .help :: i.switches

/-- The names of all switches, each with its switch. -/
def names (i : Interface) : List (String × Switch) :=
  i.allSwitches.flatMap fun s => s.names.map (·, s)

/-! ### Usage -/

/-- How wide texts may be. -/
def width : Nat := 78

/-- Words one after another, with a new line before a word that does not fit; `used` is how long the
line is so far. -/
def fill (indent : String) (used : Nat) : List String → String
  | [] => ""
  | word :: rest =>
    if width < used + 1 + word.length then
      "\n" ++ indent ++ " " ++ word ++ fill indent (indent.length + 1 + word.length) rest
    else " " ++ word ++ fill indent (used + 1 + word.length) rest

/-- The line that shows how to use a tool. If it is too long, the operand has a line of its own. -/
def usage (i : Interface) : String :=
  let head := "usage: " ++ i.tool
  let switches := i.allSwitches.map Switch.inUsage
  let operand := i.operand.toList.map (·.1)
  let line := " ".intercalate (head :: switches ++ operand)
  if line.length ≤ width then line ++ "\n"
  else
    let indent := String.ofList (List.replicate head.length ' ')
    head ++ fill indent head.length switches
      ++ String.join (operand.map fun name => "\n" ++ indent ++ " " ++ name) ++ "\n"

/-! ### Help -/

/-- The most columns before the purposes. -/
def widestMargin : Nat := 24

/-- An entry of the help: what it is about, and from a column on its purpose, on a line of its own
if there is not enough room before the column. -/
def helpEntry (column : Nat) (entry : String × String) : String :=
  let blanks (n : Nat) : String := String.ofList (List.replicate n ' ')
  let room := column - 4
  "  " ++ entry.1
    ++ (if entry.1.length ≤ room then blanks (room - entry.1.length + 2) else "\n" ++ blanks column)
    ++ entry.2 ++ "\n"

/-- The help of a tool. -/
def helpText (i : Interface) : String :=
  let operands := i.operand.toList
  let switches := i.allSwitches.map fun s => (s.forms, s.purpose)
  let longest := ((operands ++ switches).map (·.1.length)).foldl max 0
  let column := min (longest + 4) widestMargin
  let list (title : String) (entries : List (String × String)) : String :=
    if entries.isEmpty then ""
    else "\n" ++ title ++ ":\n" ++ String.join (entries.map (helpEntry column))
  i.usage ++ "\n" ++ i.purpose ++ "\n" ++ list "positional arguments" operands
    ++ list "options" switches

end Interface
end PageScript
