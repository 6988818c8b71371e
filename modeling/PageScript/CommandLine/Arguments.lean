import PageScript.CommandLine.Interface
import PageScript.Number.Numeral

/-!
Reading the arguments of a tool. Switches and the operand may come in any order. Long names may be
cut short as long as one switch alone begins so; a text may follow a name after an equals sign, a
short name directly, or as the next argument. After a double hyphen all arguments are operands.
-/
namespace PageScript

/-- Why arguments are refused. -/
inductive Misuse where
  | ambiguous (argument : String) (names : List String)
  | lacksText (switch : Switch)
  /-- A text for a switch that takes none. -/
  | ignoredText (switch : Switch) (text : String)
  | badInteger (switch : Switch) (text : String)
  | badChoice (switch : Switch) (text : String) (choices : List String)
  | lacksOperand (name : String)
  | unrecognized (arguments : List String)

def Misuse.message : Misuse → String
  | ambiguous argument names =>
    "ambiguous option: " ++ argument ++ " could match " ++ ", ".intercalate names
  | lacksText s => "argument " ++ s.title ++ ": expected one argument"
  | ignoredText s text =>
    "argument " ++ s.title ++ ": ignored explicit argument " ++ Text.quoted text
  | badInteger s text => "argument " ++ s.title ++ ": invalid int value: " ++ Text.quoted text
  | badChoice s text choices =>
    "argument " ++ s.title ++ ": invalid choice: " ++ Text.quoted text ++ " (choose from "
      ++ ", ".intercalate (choices.map Text.quoted) ++ ")"
  | lacksOperand name => "the following arguments are required: " ++ name
  | unrecognized arguments => "unrecognized arguments: " ++ " ".intercalate arguments

/-- Why reading the arguments ends before their end. -/
inductive Halt where
  | help
  | misuse (misuse : Misuse)

/-- What an argument is, seen by itself. -/
inductive Argument where
  | operand (text : String)
  /-- The double hyphen before the last operands. -/
  | divider
  /-- A switch and the text that comes with its name, if any; `marked` tells that an equals sign
  stands between them. -/
  | switch (switch : Switch) (name : String) (text : Option String) (marked : Bool)
  /-- What looks like a switch and is none. -/
  | unknown (text : String)

/-- What has been read: the operand, the switches with their texts in order, and what has no
place. -/
structure Arguments where
  operand : Option String
  uses : List (Switch × String)
  extras : List String

namespace Argument

/-- Splits at the first equals sign. -/
def splitEquals (cs : List Char) : String × Option String :=
  match cs.dropWhile (· ≠ '=') with
  | [] => (String.ofList cs, none)
  | _ :: after => (String.ofList (cs.takeWhile (· ≠ '=')), some (String.ofList after))

/-- Whether an argument looks like a negative number: digits, perhaps with a point before some of
them. One line end may follow. -/
def isNegativeNumber (cs : List Char) : Bool :=
  let isDigit (c : Char) : Bool := (Text.digitValue? c).isSome
  let ends (cs : List Char) : Bool := cs.isEmpty || cs = ['\n']
  match cs with
  | '-' :: rest =>
    let whole := rest.takeWhile isDigit
    match rest.dropWhile isDigit with
    | '.' :: fraction => (fraction.takeWhile isDigit) ≠ [] && ends (fraction.dropWhile isDigit)
    | after => whole ≠ [] && ends after
  | _ => false

/-- The switches that an argument may stand for that is no full name: for a long name those that
begin so, for a short one the one that it begins with. -/
def candidates (i : Interface) (cs : List Char) : List (Switch × String × Option String × Bool) :=
  match cs with
  | '-' :: '-' :: _ =>
    let (start, text) := splitEquals cs
    (i.names.filter fun (name, _) => start.toList.isPrefixOf name.toList).map fun (name, s) =>
      (s, name, text, text.isSome)
  | '-' :: c :: text =>
    (i.names.filter fun (name, _) => name.toList = ['-', c]).map fun (name, s) =>
      (s, name, some (String.ofList text), false)
  | _ => []

/-- What an argument before the double hyphen is. -/
def ofString (i : Interface) (argument : String) : Except Halt Argument :=
  let cs := argument.toList
  let (start, text) := splitEquals cs
  match cs with
  | '-' :: _ :: _ =>
    match i.names.lookup argument with
    | some s => .ok (.switch s argument none false)
    | none =>
      match text.bind fun _ => i.names.lookup start with
      | some s => .ok (.switch s start text true)
      | none =>
        match candidates i cs with
        | [(s, name, text, marked)] => .ok (.switch s name text marked)
        | _ :: _ :: _ =>
          .error (.misuse (.ambiguous argument ((candidates i cs).map (·.2.1))))
        | [] =>
          if isNegativeNumber cs || cs.contains ' ' then .ok (.operand argument)
          else .ok (.unknown argument)
  | _ => .ok (.operand argument)

/-- What all arguments are. -/
def all (i : Interface) : List String → Except Halt (List Argument)
  | [] => .ok []
  | argument :: rest =>
    if argument = "--" then .ok (.divider :: rest.map .operand)
    else do
      let first ← ofString i argument
      return first :: (← all i rest)

end Argument

namespace Arguments

/-- Takes a switch with its text, if the text is what the switch takes. -/
def take (a : Arguments) (s : Switch) (text : String) : Except Halt Arguments :=
  if s = .help then .error .help
  else
    let taken : Arguments := { a with uses := a.uses ++ [(s, text)] }
    match s.taking with
    | .nothing | .text _ => .ok taken
    | .integer _ =>
      if (Numeral.integer? text).isSome then .ok taken else .error (.misuse (.badInteger s text))
    | .oneOf choices =>
      if choices.contains text then .ok taken else .error (.misuse (.badChoice s text choices))

def takeAll (a : Arguments) : List (Switch × String) → Except Halt Arguments
  | [] => .ok a
  | (s, text) :: rest => do takeAll (← a.take s text) rest

/-- What one argument says of switches: those that have all they need, and then either a switch that
still takes the next argument, or what is left and has no place. -/
structure Unfolded where
  complete : List (Switch × String)
  waiting : Option Switch
  extra : Option String

/-- Unfolds a switch with the text after its name. After a short name of a switch that takes no text
further short names may follow. -/
def unfold (i : Interface) : (fuel : Nat) → Switch → (name : String) → (text : Option (List Char)) →
    (marked : Bool) → Except Halt Unfolded
  | 0, s, _, text, _ => .error (.misuse (.ignoredText s (String.ofList (text.getD []))))
  | fuel + 1, s, name, text, marked =>
    match text with
    | none =>
      if s.takesText then .ok ⟨[], some s, none⟩ else .ok ⟨[(s, "")], none, none⟩
    | some cs =>
      if s.takesText then .ok ⟨[(s, String.ofList cs)], none, none⟩
      else
        let refused : Except Halt Unfolded := .error (.misuse (.ignoredText s (String.ofList cs)))
        match cs with
        | [] => refused
        | c :: rest =>
          if name.startsWith "--" || marked || c = '-' then refused
          else
            let next := String.ofList ['-', c]
            match i.names.lookup next with
            | none => .ok ⟨[(s, "")], none, some (String.ofList ('-' :: cs))⟩
            | some t => do
              let more ←
                match rest with
                | [] => unfold i fuel t next none false
                | '=' :: text => unfold i fuel t next (some text) true
                | text => unfold i fuel t next (some text) false
              return { more with complete := (s, "") :: more.complete }

/-- Goes through the arguments in order; the first operand that is needed is taken. -/
def gather (i : Interface) (a : Arguments) : List Argument → Except Halt Arguments
  | [] => .ok a
  | .operand x :: rest =>
    if i.operand.isSome && a.operand.isNone then
      match rest with
      | .divider :: rest => gather i { a with operand := some x } rest
      | rest => gather i { a with operand := some x } rest
    else gather i { a with extras := a.extras ++ [x] } rest
  | .divider :: .operand x :: rest =>
    if i.operand.isSome && a.operand.isNone then gather i { a with operand := some x } rest
    else gather i { a with extras := a.extras ++ ["--", x] } rest
  | .divider :: rest => gather i { a with extras := a.extras ++ ["--"] } rest
  | .unknown x :: rest => gather i { a with extras := a.extras ++ [x] } rest
  | .switch s name text marked :: rest => do
    let u ← unfold i ((text.getD "").length + 1) s name (text.map String.toList) marked
    let a := { a with extras := a.extras ++ u.extra.toList }
    match u.waiting, rest with
    | none, rest => gather i (← a.takeAll u.complete) rest
    | some s, .operand x :: rest => gather i (← a.takeAll (u.complete ++ [(s, x)])) rest
    | some s, _ => throw (.misuse (.lacksText s))

/-- Reads all arguments. -/
def read (i : Interface) (arguments : List String) : Except Halt Arguments := do
  let a ← gather i ⟨none, [], []⟩ (← Argument.all i arguments)
  match i.operand, a.operand with
  | some (name, _), none => throw (.misuse (.lacksOperand name))
  | _, _ =>
    if a.extras.isEmpty then return a else throw (.misuse (.unrecognized a.extras))

/-- The texts given to a switch, in order. -/
def texts (a : Arguments) (s : Switch) : List String :=
  (a.uses.filter (·.1 = s)).map (·.2)

/-- The last text given to a switch. -/
def text? (a : Arguments) (s : Switch) : Option String := (a.texts s).getLast?

end Arguments
end PageScript
