import PageScript.CommandLine.Options
import PageScript.Editor.Serve
import PageScript.Evaluation
import PageScript.Json.Writer
import PageScript.Node.Outline
import PageScript.Node.Reader
import PageScript.Node.Record

/-!
The tools of the command line: one for each stage of a program's way (its tokens, its tree, its
result) and one that serves an editor. A tool ends with a code: zero if all went well, one if the
program is not well formed, two if it cannot be read or run or the arguments are refused.
-/
namespace PageScript

/-- What a tool cannot answer with a code. -/
inductive Crash where
  | configEncoding
  | configNumber
  | unnameable
  /-- A loop that was given up. -/
  | unfinished
deriving DecidableEq

def Crash.message : Crash → String
  | configEncoding => OptionsError.configEncoding.message
  | configNumber => "invalid config file: " ++ Toml.Fault.oversizedInteger.message
  | unnameable => "the name of the program is no name for a file"
  | unfinished => "a loop went on for too long"

/-- How a tool ends. -/
inductive Exit where
  | code (code : Nat)
  /-- The arguments alone told what to do. -/
  | arguments (code : Nat)
  | crash (cause : Crash)
deriving DecidableEq

/-- How a tool ends, and what it has written. -/
structure Outcome where
  exit : Exit
  output : String
  errors : String

/-- The stages that a program is shown at. -/
inductive Stage where
  | tokens
  | tree
deriving DecidableEq

/-! ### What tools take -/

namespace Interface

/-- The program that a tool is given. -/
def sourceOperand : Option (String × String) := some ("input", "Input .ng file")

/-- Shows the tokens of a program. -/
def tokens : Interface := ⟨"noteg-lex", "Tokenize a NoteG file", sourceOperand, []⟩

/-- Shows the tree of a program. -/
def tree : Interface := ⟨"noteg-parse", "Parse a NoteG file", sourceOperand, []⟩

/-- Runs a program. -/
def run : Interface :=
  ⟨"noteg-run", "Run a NoteG program and print its result", sourceOperand,
    [.env, .config, .maxCallDepth, .debug]⟩

/-- The least level of the notices that are shown. -/
def logLevel : Switch :=
  ⟨["--log-level"], .oneOf ["DEBUG", "INFO", "WARNING", "ERROR"],
    "Log level for stderr output (default: WARNING)"⟩

/-- Serves an editor over the standard streams. -/
def serve : Interface :=
  ⟨"noteg-lsp", Server.title, none,
    [⟨["--stdio"], .nothing, "Use stdio transport (default)"⟩, logLevel]⟩

/-- How a tool ends that does not get past its arguments. -/
def halted (i : Interface) : Halt → Outcome
  | .help => ⟨.arguments 0, i.helpText, ""⟩
  | .misuse m =>
    ⟨.arguments 2, "", i.usage ++ i.tool ++ ": error: " ++ m.message ++ "\n"⟩

end Interface

def Stage.interface : Stage → Interface
  | tokens => .tokens
  | tree => .tree

/-! ### Reading sources -/

namespace Outcome

/-- An end with nothing but an error message. -/
def refused (code : Nat) (message : String) : Outcome := ⟨.code code, "", message ++ "\n"⟩

/-- A file that cannot be read. -/
def unreadable (path : Path) (reason : String) : Outcome :=
  refused 2 ("error: cannot read " ++ path.text ++ ": " ++ reason)

/-- The source in the bytes of a file, if they are text. -/
def source (path : Path) (bytes : List UInt8) : Except Outcome String :=
  match Text.ofUtf8 bytes with
  | .ok text => .ok (String.ofList (Text.normalizeEnds text))
  | .error offset =>
    .error (unreadable path ("not valid UTF-8 (byte " ++ toString offset ++ ")"))

end Outcome

/-! ### Tokens and trees -/

namespace Stage

/-- Shows a program as data. -/
def present (stage : Stage) (file : String) (source : String) : Outcome :=
  match stage with
  | tokens =>
    ⟨.code 0, (Json.array ((Token.ofSource source).map Token.record)).indented ++ "\n", ""⟩
  | tree =>
    match Program.ofSource source with
    | .ok program => ⟨.code 0, (program.record Literal.record).indented ++ "\n", ""⟩
    | .error e => .refused 1 ((e.report source).diagram file)

/-- Runs the tool of a stage. -/
def runTool (stage : Stage) (look : Path → Found) (arguments : List String) : Outcome :=
  match Arguments.read stage.interface arguments with
  | .error halt => stage.interface.halted halt
  | .ok a =>
    let file := a.operand.getD ""
    let path := Path.ofString file
    match look path with
    | .file bytes =>
      match Outcome.source path bytes with
      | .ok source => stage.present file source
      | .error outcome => outcome
    | .unnameable => ⟨.crash .unnameable, "", ""⟩
    | found => .unreadable path found.refusal

end Stage

/-! ### Running -/

namespace OptionsError

/-- How a run ends that has no options. -/
def outcome (e : OptionsError) : Outcome :=
  match e with
  | configEncoding => ⟨.crash .configEncoding, "", ""⟩
  | config ⟨.oversizedInteger, _⟩ => ⟨.crash .configNumber, "", ""⟩
  | config _ | definition _ => .refused 2 ("error: " ++ e.message)

end OptionsError

namespace RunOptions

/-- How an evaluation of a source ends. The result is shown behind what the program printed, unless
it is null. -/
def outcome (o : RunOptions) (source : String) : EStateM.Result Stop Machine Value → Outcome
  | .ok value m =>
    match value, value.display? with
    | .null, _ => ⟨.code 0, m.output, ""⟩
    | _, some text => ⟨.code 0, m.output ++ text ++ "\n", ""⟩
    | _, none =>
      let e : RuntimeError := ⟨.tooLargeToDisplay, 0⟩
      ⟨.code 2, m.output, (e.report "").diagram o.input.text ++ "\n"⟩
  | .error (.error e) m => ⟨.code 2, m.output, (e.report source).diagram o.input.text ++ "\n"⟩
  | .error _ m => ⟨.crash .unfinished, m.output, ""⟩

/-- Runs a source. -/
def runSource (o : RunOptions) (source : String) : Outcome :=
  match Program.ofSource source with
  | .error e => .refused 1 ((e.report source).diagram o.input.text)
  | .ok program =>
    let limits : Limits := { callDepth := o.callDepth }
    let outcome := o.outcome source (program.run limits (.start o.env))
    if o.debug then { outcome with errors := program.outline ++ outcome.errors } else outcome

/-- Runs what is found at the place of the program. -/
def run (o : RunOptions) : Found → Outcome
  | .file bytes =>
    match Outcome.source o.input bytes with
    | .ok source => o.runSource source
    | .error outcome => outcome
  | _ => .unreadable o.input "no such file"

end RunOptions

/-- The request in the arguments of the tool that runs programs. -/
def RunRequest.read (arguments : List String) : Except Halt RunRequest :=
  (Arguments.read .run arguments).map .ofArguments

/-- Runs a program with what is found at the places of its configuration and of itself. -/
def RunRequest.run (r : RunRequest) (config source : Found) : Outcome :=
  match r.options config with
  | .error e => e.outcome
  | .ok o => o.run source

/-- Runs the tool that runs programs. -/
def RunRequest.runTool (look : Path → Found) (arguments : List String) : Outcome :=
  match RunRequest.read arguments with
  | .error halt => Interface.run.halted halt
  | .ok r => r.run (look r.configPath) (look (.ofString r.input))

end PageScript
