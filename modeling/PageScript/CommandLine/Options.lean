import PageScript.CommandLine.Arguments
import PageScript.CommandLine.Files
import PageScript.Toml.Reader
import PageScript.Value

/-!
How a program is run: the names defined before it starts, the limit on calls, and whether its tree
is shown. Settings come from a configuration file and from switches, and switches go first.
-/
namespace PageScript

/-! ### What settings become -/

namespace Value

mutual

/-- Data of a configuration file as a value. A date or a time is its text. -/
def ofToml : Toml → Value
  | .bool b => bool b
  | .integer n => int n
  | .double d => number (.double d)
  | .string s => string s
  | .moment m => string m.text
  | .array items => array (ofTomlItems items)
  | .table entries => object (ofTomlEntries entries)

def ofTomlItems : List Toml → List Value
  | [] => []
  | item :: rest => ofToml item :: ofTomlItems rest

def ofTomlEntries : List (String × Toml) → Fields Value
  | [] => []
  | (name, item) :: rest => (name, ofToml item) :: ofTomlEntries rest

end

end Value

/-- The name and the text in a definition such as `name=text`: it is split at the first equals
sign. -/
def definition? (text : String) : Option (String × String) :=
  match Argument.splitEquals text.toList with
  | (name, some value) => some (name, value)
  | (_, none) => none

/-! ### Switches -/

namespace Switch

/-- Defines a name, as often as it is given. -/
def env : Switch :=
  ⟨["-e", "--env"], .text "NAME=VALUE", "Predefine a string variable (repeatable)"⟩

/-- Names the configuration file. -/
def config : Switch :=
  ⟨["--config"], .text "FILE", "Config file (default: auto-discover noteg.toml)"⟩

/-- Limits how many calls may be nested. -/
def maxCallDepth : Switch :=
  ⟨["--max-call-depth"], .integer "N", "Maximum nested function calls (default: 64)"⟩

/-- Asks for the tree. -/
def debug : Switch := ⟨["--debug"], .nothing, "Dump AST to stderr"⟩

end Switch

/-- What a run is asked for in the arguments. -/
structure RunRequest where
  input : String
  definitions : List String
  config : Option String
  callDepth : Option Int
  debug : Bool

def RunRequest.ofArguments (a : Arguments) : RunRequest where
  input := a.operand.getD ""
  definitions := a.texts .env
  config := a.text? .config
  callDepth := (a.text? .maxCallDepth).bind Numeral.integer?
  debug := (a.text? .debug).isSome

/-! ### Options -/

/-- How a program is run. -/
structure RunOptions where
  input : Path
  env : Fields Value
  callDepth : Int
  debug : Bool

/-- Why there are no options. -/
inductive OptionsError where
  /-- The configuration file is no text. -/
  | configEncoding
  | config (error : Toml.ReadError)
  /-- A definition without an equals sign. -/
  | definition (text : String)

def OptionsError.message : OptionsError → String
  | configEncoding => "invalid config file: not valid UTF-8"
  | config e => "invalid config file: " ++ e.message
  | definition text => "invalid env format (expected NAME=VALUE): " ++ text

/-- The number of calls that may be nested if nothing else is said. -/
def defaultCallDepth : Int := 64

namespace RunRequest

/-- The configuration file: the one that is named, or the one beside the program. -/
def configPath (r : RunRequest) : Path :=
  match r.config with
  | none | some "" => (Path.ofString r.input).parent.child "noteg.toml"
  | some name => .ofString name

/-- The settings in what is found at the place of the configuration file. No file is no setting. -/
def readConfig : Found → Except OptionsError (Fields Toml)
  | .file bytes =>
    match Text.ofUtf8 bytes with
    | .error _ => .error .configEncoding
    | .ok text =>
      match Toml.read text with
      | .error e => .error (.config e)
      | .ok table => .ok table
  | _ => .ok []

/-- The names that a configuration defines. -/
def configEnv (config : Fields Toml) : Fields Value :=
  match config.get? "env" with
  | some (.table entries) => Value.ofTomlEntries entries
  | _ => []

/-- The limit on calls that a configuration sets. -/
def configDepth? (config : Fields Toml) : Option Int :=
  match (config.get? "run").bind (Toml.get? "max_call_depth") with
  | some (.integer n) => some n
  | _ => none

/-- Adds definitions in order. -/
def define (env : Fields Value) : List String → Except OptionsError (Fields Value)
  | [] => .ok env
  | text :: rest =>
    match definition? text with
    | some (name, value) => define (env.put name (.string value)) rest
    | none => .error (.definition text)

/-- The options under a configuration. -/
def resolve (r : RunRequest) (config : Fields Toml) : Except OptionsError RunOptions := do
  let env ← define (configEnv config) r.definitions
  return {
    input := .ofString r.input
    env
    callDepth := r.callDepth.getD ((configDepth? config).getD defaultCallDepth)
    debug := r.debug }

/-- The options with what is found at the place of the configuration file. -/
def options (r : RunRequest) (config : Found) : Except OptionsError RunOptions := do
  r.resolve (← readConfig config)

end RunRequest
end PageScript
