import PageScript.CommandLine.Tool
import PageScript.Editor.Standard

/-!
The command line: the first argument names the tool, and the rest are its arguments. All arguments
are taken to be text, and every text can be written: streams that could not encode a character are
left out.
-/
namespace PageScript.Main

/-- What is found at a path in the file system. -/
def found (path : Path) : IO Found := do
  if !path.isNameable then return .unnameable
  try
    return .file (← IO.FS.readBinFile path.text).toList
  catch
    | .noFileOrDirectory .. => return .missing
    | .inappropriateType _ code _ => return if code = 21 then .directory else .noDirectory
    | e => throw e

/-- Writes what a tool has written, and gives its code. -/
def finish (outcome : Outcome) : IO UInt32 := do
  let output ← IO.getStdout
  output.putStr outcome.output
  output.flush
  (← IO.getStderr).putStr outcome.errors
  match outcome.exit with
  | .code n | .arguments n => return UInt32.ofNat n
  | .crash cause =>
    IO.eprintln ("error: " ++ cause.message)
    return 1

/-- Shows a program at a stage. -/
def present (stage : Stage) (arguments : List String) : IO UInt32 := do
  match Arguments.read stage.interface arguments with
  | .error halt => finish (stage.interface.halted halt)
  | .ok a =>
    let source ← found (.ofString (a.operand.getD ""))
    finish (stage.runTool (fun _ => source) arguments)

/-- Runs a program. -/
def run (arguments : List String) : IO UInt32 := do
  match RunRequest.read arguments with
  | .error halt => finish (Interface.run.halted halt)
  | .ok r => finish (r.run (← found r.configPath) (← found (.ofString r.input)))

/-- Handles what arrives until the server ends, and writes responses and notices as they come. -/
partial def serveFrom (levels : List String) (server : Server) (waiting : List UInt8) :
    IO UInt32 := do
  let bytes ← (← IO.getStdin).read 4096
  let served :=
    if bytes.isEmpty then Served.stream (Server.handle .standard) server waiting []
    else Served.arrived (Server.handle .standard) server (waiting ++ bytes.toList)
  for n in served.notices do
    if levels.contains n.level.name then IO.eprintln (n.level.name ++ ": " ++ n.template)
  let output ← IO.getStdout
  output.write ⟨served.written.toArray⟩
  output.flush
  match served.ending with
  | none => serveFrom levels served.state served.rest
  | some .closed => return 0
  | some (.exit code) => return UInt32.ofNat code
  | some .badMethod | some .unreadable | some .unwritable => return 1

/-- Serves an editor. -/
def serve (arguments : List String) : IO UInt32 := do
  match Arguments.read .serve arguments with
  | .error halt => finish (Interface.serve.halted halt)
  | .ok a =>
    let least := (a.text? Interface.logLevel).getD "WARNING"
    let levels := ["DEBUG", "INFO", "WARNING", "ERROR"].dropWhile (· ≠ least)
    serveFrom levels .start []

/-- Runs the tool that is named first. -/
def runNamed : List String → IO UInt32
  | tool :: arguments =>
    if tool = Interface.tokens.tool then present .tokens arguments
    else if tool = Interface.tree.tool then present .tree arguments
    else if tool = Interface.run.tool then run arguments
    else if tool = Interface.serve.tool then serve arguments
    else do
      IO.eprintln ("error: there is no tool named " ++ tool)
      return 2
  | [] => do
    IO.eprintln "error: no tool is named"
    return 2

end PageScript.Main

def main (arguments : List String) : IO UInt32 := PageScript.Main.runNamed arguments
