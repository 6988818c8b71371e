import PageScript.Editor.Toolkit
import PageScript.Frame

/-!
Answering an editor. Each message is a request, which has an identifier and gets one response, or a
notification, which gets none. A request that cannot be carried out gets an error and changes
nothing.
-/
namespace PageScript

/-- What an editor may ask for. -/
inductive Method where
  | setUp
  | ready
  | shutdown
  | exit
  | didOpen
  | didChange
  | didClose
  | completion
  | hover
  | diagnostic
deriving DecidableEq

namespace Method

def name : Method → String
  | setUp => "initialize"
  | ready => "initialized"
  | shutdown => "shutdown"
  | exit => "exit"
  | didOpen => "textDocument/didOpen"
  | didChange => "textDocument/didChange"
  | didClose => "textDocument/didClose"
  | completion => "textDocument/completion"
  | hover => "textDocument/hover"
  | diagnostic => "textDocument/diagnostic"

def all : List Method :=
  [setUp, ready, shutdown, exit, didOpen, didChange, didClose, completion, hover,
   diagnostic]

theorem mem_all (m : Method) : m ∈ all := by cases m <;> decide

/-- The method with a given name. -/
def ofName? (name : String) : Option Method := all.find? (·.name = name)

end Method

/-! ### The server -/

/-- What the server remembers between messages. -/
structure Server where
  documents : Documents
  initialized : Bool
  shutdown : Bool

namespace Server

def start : Server := ⟨[], false, false⟩

/-- The name of the server. -/
def title : String := "NoteG Language Server"

def version : String := "0.2.0"

/-- Changes carry the whole text, words are asked for behind a point, there is help, and what is
wrong with a document is told of each by itself. -/
def capabilities : Capabilities := ⟨true, ["."], true, false, false⟩

/-- What the server can do and who it is: the answer to the first request of an editor. -/
def greeting (kit : Toolkit) : Json :=
  .object
    [("capabilities", kit.writeCapabilities capabilities),
     ("serverInfo", .object [("name", .string title), ("version", .string version)])]

/-- The explanation of the word at a place of an open document. -/
def hover (kit : Toolkit) (s : Server) (uri : String) (place : Mark) : Option String := do
  let document ← s.documents.get? uri
  Help.text? (kit.wordAt document.text place)

/-- What is wrong with a document; nothing if it is not open. -/
def analyze (s : Server) (uri : String) : List Diagnostic × List Notice :=
  match s.documents.get? uri with
  | some document => Diagnostic.analyze document.text
  | none => ([], [])

/-- Carries out a method other than `exit`: the result, the server after it and what is noted; or
the reason why it fails. Of several changes to a document the first one counts. A document that is
open was made before, so that it can be made again. -/
def perform (kit : Toolkit) (s : Server) (params : Json) :
    Method → Except String (Json × Server × List Notice)
  | .setUp => .ok (greeting kit, { s with initialized := true }, [])
  | .ready => .ok (.null, s, [.initialized])
  | .shutdown => .ok (.null, { s with shutdown := true }, [])
  | .exit => .ok (.null, s, [])
  | .didOpen => do
    let (uri, document) ← kit.opening params
    match kit.refusal? uri with
    | some reason => throw reason
    | none => return (.null, { s with documents := s.documents.opened uri document }, [])
  | .didChange => do
    let changes ← kit.changing params
    match changes.texts with
    | [] => return (.null, s, [])
    | text :: _ => do
      let documents := s.documents.updated changes.uri (← text) (some changes.version)
      return (.null, { s with documents }, [])
  | .didClose => do
    let uri ← kit.closing params
    return (.null, { s with documents := s.documents.closed uri }, [])
  | .completion => do
    let _ ← kit.completing params
    return (kit.writeItems Help.items, s, [])
  | .hover => do
    let (uri, place) ← kit.hovering params
    return ((s.hover kit uri place).elim .null kit.writeHelp, s, [])
  | .diagnostic => do
    let uri ← kit.diagnosing params
    let (ds, notices) := s.analyze uri
    return (kit.writeReport ds, s, notices)

end Server

/-! ### Messages -/

/-- What comes of a message: an answer or none, or the end of the server. -/
inductive Reply where
  | silent
  | response (message : Message)
  | exit (code : Nat)
  /-- The name of the method is a list or an object, and cannot be looked up at all. -/
  | badMethod

/-- The state after a message, what was noted, and the reply. -/
structure Reaction (σ : Type) where
  state : σ
  notices : List Notice
  reply : Reply

namespace Server

/-- The parameters of a message; those that are missing or empty count as an empty object. -/
def params (message : Message) : Json :=
  match message.get? "params" with
  | none | some .null | some (.bool false) | some (.string "") | some (.array [])
  | some (.object []) => .object []
  | some (.number n) => if n.isZero then .object [] else .number n
  | some params => params

/-- The identifier of a request; a notification has none. -/
def identifier? (message : Message) : Option Json :=
  match message.get? "id" with
  | none | some .null => none
  | some id => some id

def answer (id : Json) (result : Json) : Message :=
  [("jsonrpc", .string "2.0"), ("id", id), ("result", result)]

/-- The response to a request that could not be carried out. -/
def refusal (id : Json) (method : Method) (reason : String) : Message :=
  [("jsonrpc", .string "2.0"), ("id", id),
   ("error", .object
     [("code", .int (-32603)), ("message", .string (method.name ++ " failed: " ++ reason))])]

/-- A response if the message was a request. -/
def replyWith (message : Message) (response : Json → Message) : Reply :=
  match identifier? message with
  | some id => .response (response id)
  | none => .silent

/-- Answers a message of a known method. -/
def handleMethod (kit : Toolkit) (s : Server) (message : Message) (method : Method) :
    Reaction Server :=
  if method = .exit then ⟨s, [], .exit (if s.shutdown then 0 else 1)⟩
  else
    match s.perform kit (params message) method with
    | .ok (result, after, notices) =>
      ⟨after, notices, replyWith message fun id => answer id result⟩
    | .error reason =>
      ⟨s, [.requestFailed], replyWith message fun id => refusal id method reason⟩

/-- Answers a message. One without a method is a response of the editor, and not waited for. -/
def handle (kit : Toolkit) (s : Server) (message : Message) : Reaction Server :=
  match message.get? "method" with
  | none | some .null => ⟨s, [], .silent⟩
  | some (.array _) | some (.object _) => ⟨s, [], .badMethod⟩
  | some (.string name) =>
    match Method.ofName? name with
    | some method => s.handleMethod kit message method
    | none => ⟨s, [.unknownMethod], .silent⟩
  | some _ => ⟨s, [.unknownMethod], .silent⟩

end Server
end PageScript
