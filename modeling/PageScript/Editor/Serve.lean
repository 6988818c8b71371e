import PageScript.Editor.Server

/-!
Serving a stream: messages are taken out of the bytes as they arrive and handled in order, and the
responses are written, until the stream ends, a message ends the server, or a message cannot be read
or a response not be written.
-/
namespace PageScript

/-- Why serving ended. -/
inductive Ending where
  | closed
  | exit (code : Nat)
  | badMethod
  | unreadable
  /-- A response holds an integer with too many digits to write. -/
  | unwritable
deriving DecidableEq

/-- What is written for a reply, or why nothing is handled behind it. -/
def Reply.written : Reply → Except Ending (List UInt8)
  | silent => .ok []
  | response message =>
    match Frame.encode? message with
    | some text => .ok text.toUTF8.toList
    | none => .error .unwritable
  | exit code => .error (.exit code)
  | badMethod => .error .badMethod

/-- What came of serving so far: the state, the bytes that were written and the notices, in order,
the bytes that remain to be read, and whether it ended. -/
structure Served (σ : Type) where
  state : σ
  written : List UInt8
  notices : List Notice
  rest : List UInt8
  ending : Option Ending

namespace Served
variable {σ : Type}

/-- Something noted and written before. -/
def after (notices : List Notice) (written : List UInt8) (served : Served σ) : Served σ :=
  { served with notices := notices ++ served.notices, written := written ++ served.written }

/-- Handles all messages that have arrived. -/
def arrived (handle : σ → Message → Reaction σ) (state : σ) (bytes : List UInt8) : Served σ :=
  let p := Frame.next bytes
  match _h : p.found with
  | .idle => ⟨state, [], p.notices, p.rest, none⟩
  | .failed => ⟨state, [], p.notices, p.rest, some .unreadable⟩
  | .message message =>
    let r := handle state message
    let noted := p.notices ++ r.notices
    match r.reply.written with
    | .error ending => ⟨r.state, [], noted, p.rest, some ending⟩
    | .ok written => (arrived handle r.state p.rest).after noted written
termination_by bytes.length
decreasing_by all_goals exact (Frame.length_rest_next bytes).2 _ _h

/-- Serves a stream that arrives in pieces; `waiting` are the bytes that arrived before. -/
def stream (handle : σ → Message → Reaction σ) (state : σ) (waiting : List UInt8) :
    List (List UInt8) → Served σ
  | [] => ⟨state, [], [.inputClosed], waiting, some .closed⟩
  | piece :: pieces =>
    let served := arrived handle state (waiting ++ piece)
    match served.ending with
    | some _ => served
    | none => (stream handle served.state served.rest pieces).after served.notices served.written

end Served

/-- Serves a stream from its start. -/
def Server.serve (kit : Toolkit) (pieces : List (List UInt8)) : Served Server :=
  Served.stream (Server.handle kit) .start [] pieces

end PageScript
