import PageScript.Json

/-!
What is noted down while messages are read and answered. What of the stream a notice is about stands
in its fields; the other particulars (names, and reasons that another library words) are left out.
-/
namespace PageScript

inductive NoticeLevel where
  | debug | info | warning | error
deriving DecidableEq

def NoticeLevel.name : NoticeLevel → String
  | debug => "DEBUG"
  | info => "INFO"
  | warning => "WARNING"
  | error => "ERROR"

inductive Notice where
  /-- A header block that gives no length was dropped. -/
  | noLength (header : List UInt8)
  /-- A payload that is no data was dropped. -/
  | malformedPayload (payload : List UInt8)
  /-- A payload that is no object was dropped. -/
  | otherPayload (data : Json)
  | inputClosed
  | unknownMethod
  | requestFailed
  | initialized
  | analysisFailed

namespace Notice

def level : Notice → NoticeLevel
  | noLength _ | unknownMethod => .warning
  | malformedPayload _ | otherPayload _ | requestFailed => .error
  | inputClosed | initialized => .info
  | analysisFailed => .debug

/-- The text of a notice, with a place for each particular. -/
def template : Notice → String
  | noLength _ => "Dropping header block without Content-Length: %r"
  | malformedPayload _ => "Dropping malformed message payload: %s"
  | otherPayload _ => "Dropping non-object message payload: %r"
  | inputClosed => "Input stream closed"
  | unknownMethod => "Unknown method: %s"
  | requestFailed => "Error handling %s"
  | initialized => "%s initialized"
  | analysisFailed => "Analysis of %s failed: %s"

end Notice
end PageScript
