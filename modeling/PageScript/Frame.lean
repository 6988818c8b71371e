import PageScript.Json.Reader
import PageScript.Json.Writer
import PageScript.Notice

/-!
Messages in a stream of bytes. A message is an object in JSON behind a block of headers, which ends
with an empty line and gives the length of the payload. A block without a length is dropped, and so
is a payload that is no object; reading goes on behind them. Nothing is taken out of the stream
before all of it has arrived.
-/
namespace PageScript

/-- A message: the entries of an object. -/
abbrev Message := Fields Json

namespace Frame

/-! ### Headers -/

/-- The header block at the front of a stream and what follows the empty line. -/
def splitHeader : List UInt8 → Option (List UInt8 × List UInt8)
  | [] => none
  | 0x0d :: 0x0a :: 0x0d :: 0x0a :: rest => some ([], rest)
  | b :: rest => (splitHeader rest).map fun (header, after) => (b :: header, after)

/-- What follows a header is shorter than the stream. -/
theorem length_splitHeader {bytes header after : List UInt8}
    (h : splitHeader bytes = some (header, after)) : after.length < bytes.length := by
  fun_induction splitHeader bytes generalizing header after with
  | case1 => simp at h
  | case2 rest => simp only [Option.some.injEq, Prod.mk.injEq] at h; simp [← h.2]; omega
  | case3 b rest _ ih =>
    obtain ⟨⟨header', after'⟩, hs, he⟩ := Option.map_eq_some_iff.1 h
    cases he
    have := ih hs
    simp only [List.length_cons]
    omega

/-- A byte with ASCII capitals made small. -/
def lower (b : UInt8) : UInt8 := if 0x41 ≤ b ∧ b ≤ 0x5a then b + 0x20 else b

def isBlank (b : UInt8) : Bool := b == 0x20 || (0x09 ≤ b && b ≤ 0x0d)

def isDigit (b : UInt8) : Bool := 0x30 ≤ b && b ≤ 0x39

/-- The name of the field that gives the length, with its colon, in small letters. -/
def lengthField : List UInt8 := "content-length:".toList.map fun c => UInt8.ofNat c.toNat

/-- The digits of a length field that begins right at the front. -/
def lengthHere? (bytes : List UInt8) : Option (List UInt8) :=
  if lengthField.isPrefixOf ((bytes.take lengthField.length).map lower) then
    match ((bytes.drop lengthField.length).dropWhile isBlank).takeWhile isDigit with
    | [] => none
    | digits => some digits
  else none

/-- The digits of the first length field, wherever it begins. -/
def lengthDigits? : List UInt8 → Option (List UInt8)
  | [] => none
  | b :: rest =>
    match lengthHere? (b :: rest) with
    | some digits => some digits
    | none => lengthDigits? rest

/-- The number that digits stand for. -/
def digitsValue (digits : List UInt8) : Nat :=
  digits.foldl (fun n b => 10 * n + (b.toNat - 0x30)) 0

/-! ### The front of a stream -/

/-- What stands at the front of a stream, and the bytes behind it. -/
inductive Front where
  /-- Not all of the first block or its payload has arrived. -/
  | incomplete
  | message (message : Message) (rest : List UInt8)
  /-- Something that is no message and is to be noted. -/
  | dropped (notice : Notice) (rest : List UInt8)
  /-- A length or an integer has more digits than can be read. -/
  | failed (rest : List UInt8)

/-- A payload and what follows it. -/
def payloadFront (payload rest : List UInt8) : Front :=
  match Json.ofBytes payload with
  | .ok (.object entries) => .message entries rest
  | .ok data => .dropped (.otherPayload data) rest
  | .error .malformed => .dropped (.malformedPayload payload) rest
  | .error .oversizedInteger => .failed rest

/-- Reads the front of a stream. A length that cannot be read leaves its block where it is; an integer
that cannot be read is gone with its message. -/
def front (bytes : List UInt8) : Front :=
  match splitHeader bytes with
  | none => .incomplete
  | some (header, after) =>
    match lengthDigits? header with
    | none => .dropped (.noLength header) after
    | some digits =>
      if Numeral.maxDigits < digits.length then .failed bytes
      else if after.length < digitsValue digits then .incomplete
      else payloadFront (after.take (digitsValue digits)) (after.drop (digitsValue digits))

/-- Whether less than `size` bytes are left behind the front, or no more if it is a failure. -/
def Front.Shrinks (size : Nat) : Front → Prop
  | incomplete => True
  | message _ rest | dropped _ rest => rest.length < size
  | failed rest => rest.length ≤ size

theorem payloadFront_shrinks {size : Nat} (payload : List UInt8) {rest : List UInt8}
    (h : rest.length < size) : (payloadFront payload rest).Shrinks size := by
  unfold payloadFront
  split
  · exact h
  · exact h
  · exact h
  · exact Nat.le_of_lt h

theorem front_shrinks (bytes : List UInt8) : (front bytes).Shrinks bytes.length := by
  unfold front
  split
  · trivial
  · next header after h =>
    have hlt := length_splitHeader h
    split
    · exact hlt
    · split
      · exact Nat.le_refl _
      · split
        · trivial
        · exact payloadFront_shrinks _ (Nat.lt_of_le_of_lt (by simp) hlt)

/-! ### Taking messages -/

/-- How a search for the next message ends. -/
inductive Pulled where
  | message (message : Message)
  /-- Nothing more can be taken until more bytes arrive. -/
  | idle
  /-- A length or an integer has more digits than can be read. -/
  | failed

/-- What was noted on the way to the next message, what was found, and the bytes that remain. -/
structure Pull where
  notices : List Notice
  found : Pulled
  rest : List UInt8

/-- A search that noted something before it went on. -/
def Pull.after (notice : Notice) (p : Pull) : Pull := { p with notices := notice :: p.notices }

/-- Takes the next message, and drops what stands before it and is none. -/
def next (bytes : List UInt8) : Pull :=
  match _h : front bytes with
  | .incomplete => ⟨[], .idle, bytes⟩
  | .message message rest => ⟨[], .message message, rest⟩
  | .dropped notice rest => (next rest).after notice
  | .failed rest => ⟨[], .failed, rest⟩
termination_by bytes.length
decreasing_by have := front_shrinks bytes; rw [_h] at this; exact this

/-- A search never leaves more bytes than there were, and fewer if it found a message. -/
theorem length_rest_next (bytes : List UInt8) :
    (next bytes).rest.length ≤ bytes.length ∧
      ∀ message, (next bytes).found = .message message →
        (next bytes).rest.length < bytes.length := by
  have hfront := front_shrinks bytes
  fun_induction next bytes with
  | case1 bytes h => simp
  | case2 bytes message rest h =>
    rw [h] at hfront
    exact ⟨Nat.le_of_lt hfront, fun _ _ => hfront⟩
  | case3 bytes notice rest h ih =>
    rw [h] at hfront
    obtain ⟨hle, hlt⟩ := ih (front_shrinks rest)
    exact ⟨Nat.le_of_lt (Nat.lt_of_le_of_lt hle hfront),
      fun m hm => Nat.lt_trans (hlt m hm) hfront⟩
  | case4 bytes rest h =>
    rw [h] at hfront
    exact ⟨hfront, by simp⟩

/-- What comes of taking several messages. -/
structure Drain where
  messages : List Message
  notices : List Notice
  rest : List UInt8
  failed : Bool

/-- A search that found something before others. -/
def Drain.after (p : Pull) (message : Message) (d : Drain) : Drain :=
  { d with messages := message :: d.messages, notices := p.notices ++ d.notices }

/-- Takes at most `limit` messages, and stops right behind the last of them. -/
def take : (limit : Nat) → List UInt8 → Drain
  | 0, bytes => ⟨[], [], bytes, false⟩
  | limit + 1, bytes =>
    let p := next bytes
    match p.found with
    | .message message => (take limit p.rest).after p message
    | .idle => ⟨[], p.notices, p.rest, false⟩
    | .failed => ⟨[], p.notices, p.rest, true⟩

/-- Takes all messages that have arrived. -/
def drain (bytes : List UInt8) : Drain :=
  let p := next bytes
  match _h : p.found with
  | .message message => (drain p.rest).after p message
  | .idle => ⟨[], p.notices, p.rest, false⟩
  | .failed => ⟨[], p.notices, p.rest, true⟩
termination_by bytes.length
decreasing_by exact (length_rest_next bytes).2 _ _h

/-! ### Writing messages -/

/-- A message with its header; `none` if it holds an integer with too many digits to write. -/
def encode? (message : Message) : Option String :=
  let data := Json.object message
  if data.fitsText then
    let body := data.compact
    some ("Content-Length: " ++ toString body.utf8ByteSize ++ "\r\n\r\n" ++ body)
  else none

end Frame
end PageScript
