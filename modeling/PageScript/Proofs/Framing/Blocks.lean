import PageScript.Proofs.Framing.Headers
import PageScript.Proofs.Json.LongIntegers

/-!
Bad blocks never disturb good ones. A stream may hold headers without a length, and payloads that
are malformed or no objects, in any order and number among messages: each block is taken out by
itself, the messages come out in order, and each other block leaves one notice.
-/
namespace PageScript.Frame

/-! ### Blocks -/

/-- A complete part of a stream: a header that gives no length, or one with the payload whose length
it gives. -/
inductive Block where
  | unsized (header : List UInt8)
  | sized (header payload : List UInt8)

namespace Block

def bytes : Block → List UInt8
  | unsized header => header ++ emptyLine
  | sized header payload => header ++ emptyLine ++ payload

/-- The message in a block, or what is noted when it is dropped. -/
def outcome : Block → Except Notice Message
  | unsized header => .error (.noLength header)
  | sized _ payload =>
    match Json.ofBytes payload with
    | .ok (.object entries) => .ok entries
    | .ok data => .error (.otherPayload data)
    | .error _ => .error (.malformedPayload payload)

def message? (block : Block) : Option Message :=
  match block.outcome with
  | .ok message => some message
  | .error _ => none

def notice? (block : Block) : Option Notice :=
  match block.outcome with
  | .ok _ => none
  | .error notice => some notice

/-- How bad it is for a block to be without a message. -/
def level : Block → NoticeLevel
  | unsized _ => .warning
  | sized _ _ => .error

/-- Whether a block is what it says it is: its header ends at its first empty line, and gives no
length, or the one of the payload. Neither the length nor an integer in the payload may have too
many digits. -/
inductive IsFramed : Block → Prop where
  | unsized {header : List UInt8} (hheader : IsHeader header) (hlength : NoLength header) :
    IsFramed (.unsized header)
  | sized {header payload digits : List UInt8} (hheader : IsHeader header)
    (hlength : FirstLength header digits) (hdigits : digits.length ≤ Numeral.maxDigits)
    (hsize : digitsValue digits = payload.length) (hintegers : ¬ Json.HoldsLongInteger payload) :
    IsFramed (.sized header payload)

instance : DecidablePred IsFramed
  | unsized header =>
    decidable_of_iff (splitHeader (header ++ emptyLine) = some (header, []) ∧
      lengthDigits? header = none) <| by
        rw [splitHeader_eq_some_iff, List.append_nil, lengthDigits?_eq_none_iff]
        constructor
        · rintro ⟨⟨hheader, -⟩, hlength⟩
          exact .unsized hheader hlength
        · intro h
          cases h with
          | unsized hheader hlength => exact ⟨⟨hheader, rfl⟩, hlength⟩
  | sized header payload =>
    decidable_of_iff (splitHeader (header ++ emptyLine) = some (header, []) ∧
      (∃ digits ∈ lengthDigits? header, digits.length ≤ Numeral.maxDigits ∧
        digitsValue digits = payload.length) ∧ ¬ Json.HoldsLongInteger payload) <| by
        rw [splitHeader_eq_some_iff, List.append_nil]
        constructor
        · rintro ⟨⟨hheader, -⟩, ⟨digits, hlength, hdigits, hsize⟩, hintegers⟩
          exact .sized hheader (lengthDigits?_eq_some_iff.1 hlength) hdigits hsize hintegers
        · intro h
          cases h with
          | sized hheader hlength hdigits hsize hintegers =>
            exact ⟨⟨hheader, rfl⟩, ⟨_, lengthDigits?_eq_some_iff.2 hlength, hdigits, hsize⟩,
              hintegers⟩

theorem level_of_outcome {block : Block} {notice : Notice} (h : block.outcome = .error notice) :
    notice.level = block.level := by
  cases block with
  | unsized header =>
    cases h
    rfl
  | sized header payload =>
    simp only [outcome] at h
    split at h <;> cases h <;> rfl

/-! ### The front -/

/-- **A block is the front** of every stream that begins with it. -/
theorem front_bytes {block : Block} (h : block.IsFramed) (rest : List UInt8) :
    front (block.bytes ++ rest) =
      match block.outcome with
      | .ok message => .message message rest
      | .error notice => .dropped notice rest := by
  cases h with
  | @unsized header hheader hlength =>
    simp only [bytes, outcome, front, splitHeader_of_isHeader hheader,
      lengthDigits?_eq_none_iff.2 hlength]
  | @sized header payload digits hheader hlength hdigits hsize hintegers =>
    rw [bytes, front_sized hheader hlength hdigits hsize, payloadFront]
    simp only [outcome]
    cases hread : Json.ofBytes payload with
    | ok data => cases data <;> rfl
    | error e =>
      cases e with
      | malformed => rfl
      | oversizedInteger => exact absurd (Json.ofBytes_eq_oversized_iff.1 hread) hintegers

end Block

/-! ### One block after another -/

theorem drain_of_incomplete {bytes : List UInt8} (h : front bytes = .incomplete) :
    drain bytes = .waiting bytes := by
  rw [drain_eq, next_eq, h]
  rfl

theorem drain_of_failed {bytes rest : List UInt8} (h : front bytes = .failed rest) :
    drain bytes = ⟨[], [], rest, true⟩ := by
  rw [drain_eq, next_eq, h]

theorem drain_of_message {bytes rest : List UInt8} {message : Message}
    (h : front bytes = .message message rest) :
    drain bytes = (Drain.mk [message] [] [] false).andThen (drain rest) := by
  rw [drain_eq, next_eq, h]
  rfl

theorem drain_of_dropped {bytes rest : List UInt8} {notice : Notice}
    (h : front bytes = .dropped notice rest) :
    drain bytes = (Drain.mk [] [notice] [] false).andThen (drain rest) := by
  rw [drain_eq bytes, next_eq, h, drain_eq rest]
  simp only [Pull.after]
  cases (next rest).found <;> rfl

/-- What comes of blocks. -/
def drained (blocks : List Block) : Drain :=
  ⟨blocks.filterMap Block.message?, blocks.filterMap Block.notice?, [], false⟩

theorem drained_cons (block : Block) (blocks : List Block) :
    drained (block :: blocks) = (drained [block]).andThen (drained blocks) := by
  cases h : block.outcome <;>
    simp [drained, Drain.andThen, Block.message?, Block.notice?, h]

theorem drain_block {block : Block} (h : block.IsFramed) (rest : List UInt8) :
    drain (block.bytes ++ rest) = (drained [block]).andThen (drain rest) := by
  have hfront := Block.front_bytes h rest
  cases houtcome : block.outcome with
  | ok message =>
    rw [houtcome] at hfront
    rw [drain_of_message hfront]
    simp [drained, Block.message?, Block.notice?, houtcome]
  | error notice =>
    rw [houtcome] at hfront
    rw [drain_of_dropped hfront]
    simp [drained, Block.message?, Block.notice?, houtcome]

/-- **Blocks are drained one after another**, and then what is behind them. -/
theorem drain_blocks {blocks : List Block} (h : ∀ block ∈ blocks, block.IsFramed)
    (rest : List UInt8) :
    drain (blocks.flatMap Block.bytes ++ rest) = (drained blocks).andThen (drain rest) := by
  induction blocks with
  | nil => rfl
  | cons block blocks ih =>
    rw [List.forall_mem_cons] at h
    rw [List.flatMap_cons, List.append_assoc, drain_block h.1, ih h.2, ← Drain.andThen_assoc,
      ← drained_cons]

/-- Each block without a message leaves one notice, as bad as the block. -/
theorem level_notices (blocks : List Block) :
    (blocks.filterMap Block.notice?).map Notice.level =
      (blocks.filter fun block => block.message?.isNone).map Block.level := by
  induction blocks with
  | nil => rfl
  | cons block blocks ih =>
    cases h : block.outcome with
    | ok message => simp [Block.message?, Block.notice?, h, ih]
    | error notice => simp [Block.message?, Block.notice?, h, ih, Block.level_of_outcome h]

/-- **Bad blocks never disturb good ones.** Let a stream consist of blocks of any kind in any order.
However it is cut, and whatever is taken out in between, a drain in the end has taken out exactly
the messages of those blocks whose payload is an object, in order; nothing is left and nothing fails;
and each other block has left exactly one notice, in order: a warning if its header gives no length,
and else an error. -/
theorem blocks_apart (blocks : List Block) (h : ∀ block ∈ blocks, block.IsFramed)
    (schedule : List Action) (hfed : fed schedule = blocks.flatMap Block.bytes) :
    perform (schedule ++ [.drain]) =
        ⟨blocks.filterMap Block.message?, blocks.filterMap Block.notice?, [], false⟩ ∧
      (blocks.filterMap Block.notice?).map Notice.level =
        (blocks.filter fun block => block.message?.isNone).map Block.level := by
  have hdrain : drain (fed schedule) = drained blocks := by
    have := drain_blocks h []
    rw [List.append_nil, drain_nil] at this
    rw [hfed, this]
    simp [drained, Drain.andThen, Drain.waiting]
  refine ⟨?_, level_notices blocks⟩
  rw [perform_append_drain schedule (by rw [hdrain]; rfl), hdrain]
  rfl

/-- Two messages among a header without a length, a payload that looks like a header and holds an
empty line, an array, and an empty header; every byte comes by itself. -/
theorem blocks_apart_mixed :
    let bytes (text : String) : List UInt8 := text.toUTF8.toList
    let blocks : List Block :=
      [.unsized (bytes "X-Other: 1"), .sized (bytes "Content-Length: 2") (bytes "\x7b\x7d"),
        .sized (bytes "Type: x\r\ncontent-LENGTH:\t 23") (bytes "\r\n\r\nContent-Length: 2\r\n"),
        .sized (bytes "Content-Length:3") (bytes "[1]"), .unsized [],
        .sized (bytes "Content-Length: 0007") (bytes "\x7b\"a\":1\x7d")]
    let schedule := (blocks.flatMap Block.bytes).flatMap fun b => [.feed [b], .take 1]
    (∀ block ∈ blocks, block.IsFramed) ∧ fed schedule = blocks.flatMap Block.bytes ∧
      (perform (schedule ++ [.drain])).messages.map (fun message => (Json.object message).compact) =
        ["\x7b\x7d", "\x7b\"a\":1\x7d"] ∧
      (perform (schedule ++ [.drain])).notices.map Notice.level =
        [.warning, .error, .error, .warning] ∧
      (perform (schedule ++ [.drain])).rest = [] := by
  intro bytes blocks schedule
  have hframed : ∀ block ∈ blocks, block.IsFramed := by decide +kernel
  have hfed : fed schedule = blocks.flatMap Block.bytes := by decide +kernel
  have hmessages : (blocks.filterMap Block.message?).map (fun message =>
      (Json.object message).compact) = ["\x7b\x7d", "\x7b\"a\":1\x7d"] := by decide +kernel
  have hlevels : (blocks.filter fun block => block.message?.isNone).map Block.level =
      [.warning, .error, .error, .warning] := by decide +kernel
  obtain ⟨hperform, hnotices⟩ := blocks_apart blocks hframed schedule hfed
  rw [hperform]
  exact ⟨hframed, hfed, hmessages, hnotices.trans hlevels, rfl⟩

end PageScript.Frame
