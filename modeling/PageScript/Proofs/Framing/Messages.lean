import Mathlib.Data.List.TakeWhile
import PageScript.Proofs.Framing.Headers
import PageScript.Proofs.Json.RoundTrip

/-!
Messages survive writing and reading. A written message is one header and a payload of exactly the
length that the header gives, so it is the front of every stream that begins with it; and a stream
of written messages is drained to these messages, however it is cut.
-/
namespace PageScript.Frame
open Text

/-! ### Headers -/

/-- The header of a payload of so many bytes. -/
def headerText (size : Nat) : List Char := "Content-Length: ".toList ++ Nat.toDigits 10 size

theorem isGraphic_headerText {size : Nat} {c : Char} (h : c ∈ headerText size) :
    IsGraphic c := by
  rcases List.mem_append.1 h with h | h
  · exact isGraphic_of_all (by decide) c h
  · exact Json.isGraphic_toDigits h

theorem isDigit_asciiByte {c : Char} (h : c.isDigit) : isDigit (asciiByte c) := by
  obtain ⟨hlow, hhigh⟩ := Numeral.toNat_of_isDigit h
  have := toNat_asciiByte (show c.toNat < 0x80 by omega)
  simp only [isDigit, Bool.and_eq_true, decide_eq_true_eq, UInt8.le_iff_toNat_le, this]
  exact ⟨hlow, hhigh⟩

theorem isHeader_headerText (size : Nat) : IsHeader ((headerText size).map asciiByte) := by
  apply isHeader_of_not_mem
  intro hmem
  obtain ⟨c, hc, hbyte⟩ := List.mem_map.1 hmem
  have hgraphic := isGraphic_headerText hc
  have hcode := toNat_asciiByte hgraphic.ascii
  rw [hbyte] at hcode
  have hreturn : (0x0d : UInt8).toNat = 13 := rfl
  have := hgraphic.1
  omega

/-- The digits of the length are found behind the name of the field and a blank. -/
theorem firstLength_field {digits : List UInt8} (hne : digits ≠ [])
    (hdigits : ∀ b ∈ digits, isDigit b) :
    FirstLength ("Content-Length: ".toList.map asciiByte ++ digits) digits := by
  have hfield : "Content-Length: ".toList.map asciiByte =
      "Content-Length:".toList.map asciiByte ++ [0x20] := by decide
  refine .here ⟨⟨"Content-Length:".toList.map asciiByte, [0x20], [], ?_, by decide,
    List.forall_mem_singleton.2 rfl, nofun⟩, hne, hdigits⟩
  rw [hfield, List.append_nil]

theorem firstLength_headerText (size : Nat) :
    FirstLength ((headerText size).map asciiByte) ((Nat.toDigits 10 size).map asciiByte) := by
  unfold headerText
  rw [List.map_append]
  apply firstLength_field
  · simp [Nat.toDigits_ne_nil]
  · intro b hb
    obtain ⟨c, hc, rfl⟩ := List.mem_map.1 hb
    exact isDigit_asciiByte (Nat.isDigit_of_mem_toDigits (by omega) (by omega) hc)

theorem digitsValue_map_asciiByte {cs : List Char} (h : ∀ c ∈ cs, c.isDigit) :
    digitsValue (cs.map asciiByte) = Nat.ofDigitChars 10 cs 0 := by
  have hvalues : (cs.map asciiByte).map (fun b => b.toNat - 0x30) =
      cs.map fun c => c.toNat - 48 := by
    rw [List.map_map]
    apply List.map_congr_left
    intro c hc
    have := Numeral.toNat_of_isDigit (h c hc)
    rw [Function.comp, toNat_asciiByte (by omega)]
  rw [← Numeral.ofDigits_map, ← hvalues, Numeral.ofDigits, List.foldl_map]
  rfl

/-! ### Messages -/

/-- A message with its header. -/
def framed (message : Message) : String :=
  "Content-Length: " ++ toString (Json.object message).compact.utf8ByteSize ++ "\r\n\r\n" ++
    (Json.object message).compact

/-- A message is written with its header, unless it holds an integer that cannot be written. -/
theorem encode?_eq (message : Message) :
    encode? message = if (Json.object message).fitsText then some (framed message) else none :=
  rfl

theorem encode?_eq_framed {message : Message} (h : (Json.object message).isExact) :
    encode? message = some (framed message) :=
  if_pos (Json.fitsText_of_isExact _ h)

section
variable {message : Message} (h : (Json.object message).isExact)
include h

theorem isGraphic_compact : ∀ c ∈ (Json.object message).compact.toList, IsGraphic c := by
  rw [Json.compact, String.toList_ofList]
  exact Json.isGraphic_compactOnto _ h (by simp)

theorem utf8ByteSize_compact :
    (Json.object message).compact.utf8ByteSize = (Json.object message).compact.toList.length := by
  have := utf8ByteSize_ofList fun c hc => (isGraphic_compact h c hc).ascii
  rwa [String.ofList_toList] at this

/-- A header, an empty line and the payload. -/
theorem toList_framed :
    (framed message).toList = headerText (Json.object message).compact.toList.length ++
      '\r' :: '\n' :: '\r' :: '\n' :: (Json.object message).compact.toList := by
  unfold framed headerText
  rw [utf8ByteSize_compact h]
  simp only [String.toList_append, Nat.toString_eq_repr, Nat.toList_repr]
  simp

theorem framed_ascii : ∀ c ∈ (framed message).toList, c.toNat < 0x80 := by
  rw [toList_framed h, List.forall_mem_append]
  constructor
  · intro c hc
    exact (isGraphic_headerText hc).ascii
  · simp only [List.forall_mem_cons]
    exact ⟨by decide, by decide, by decide, by decide, fun c hc => (isGraphic_compact h c hc).ascii⟩

/-- The bytes of a message. -/
theorem toUTF8_framed :
    (framed message).toUTF8.toList =
      (headerText (Json.object message).compact.toList.length).map asciiByte ++ emptyLine ++
        (Json.object message).compact.toList.map asciiByte := by
  have := toUTF8_ofList (framed_ascii h)
  rw [String.ofList_toList, toList_framed h] at this
  rw [this, List.map_append, List.append_assoc]
  rfl

/-- A payload is read as the message that was written. -/
theorem ofBytes_compact :
    Json.ofBytes ((Json.object message).compact.toList.map asciiByte) = .ok (.object message) := by
  rw [Json.ofBytes, detect?_map_asciiByte (isGraphic_compact h)]
  exact Json.read_compact h

/-- **A written message is the front** of every stream that begins with it. -/
theorem front_framed
    (hsize : (Json.object message).compact.utf8ByteSize < 10 ^ Numeral.maxDigits)
    (more : List UInt8) :
    front ((framed message).toUTF8.toList ++ more) = .message message more := by
  rw [utf8ByteSize_compact h] at hsize
  rw [toUTF8_framed h, front_sized (isHeader_headerText _) (firstLength_headerText _), payloadFront,
    ofBytes_compact h]
  · rw [List.length_map]
    exact (Nat.length_toDigits_le_iff (by omega) (by decide)).2 hsize
  · rw [digitsValue_map_asciiByte, Nat.ofDigitChars_ten_toDigits, List.length_map]
    exact fun c hc => Nat.isDigit_of_mem_toDigits (by omega) (by omega) hc

/-- Draining takes a written message out first. -/
theorem drain_framed
    (hsize : (Json.object message).compact.utf8ByteSize < 10 ^ Numeral.maxDigits)
    (more : List UInt8) :
    drain ((framed message).toUTF8.toList ++ more) =
      { drain more with messages := message :: (drain more).messages } := by
  rw [drain_eq, next_eq, front_framed h hsize]
  rfl

end

/-! ### Streams of messages -/

theorem mapM_encode? {messages : List Message}
    (h : ∀ message ∈ messages, (Json.object message).isExact) :
    messages.mapM encode? = some (messages.map framed) := by
  induction messages with
  | nil => rfl
  | cons message messages ih =>
    rw [List.forall_mem_cons] at h
    rw [List.mapM_cons, encode?_eq_framed h.1, ih h.2]
    rfl

theorem drain_flatMap_framed {messages : List Message}
    (h : ∀ message ∈ messages, (Json.object message).isExact)
    (hsize : ∀ message ∈ messages,
      (Json.object message).compact.utf8ByteSize < 10 ^ Numeral.maxDigits) :
    drain (messages.flatMap fun message => (framed message).toUTF8.toList) =
      ⟨messages, [], [], false⟩ := by
  induction messages with
  | nil => exact drain_nil
  | cons message messages ih =>
    rw [List.forall_mem_cons] at h hsize
    rw [List.flatMap_cons, drain_framed h.1 hsize.1, ih h.2 hsize.2]

/-- Whether bytes are messages that were written one behind another: each as a header with the
number of bytes of its body, an empty line, and the body. Messages that survive writing and reading
are drained from them again. -/
structure IsStreamOf (bytes : List UInt8) (messages : List Message) : Prop where
  eq_flatMap : bytes = messages.flatMap fun message => (framed message).toUTF8.toList
  fitsText : ∀ message ∈ messages, (Json.object message).fitsText
  drain_eq : (∀ message ∈ messages, (Json.object message).isExact ∧
      (Json.object message).compact.utf8ByteSize < 10 ^ Numeral.maxDigits) →
    drain bytes = ⟨messages, [], [], false⟩

namespace IsStreamOf
variable {bytes more : List UInt8} {messages others : List Message}

theorem of_flatMap (hfits : ∀ message ∈ messages, (Json.object message).fitsText) :
    IsStreamOf (messages.flatMap fun message => (framed message).toUTF8.toList) messages where
  eq_flatMap := rfl
  fitsText := hfits
  drain_eq h := drain_flatMap_framed (fun message hm => (h message hm).1) fun message hm =>
    (h message hm).2

theorem nil : IsStreamOf [] [] :=
  have hnone : ∀ message ∈ ([] : List Message), (Json.object message).fitsText := nofun
  of_flatMap hnone

theorem append (h : IsStreamOf bytes messages) (hmore : IsStreamOf more others) :
    IsStreamOf (bytes ++ more) (messages ++ others) := by
  rw [h.eq_flatMap, hmore.eq_flatMap, ← List.flatMap_append]
  exact of_flatMap (List.forall_mem_append.2 ⟨h.fitsText, hmore.fitsText⟩)

end IsStreamOf

/-- Feeding chunks with a drain after each comes to what draining all of them gives. -/
theorem perform_chunks (chunks : List (List UInt8)) (h : (drain chunks.flatten).failed = false) :
    perform (chunks.flatMap fun chunk => [.feed chunk, .drain]) = drain chunks.flatten := by
  have hfed : ∀ chunks : List (List UInt8),
      fed (chunks.flatMap fun chunk => [.feed chunk, .drain]) = chunks.flatten := by
    intro chunks
    induction chunks with
    | nil => rfl
    | cons chunk chunks ih =>
      rw [List.flatMap_cons, fed_append, ih]
      simp [fed, Action.fed]
  induction chunks using List.reverseRecOn with
  | nil => exact drain_nil.symm
  | append_singleton chunks chunk _ =>
    have hlast : fed (chunks.flatMap (fun chunk => [.feed chunk, .drain]) ++ [.feed chunk]) =
        (chunks ++ [chunk]).flatten := by
      rw [fed_append, hfed, fed_feed]
      simp
    rw [← hlast] at h ⊢
    rw [← perform_append_drain _ h]
    simp

/-- **Messages survive writing and reading.** Let messages hold no doubles, no integers that are too
long to write, and no object with a name twice. Each length must have no more digits than a header
may give, which holds of every text that fits into a memory. Then each message is written as a
header with the exact number of bytes of its body, an empty line, and a body without line breaks,
all in ASCII; and however the stream of all of them is cut, with a drain after each chunk, exactly
these messages come out in order, nothing is noted, and nothing is left. -/
theorem messages_survive (messages : List Message)
    (h : ∀ message ∈ messages, (Json.object message).isExact)
    (hsize : ∀ message ∈ messages,
      (Json.object message).compact.utf8ByteSize < 10 ^ Numeral.maxDigits) :
    ∃ texts, messages.mapM encode? = some texts ∧
      (∀ text ∈ texts, (∀ c ∈ text.toList, c.toNat < 0x80) ∧ ∃ body : String,
        text = "Content-Length: " ++ toString body.utf8ByteSize ++ "\r\n\r\n" ++ body ∧
        '\r' ∉ body.toList ∧ '\n' ∉ body.toList) ∧
      ∀ chunks : List (List UInt8),
        chunks.flatten = texts.flatMap (fun text => text.toUTF8.toList) →
        perform (chunks.flatMap fun chunk => [.feed chunk, .drain]) =
          ⟨messages, [], [], false⟩ := by
  refine ⟨messages.map framed, mapM_encode? h, ?_, ?_⟩
  · intro text htext
    obtain ⟨message, hmessage, rfl⟩ := List.mem_map.1 htext
    have hgraphic := isGraphic_compact (h message hmessage)
    refine ⟨framed_ascii (h message hmessage), _, rfl, ?_, ?_⟩
    · intro hmem
      exact absurd (hgraphic _ hmem) (by decide)
    · intro hmem
      exact absurd (hgraphic _ hmem) (by decide)
  · intro chunks hchunks
    have hdrain : drain chunks.flatten = ⟨messages, [], [], false⟩ := by
      rw [hchunks, List.flatMap_map]
      exact drain_flatMap_framed h hsize
    rw [perform_chunks chunks (by rw [hdrain]), hdrain]

/-- A string that looks like a header and holds a quote and a character of two units, beside nested
data, and then an empty message; every byte comes by itself. -/
theorem messages_survive_header :
    let messages : List Message :=
      [[("text", .string "Content-Length: 0\r\n\r\n\"😀"),
        ("a", .array [.int (-70), .null, .object [("b", .bool true), ("a", .string "")]])], []]
    let stream := ((messages.mapM encode?).getD []).flatMap fun text => text.toUTF8.toList
    (∀ message ∈ messages, (Json.object message).isExact) ∧
      (∀ message ∈ messages,
        (Json.object message).compact.utf8ByteSize < 10 ^ Numeral.maxDigits) ∧
      100 < stream.length ∧
      perform ((stream.map fun b => [b]).flatMap fun chunk => [.feed chunk, .drain]) =
        ⟨messages, [], [], false⟩ := by
  intro messages stream
  have hexact : ∀ message ∈ messages, (Json.object message).isExact := by decide +kernel
  have hsize : ∀ message ∈ messages,
      (Json.object message).compact.utf8ByteSize < 10 ^ Numeral.maxDigits := by decide +kernel
  obtain ⟨texts, htexts, -, hperform⟩ := messages_survive messages hexact hsize
  have hstream : stream = texts.flatMap fun text => text.toUTF8.toList := by
    show ((messages.mapM encode?).getD []).flatMap _ = _
    rw [htexts]
    rfl
  have hcut : (stream.map fun b => [b]).flatten = stream := by
    rw [← List.flatMap_def, List.flatMap_singleton']
  exact ⟨hexact, hsize, by decide +kernel, hperform _ (hcut.trans hstream)⟩

end PageScript.Frame
