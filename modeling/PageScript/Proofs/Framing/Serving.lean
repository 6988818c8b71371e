import PageScript.Editor.Serve
import PageScript.Proofs.Framing.Messages

/-!
Serving. However a stream arrives, its messages are handled one after another, and the responses are
written in the same order, as if the handler had been given all messages of the stream at once. If a
message ends the server, what was answered before is all that is written, and nothing behind it is
handled.
-/
namespace PageScript

namespace Frame

/-- A stream may be drained in two parts, unless the first already fails. -/
theorem drain_append {bytes : List UInt8} (h : (drain bytes).failed = false) (more : List UInt8) :
    drain (bytes ++ more) = (drain bytes).andThen (drain ((drain bytes).rest ++ more)) := by
  obtain ⟨limit, hlimit⟩ := exists_take_eq_drain bytes
  rw [← hlimit] at h ⊢
  exact drain_append_of_take h more

end Frame

/-! ### Handlers -/

namespace Reply

/-- The response, if there is one. -/
def responses : Reply → List Message
  | response message => [message]
  | silent | exit _ | badMethod => []

/-- Why nothing is handled after a message with this reply, if it is so. -/
def ending? (reply : Reply) : Option Ending :=
  match reply.written with
  | .ok _ => none
  | .error ending => some ending

/-- A reply that does not end the server is written, if it is a response. -/
theorem exists_written {reply : Reply} (h : reply.ending? = none) :
    ∃ bytes, reply.written = .ok bytes ∧ Frame.IsStreamOf bytes reply.responses := by
  cases reply with
  | silent => exact ⟨[], rfl, .nil⟩
  | response message =>
    by_cases hfits : (Json.object message).fitsText
    · refine ⟨(Frame.framed message).toUTF8.toList, ?_, ?_⟩
      · simp only [written, Frame.encode?_eq, if_pos hfits]
      · have hstream := Frame.IsStreamOf.of_flatMap (List.forall_mem_singleton.2 hfits)
        rwa [List.flatMap_singleton] at hstream
    · simp [ending?, written, Frame.encode?_eq, hfits] at h
  | exit | badMethod => cases h

theorem written_of_ending {reply : Reply} {ending : Ending} (h : reply.ending? = some ending) :
    reply.written = .error ending := by
  unfold ending? at h
  split at h
  · cases h
  · next found hfound => rw [hfound, Option.some.inj h]

end Reply

/-- What a handler has come to: its state, and the responses that it has given. -/
structure Dialogue (σ : Type) where
  state : σ
  responses : List Message

namespace Dialogue
variable {σ : Type} (handle : σ → Message → Reaction σ)

/-- One more message, and the response to it. -/
def next (d : Dialogue σ) (message : Message) : Dialogue σ :=
  let r := handle d.state message
  ⟨r.state, d.responses ++ r.reply.responses⟩

/-- The messages handled one after another. -/
def through (state : σ) (messages : List Message) : Dialogue σ :=
  messages.foldl (next handle) ⟨state, []⟩

/-- Why nothing is handled after a message that comes behind others, if it is so. -/
def endingAt? (state : σ) (before : List Message) (message : Message) : Option Ending :=
  (handle (through handle state before).state message).reply.ending?

/-- No message is the last that is handled. -/
def GoesOn (state : σ) (messages : List Message) : Prop :=
  ∀ before message after, messages = before ++ message :: after →
    endingAt? handle state before message = none

/-- The messages handled one after another, up to the first that ends the server. -/
def handled (d : Dialogue σ) : List Message → Dialogue σ × Option Ending
  | [] => (d, none)
  | message :: rest =>
    match (handle d.state message).reply.ending? with
    | some ending => ({ d with state := (handle d.state message).state }, some ending)
    | none => handled (d.next handle message) rest

variable {handle} {d d' : Dialogue σ} {messages : List Message} {state : σ}

theorem handled_append (messages more : List Message) :
    d.handled handle (messages ++ more) =
      match d.handled handle messages with
      | (d', none) => d'.handled handle more
      | (d', some ending) => (d', some ending) := by
  induction messages generalizing d with
  | nil => rfl
  | cons message rest ih =>
    simp only [List.cons_append, handled]
    cases (handle d.state message).reply.ending? with
    | some ending => rfl
    | none => exact ih

theorem GoesOn.of_append {more : List Message} (h : GoesOn handle state (messages ++ more)) :
    GoesOn handle state messages := by
  rintro before message after rfl
  exact h before message (after ++ more) (by simp)

/-- Messages that do not end the server are all handled. -/
theorem handled_of_goesOn (h : GoesOn handle state messages) :
    handled handle ⟨state, []⟩ messages = (through handle state messages, none) := by
  induction messages using List.reverseRecOn with
  | nil => rfl
  | append_singleton messages message ih =>
    have hlast : (handle (through handle state messages).state message).reply.ending? = none :=
      h messages message [] rfl
    rw [handled_append, ih h.of_append]
    simp only [handled, hlast]
    simp only [through, List.foldl_append, List.foldl_cons, List.foldl_nil]

/-- A message that ends the server is the last that is handled. -/
theorem handled_of_ending {before after : List Message} {message : Message} {ending : Ending}
    (h : GoesOn handle state before)
    (hending : endingAt? handle state before message = some ending) :
    handled handle ⟨state, []⟩ (before ++ message :: after) =
      (⟨(handle (through handle state before).state message).state,
        (through handle state before).responses⟩, some ending) := by
  unfold endingAt? at hending
  rw [handled_append, handled_of_goesOn h]
  simp only [handled, hending]

end Dialogue

/-! ### Serving -/

namespace Served
variable {σ : Type} {handle : σ → Message → Reaction σ}

/-- What has arrived is handled as if its messages had been given to the handler, and what is written
are its responses. If none of the messages ends the server, what a drain leaves is left. -/
theorem handled_arrived (handle : σ → Message → Reaction σ) (d : Dialogue σ) {bytes : List UInt8}
    (h : (Frame.drain bytes).failed = false) :
    let served := arrived handle d.state bytes
    ∃ responses, Frame.IsStreamOf served.written responses ∧
      d.handled handle (Frame.drain bytes).messages =
        (⟨served.state, d.responses ++ responses⟩, served.ending) ∧
      (served.ending = none → served.rest = (Frame.drain bytes).rest) := by
  intro served
  have hserved : served = arrived handle d.state bytes := rfl
  rw [Frame.drain_eq] at h ⊢
  rw [arrived] at hserved
  split at hserved
  · next hf => exact ⟨[], by rw [hserved]; exact .nil, by simp [hserved, hf, Dialogue.handled]⟩
  · next hf => simp [hf] at h
  · next message hf =>
    simp only [hf, Frame.Drain.after] at h ⊢
    cases hending : (handle d.state message).reply.ending? with
    | some ending =>
      simp only [Reply.written_of_ending hending] at hserved
      exact ⟨[], by rw [hserved]; exact .nil, by simp [Dialogue.handled, hserved, hending]⟩
    | none =>
      obtain ⟨written, hwritten, hstream⟩ := Reply.exists_written hending
      simp only [hwritten] at hserved
      -- The rest is handled from the state that the first message leads to.
      obtain ⟨responses, hmore, hrest, hleft⟩ := handled_arrived handle (d.next handle message) h
      refine ⟨(handle d.state message).reply.responses ++ responses, ?_, ?_, ?_⟩
      · rw [hserved]
        exact hstream.append hmore
      · simp only [Dialogue.handled, hending]
        rw [hrest, hserved]
        simp [after, Dialogue.next]
      · rw [hserved]
        exact hleft
termination_by bytes.length
decreasing_by exact (Frame.length_rest_next bytes).2 _ ‹_›

/-- **A stream in pieces**, behind bytes in which there is nothing to find yet, is handled like all
its messages. -/
theorem handled_stream (handle : σ → Message → Reaction σ) (d : Dialogue σ)
    {waiting : List UInt8} {pieces : List (List UInt8)}
    (hwaiting : Frame.drain waiting = .waiting waiting)
    (h : (Frame.drain (waiting ++ pieces.flatten)).failed = false) :
    let served := stream handle d.state waiting pieces
    ∃ responses ending, Frame.IsStreamOf served.written responses ∧
      d.handled handle (Frame.drain (waiting ++ pieces.flatten)).messages =
        (⟨served.state, d.responses ++ responses⟩, ending) ∧
      served.ending = some (ending.getD .closed) := by
  intro served
  induction pieces generalizing d waiting with
  | nil =>
    refine ⟨[], none, .nil, ?_, rfl⟩
    rw [List.flatten_nil, List.append_nil, hwaiting]
    simp [served, stream, Frame.Drain.waiting, Dialogue.handled]
  | cons piece pieces ih =>
    rw [List.flatten_cons, ← List.append_assoc] at h ⊢
    have hpiece := Frame.failed_drain_of_append h
    obtain ⟨responses, hwritten, hhandled, hrest⟩ := handled_arrived handle d hpiece
    rw [Frame.drain_append hpiece] at h ⊢
    simp only [Frame.Drain.andThen, hpiece, Bool.false_or] at h ⊢
    rw [Dialogue.handled_append, hhandled]
    simp only [served, stream]
    cases hending : (arrived handle d.state (waiting ++ piece)).ending with
    | some ending => exact ⟨responses, some ending, hwritten, rfl, hending⟩
    | none =>
      rw [hrest hending] at *
      obtain ⟨others, ending, hothers, hmore, hclosed⟩ := ih ⟨_, d.responses ++ responses⟩
        (Frame.drain_rest_drain hpiece) h
      refine ⟨responses ++ others, ending, hwritten.append hothers, ?_, hclosed⟩
      simpa [after] using hmore

/-- **Serving is a fold of the handler over the messages.** Let a stream be drained without failure.
However it is cut into pieces, the messages that it is drained to are handled in order. If none of
them ends the server, it goes on to the end of the stream, and what is written are the responses to
all of them, one behind another, each with its header. Otherwise it ends with the first of them that
does, for its reason, without handling anything behind it, and what is written are the responses to
the messages before it. -/
theorem stream_folds_handler (handle : σ → Message → Reaction σ) (state : σ)
    (pieces : List (List UInt8)) (h : (Frame.drain pieces.flatten).failed = false) :
    let served := stream handle state [] pieces
    let messages := (Frame.drain pieces.flatten).messages
    (Dialogue.GoesOn handle state messages →
      served.ending = some .closed ∧
      Frame.IsStreamOf served.written (Dialogue.through handle state messages).responses ∧
      served.state = (Dialogue.through handle state messages).state) ∧
    ∀ before message after ending, messages = before ++ message :: after →
      Dialogue.GoesOn handle state before →
      Dialogue.endingAt? handle state before message = some ending →
      served.ending = some ending ∧
      Frame.IsStreamOf served.written (Dialogue.through handle state before).responses ∧
      served.state = (handle (Dialogue.through handle state before).state message).state := by
  intro served messages
  obtain ⟨responses, ending, hwritten, hstream, hended⟩ :=
    handled_stream handle ⟨state, []⟩ Frame.drain_nil h
  have hhandled : Dialogue.handled handle ⟨state, []⟩ messages =
      (⟨served.state, responses⟩, ending) := hstream
  have hending : served.ending = some (ending.getD .closed) := hended
  constructor
  · intro hgoes
    rw [Dialogue.handled_of_goesOn hgoes] at hhandled
    obtain ⟨hover, rfl⟩ := Prod.mk.inj hhandled
    rw [hover]
    exact ⟨hending, hwritten, rfl⟩
  · intro before message after ending' hmessages hgoes hends
    rw [hmessages, Dialogue.handled_of_ending hgoes hends] at hhandled
    obtain ⟨hlast, rfl⟩ := Prod.mk.inj hhandled
    obtain ⟨hstate, hresponses⟩ := Dialogue.mk.inj hlast
    exact ⟨hending, hresponses ▸ hwritten, hstate.symm⟩

/-- A handler that counts messages, answers the empty ones and ends the server with any other: of
three messages, cut inside a header and inside a payload, the first is answered and the third is
never handled. -/
theorem stream_folds_handler_exit :
    let handle (count : Nat) (message : Message) : Reaction Nat :=
      ⟨count + 1, [], if message.isEmpty then .response [] else .exit 3⟩
    let pieces := ["Content-Length: 2\r\n\r\n\x7b\x7dContent-".toUTF8.toList,
      "Length: 7\r\n\r\n\x7b\"a\"".toUTF8.toList,
      ":1\x7dContent-Length: 2\r\n\r\n\x7b\x7d".toUTF8.toList]
    let served := stream handle 0 [] pieces
    (Frame.drain pieces.flatten).failed = false ∧
      (Frame.drain pieces.flatten).messages.map List.isEmpty = [true, false, true] ∧
      served.ending = some (.exit 3) ∧
      served.written = "Content-Length: 2\r\n\r\n\x7b\x7d".toUTF8.toList ∧
      Frame.drain served.written = ⟨[[]], [], [], false⟩ ∧ served.state = 2 := by
  intro handle pieces served
  have hdrain : (Frame.drain pieces.flatten).failed = false := by decide +kernel
  have hempty : (Frame.drain pieces.flatten).messages.map List.isEmpty = [true, false, true] := by
    decide +kernel
  obtain ⟨first, rest, hmessages, hfirst, hrest⟩ := List.map_eq_cons_iff.1 hempty
  obtain ⟨second, third, rfl, hsecond, -⟩ := List.map_eq_cons_iff.1 hrest
  have hgoes : Dialogue.GoesOn handle 0 [first] := by
    rintro (_ | ⟨_, before⟩) message after h
    · cases h
      simp only [Dialogue.endingAt?, handle, hfirst]
      decide
    · simp at h
  have hends : Dialogue.endingAt? handle 0 [first] second = some (.exit 3) := by
    simp [Dialogue.endingAt?, handle, hsecond, Reply.ending?, Reply.written]
  obtain ⟨hending, hwritten, hstate⟩ :=
    (stream_folds_handler handle 0 pieces hdrain).2 [first] second third _ hmessages hgoes hends
  simp only [Dialogue.through, Dialogue.next, handle, hfirst, List.foldl_cons,
    List.foldl_nil] at hwritten hstate
  refine ⟨hdrain, hempty, hending, ?_, ?_, hstate⟩
  · rw [hwritten.eq_flatMap]
    decide +kernel
  · exact hwritten.drain_eq (List.forall_mem_singleton.2 (by decide +kernel))

end Served
end PageScript
