import Mathlib.Data.List.Induction
import PageScript.Editor.Server
import PageScript.Proofs.Editor.Standard
import PageScript.Proofs.Fields

/-!
The documents that an editor has open follow from the messages that it has sent. Of all messages
only three kinds concern a document, and only those about its own address whose parameters fit: what
is held is what was opened last, with the text and version of the last change to it, unless it was
closed in between.
-/
namespace PageScript

/-! ### Messages about one document -/

/-- What a message does to the document of one address. -/
inductive DocumentEvent where
  | opened (document : Document)
  | changed (text : String) (version : Int)
  | closed
deriving DecidableEq

namespace Server

/-- The method that a message names, if it is one of those that are known. -/
def method? (message : Message) : Option Method :=
  match message.get? "method" with
  | some (.string name) => Method.ofName? name
  | _ => none

/-- How many changes a message asks for. -/
def changeCount (kit : Toolkit) (message : Message) : Nat :=
  match method? message, kit.changing (params message) with
  | some .didChange, .ok changes => changes.texts.length
  | _, _ => 0

/-- What a message does to the document of an address; nothing if it is about another one, of a
method that changes no document, or has parameters that are rejected. -/
def event? (kit : Toolkit) (uri : String) (message : Message) : Option DocumentEvent :=
  match method? message with
  | some .didOpen =>
    match kit.opening (params message) with
    | .ok (subject, document) =>
      if subject = uri ∧ kit.refusal? subject = none then some (.opened document) else none
    | .error _ => none
  | some .didChange =>
    match kit.changing (params message) with
    | .ok ⟨subject, version, [.ok text]⟩ =>
      if subject = uri then some (.changed text version) else none
    | _ => none
  | some .didClose =>
    match kit.closing (params message) with
    | .ok subject => if subject = uri then some .closed else none
    | .error _ => none
  | _ => none

/-- The server after messages, handled in order. -/
def after (kit : Toolkit) (s : Server) (history : List Message) : Server :=
  history.foldl (fun s message => (s.handle kit message).state) s

end Server

namespace DocumentEvent

/-- What is held of an address after one more event. -/
def follow (held : Option Document) : DocumentEvent → Option Document
  | opened document => some document
  | changed text version => held.map fun old => { old with text, version := some version }
  | closed => none

/-- A document with the text and version of the last of several changes. -/
def revised (document : Document) (changes : List DocumentEvent) : Document :=
  match changes.getLast? with
  | some (changed text version) => { document with text, version := some version }
  | _ => document

/-- What is held of an address after events, told by the last of them that matter. -/
inductive Leaves : List DocumentEvent → Option Document → Prop where
  | neverOpened {events : List DocumentEvent} (h : ∀ document, opened document ∉ events) :
    Leaves events none
  | closedSince {before after : List DocumentEvent} (h : ∀ document, opened document ∉ after) :
    Leaves (before ++ closed :: after) none
  | openedLast {before after : List DocumentEvent} {document : Document}
    (h : ∀ event ∈ after, ∃ text version, event = changed text version) :
    Leaves (before ++ opened document :: after) (some (revised document after))

/-- Whether an event is what parameters say of an address, field by field, as far as the fields are
of the kinds that they should be of. -/
def IsToldBy (ps : Json) (uri : String) : DocumentEvent → Prop
  | opened document =>
    ps.TextAt ["textDocument", "uri"] uri ∧ ps.TextAt ["textDocument", "text"] document.text ∧
      (∀ version, ps.at? ["textDocument", "version"] = some (.int version) →
        document.version = some version) ∧
      ∀ language, ps.at? ["textDocument", "languageId"] = some (.string language) →
        document.language = .string language
  | changed text version =>
    ps.TextAt ["textDocument", "uri"] uri ∧ ps.IntAt ["textDocument", "version"] version ∧
      ∀ item, ps.at? ["contentChanges"] = some (.array [item]) → item.TextAt ["text"] text
  | closed => ps.TextAt ["textDocument", "uri"] uri

/-! ### One event after another -/

theorem foldl_follow_none {events : List DocumentEvent} (h : ∀ document, opened document ∉ events) :
    events.foldl follow none = none := by
  induction events with
  | nil => rfl
  | cons event rest ih =>
    have hrest : ∀ document, opened document ∉ rest :=
      fun document hmem => h document (List.mem_cons_of_mem _ hmem)
    cases event with
    | opened document => exact absurd List.mem_cons_self (h document)
    | changed text version => exact ih hrest
    | closed => exact ih hrest

/-- Of several changes the last one stands. -/
theorem foldl_follow_some {changes : List DocumentEvent}
    (h : ∀ event ∈ changes, ∃ text version, event = changed text version) (document : Document) :
    changes.foldl follow (some document) = some (revised document changes) := by
  induction changes using List.reverseRecOn with
  | nil => rfl
  | append_singleton changes event ih =>
    have hbefore := ih fun event hmem => h event (List.mem_append_left _ hmem)
    obtain ⟨text, version, rfl⟩ := h event (by simp)
    rw [List.foldl_append, hbefore]
    simp only [List.foldl_cons, List.foldl_nil, follow, revised, List.getLast?_append,
      List.getLast?_singleton, Option.map_some, Option.some_or]
    -- Before the last change, only text and version can have changed.
    split <;> rfl

theorem exists_leaves (events : List DocumentEvent) : Leaves events (events.foldl follow none) := by
  induction events using List.reverseRecOn with
  | nil => exact .neverOpened fun document hmem => nomatch hmem
  | append_singleton events event ih =>
    rw [List.foldl_append, List.foldl_cons, List.foldl_nil]
    cases event with
    | opened document => exact .openedLast fun event hmem => nomatch hmem
    | closed => exact .closedSince fun document hmem => nomatch hmem
    | changed text version =>
      generalize events.foldl follow none = held at ih
      cases ih with
      | neverOpened h =>
        apply Leaves.neverOpened
        intro document hmem
        simp only [List.mem_append, List.mem_singleton, reduceCtorEq, or_false] at hmem
        exact h document hmem
      | @closedSince before after h =>
        rw [List.append_assoc, List.cons_append]
        apply Leaves.closedSince
        intro document hmem
        simp only [List.mem_append, List.mem_singleton, reduceCtorEq, or_false] at hmem
        exact h document hmem
      | @openedLast before after document h =>
        have hchanges : ∀ event ∈ after ++ [changed text version],
            ∃ text version, event = changed text version := by
          intro event hmem
          rcases List.mem_append.1 hmem with hmem | hmem
          · exact h event hmem
          · exact ⟨text, version, List.mem_singleton.1 hmem⟩
        have hleaves : Leaves (before ++ opened document :: (after ++ [changed text version])) _ :=
          .openedLast hchanges
        rw [← foldl_follow_some hchanges, List.foldl_append, foldl_follow_some h] at hleaves
        simpa using hleaves

/-- What is held is told by the last events, and by nothing else. -/
theorem leaves_iff {events : List DocumentEvent} {held : Option Document} :
    Leaves events held ↔ held = events.foldl follow none := by
  constructor
  · intro h
    cases h with
    | neverOpened h => rw [foldl_follow_none h]
    | closedSince h =>
      rw [List.foldl_append, List.foldl_cons, follow, foldl_follow_none h]
    | openedLast h =>
      rw [List.foldl_append, List.foldl_cons, follow, foldl_follow_some h]
  · rintro rfl
    exact exists_leaves events

end DocumentEvent

/-! ### One message after another -/

namespace Server
variable {kit : Toolkit} {s : Server} {message : Message}

theorem handle_of_method {method : Method} (h : method? message = some method) :
    s.handle kit message = s.handleMethod kit message method := by
  unfold method? at h
  split at h
  · next name hname => simp only [handle, hname, h]
  · cases h

/-- A message without a known method leaves the server as it is. -/
theorem state_handle_of_none (h : method? message = none) : (s.handle kit message).state = s := by
  unfold handle
  split
  · rfl
  · rfl
  · rfl
  · rfl
  · next name hname =>
    simp only [method?, hname] at h
    rw [h]
  · rfl

/-- The server after a message of a known method: what the method makes of it, unless it fails. -/
theorem state_handleMethod (s : Server) (message : Message) (method : Method) :
    (s.handleMethod kit message method).state =
      match s.perform kit (params message) method with
      | .ok (_, after, _) => after
      | .error _ => s := by
  unfold handleMethod
  split
  · next h =>
    subst h
    rfl
  · cases s.perform kit (params message) method with
    | error => rfl
    | ok result => rfl

/-- What is held of an address behind changes of a document, of which there is one at most. -/
theorem get?_updated (ds : Documents) (subject uri text : String) (version : Int) :
    (ds.updated subject text (some version)).get? uri =
      if subject = uri then DocumentEvent.follow (ds.get? uri) (.changed text version)
      else ds.get? uri := by
  unfold Documents.updated
  by_cases huri : subject = uri
  · subst huri
    cases hheld : ds.get? subject with
    | none => simp [hheld, DocumentEvent.follow]
    | some old => simp [Fields.get?_put, DocumentEvent.follow]
  · simp only [if_neg huri]
    cases ds.get? subject with
    | none => rfl
    | some old => exact Fields.get?_put_of_ne (Ne.symm huri) _ _

/-- **One message.** What is held of an address after a message is what was held before, and what
the message did to it. -/
theorem get?_handle (hchanges : changeCount kit message ≤ 1) (uri : String) :
    (s.handle kit message).state.documents.get? uri =
      (event? kit uri message).elim (s.documents.get? uri)
        (DocumentEvent.follow (s.documents.get? uri)) := by
  unfold changeCount at hchanges
  unfold event?
  cases hmethod : method? message with
  | none => rw [state_handle_of_none hmethod]; rfl
  | some method =>
    rw [hmethod] at hchanges
    rw [handle_of_method hmethod, state_handleMethod]
    cases method with
    | setUp | ready | shutdown | exit => rfl
    | completion =>
      simp only [perform]
      cases kit.completing (params message) <;> rfl
    | hover =>
      simp only [perform]
      cases kit.hovering (params message) <;> rfl
    | diagnostic =>
      simp only [perform]
      cases kit.diagnosing (params message) <;> rfl
    | didOpen =>
      simp only [perform]
      cases kit.opening (params message) with
      | error reason => rfl
      | ok found =>
        obtain ⟨subject, document⟩ := found
        simp only [bind, Except.bind]
        cases hrefusal : kit.refusal? subject with
        | some reason => simp [throw, throwThe, MonadExceptOf.throw]
        | none =>
          simp only [and_true]
          show (s.documents.put subject document).get? uri = _
          rw [Fields.get?_put]
          by_cases huri : uri = subject
          · simp [huri, DocumentEvent.follow]
          · simp [huri, Ne.symm huri]
    | didChange =>
      simp only [perform]
      cases hchanging : kit.changing (params message) with
      | error reason => rfl
      | ok changes =>
        obtain ⟨subject, version, texts⟩ := changes
        rw [hchanging] at hchanges
        -- There is at most one change, so the first one is the last.
        cases texts with
        | nil => rfl
        | cons text texts =>
          obtain rfl : texts = [] := by
            cases texts with
            | nil => rfl
            | cons => simp at hchanges
          cases text with
          | error reason => rfl
          | ok text =>
            show (s.documents.updated subject text (some version)).get? uri = _
            rw [get?_updated]
            by_cases huri : subject = uri <;> simp [huri]
    | didClose =>
      simp only [perform]
      cases kit.closing (params message) with
      | error reason => rfl
      | ok subject =>
        show (s.documents.remove subject).get? uri = _
        rw [Fields.get?_remove]
        by_cases huri : uri = subject
        · simp [huri, DocumentEvent.follow]
        · simp [huri, Ne.symm huri]

/-- **A history.** What is held of an address after messages is what was held before, and what they
did to it one after another. -/
theorem get?_after {history : List Message}
    (hchanges : ∀ message ∈ history, changeCount kit message ≤ 1) (s : Server) (uri : String) :
    (s.after kit history).documents.get? uri =
      (history.filterMap (event? kit uri)).foldl DocumentEvent.follow (s.documents.get? uri) := by
  induction history generalizing s with
  | nil => rfl
  | cons message rest ih =>
    obtain ⟨hfirst, hrest⟩ := List.forall_mem_cons.1 hchanges
    show ((s.handle kit message).state.after kit rest).documents.get? uri = _
    rw [ih hrest, get?_handle hfirst]
    cases hevent : event? kit uri message with
    | none => rw [List.filterMap_cons_none hevent]; rfl
    | some event => rw [List.filterMap_cons_some hevent]; rfl

/-- What a message does to a document is what its parameters say. -/
theorem isToldBy_of_event? (hreads : kit.ReturnsFields) {uri : String} {event : DocumentEvent}
    (h : event? kit uri message = some event) : event.IsToldBy (params message) uri := by
  unfold event? at h
  split at h
  · -- A document is opened.
    split at h
    · next subject document hopening =>
      split at h
      · next hfits =>
        obtain ⟨rfl, -⟩ := hfits
        obtain rfl := Option.some.inj h
        exact hreads.opening hopening
      · cases h
    · cases h
  · -- A document is changed.
    split at h
    · next subject version text hchanging =>
      split at h
      · next hsubject =>
        subst hsubject
        obtain rfl := Option.some.inj h
        obtain ⟨huri, hversion, htexts⟩ := hreads.changing hchanging
        refine ⟨huri, hversion, fun item hitem found hfound => ?_⟩
        have hone : List.Forall₂ (fun item text => item.get? "text" = some (.string text))
            [item] [found] := .cons (by simpa [Json.at?] using hfound) .nil
        simpa using htexts _ _ hitem hone
      · cases h
    · cases h
  · -- A document is closed.
    split at h
    · next subject hclosing =>
      split at h
      · next hsubject =>
        subst hsubject
        obtain rfl := Option.some.inj h
        exact hreads.closing hclosing
      · cases h
    · cases h
  · cases h

/-- **The documents follow the messages.** Let an editor send any messages, in any order, whatever
their parameters are, of which none asks for more than one change at once. Then what is held of an
address is told by the messages about it that are not rejected: nothing if it was never opened, or
was closed after it was last opened; and else the document that was opened last, in its language,
with the text and version of the last change since. What these messages do is what their parameters
say. And a request for what is wrong with the document is answered, under its identifier, with all
that is wrong with exactly the text that is held, or with no items if none is. -/
theorem documents_follow_messages (hreads : kit.ReturnsFields) (hwrites : kit.WritesReports)
    (history : List Message) (uri : String)
    (hchanges : ∀ message ∈ history, changeCount kit message ≤ 1) :
    let s := start.after kit history
    (∀ held, DocumentEvent.Leaves (history.filterMap (event? kit uri)) held ↔
      held = s.documents.get? uri) ∧
    (∀ message ∈ history, ∀ event, event? kit uri message = some event →
      event.IsToldBy (params message) uri) ∧
    ∀ message id, method? message = some .diagnostic →
      kit.diagnosing (params message) = .ok uri → identifier? message = some id →
      ∃ response result items, (s.handle kit message).reply = .response response ∧
        response.get? "id" = some id ∧ response.get? "result" = some result ∧
        result.get? "items" = some (.array items) ∧
        List.Forall₂ Diagnostic.IsWrittenAs
          (match s.documents.get? uri with
            | some document => (Diagnostic.analyze document.text).1
            | none => []) items := by
  intro s
  have hheld : s.documents.get? uri =
      (history.filterMap (event? kit uri)).foldl DocumentEvent.follow none :=
    get?_after hchanges start uri
  refine ⟨?_, fun message _ event => isToldBy_of_event? hreads, ?_⟩
  · intro held
    rw [hheld]
    exact DocumentEvent.leaves_iff
  · intro message id hmethod hdiagnosing hid
    have hperform : s.perform kit (params message) .diagnostic =
        .ok (kit.writeReport (s.analyze uri).1, s, (s.analyze uri).2) := by
      simp only [perform, hdiagnosing]
      rfl
    have hreply : (s.handle kit message).reply =
        .response (answer id (kit.writeReport (s.analyze uri).1)) := by
      rw [handle_of_method hmethod, handleMethod, if_neg (by decide), hperform]
      simp only [replyWith, hid]
    obtain ⟨items, hitems, hwritten⟩ := hwrites (s.analyze uri).1
    refine ⟨_, _, items, hreply, rfl, rfl, hitems, ?_⟩
    unfold analyze at hwritten
    cases hdocument : s.documents.get? uri <;> simpa [hdocument] using hwritten

/-- A document that is changed, behind a change without a version, which is rejected. -/
theorem documents_follow_messages_changed :
    let kit := Toolkit.standard
    let uri := "file:///a"
    let notification (method : String) (fields : List (String × Json))
        (others : List (String × Json)) : Message :=
      [("method", .string method),
        ("params", .object (("textDocument", .object (("uri", .string uri) :: fields)) :: others))]
    let change (text : String) : String × Json :=
      ("contentChanges", .array [.object [("text", .string text)]])
    let history : List Message :=
      [notification "textDocument/didOpen" [("languageId", .string "noteg"), ("version", .int 1),
          ("text", .string "let x = 1")] [],
        notification "textDocument/didChange" [] [change "let y"],
        notification "textDocument/didChange" [("version", .int 2)] [change "let z"]]
    let request : Message := ("id", .int 7) :: notification "textDocument/diagnostic" [] []
    kit.ReturnsFields ∧ kit.WritesReports ∧ (∀ message ∈ history, changeCount kit message ≤ 1) ∧
      (start.after kit history).documents.get? uri = some ⟨"let z", some 2, .string "noteg"⟩ ∧
      ∃ response result items,
        ((start.after kit history).handle kit request).reply = .response response ∧
        response.get? "id" = some (.int 7) ∧ response.get? "result" = some result ∧
        result.get? "items" = some (.array items) ∧
        List.Forall₂ Diagnostic.IsWrittenAs (Diagnostic.analyze "let z").1 items := by
  intro kit uri notification change history request
  have hchanges : ∀ message ∈ history, changeCount kit message ≤ 1 := by decide +kernel
  have hevents : history.filterMap (event? kit uri) =
      [] ++ [.opened ⟨"let x = 1", some 1, .string "noteg"⟩, .changed "let z" 2] := by
    decide +kernel
  obtain ⟨hheld, -, hanswer⟩ := documents_follow_messages Toolkit.standard_returnsFields
    Toolkit.standard_writesReports history uri hchanges
  have hlast : some ⟨"let z", some 2, .string "noteg"⟩ =
      (start.after kit history).documents.get? uri := by
    rw [← hheld, hevents]
    apply DocumentEvent.Leaves.openedLast
    intro event hmem
    exact ⟨"let z", 2, List.mem_singleton.1 hmem⟩
  refine ⟨Toolkit.standard_returnsFields, Toolkit.standard_writesReports, hchanges, hlast.symm, ?_⟩
  have hrequest := hanswer request (.int 7) (by decide +kernel) (by with_unfolding_all rfl)
    (by with_unfolding_all rfl)
  rwa [← hlast] at hrequest

end Server
end PageScript
