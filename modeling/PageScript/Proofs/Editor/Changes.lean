import PageScript.Proofs.Editor.Dispatch

/-!
Several new texts of a document in one message. An editor means them to be applied one after
another, so that the last one stands. The server takes the first one for all of them: it holds what
the editor holds if and only if the first text and the last one are the same.
-/
namespace PageScript

/-! ### New texts -/

namespace Document

/-- A document with a new text under a new version. -/
def replaced (document : Document) (version : Int) (text : String) : Document :=
  { document with text, version := some version }

/-- A document after new texts under one version, applied in order. -/
def revised (document : Document) (version : Int) (texts : List String) : Document :=
  texts.foldl (fun document text => document.replaced version text) document

variable {document : Document} {version : Int}

/-- Of texts that are applied in order, the last one stands. -/
theorem revised_eq {texts : List String} (h : texts ≠ []) :
    document.revised version texts = document.replaced version (texts.getLast h) := by
  induction texts generalizing document with
  | nil => exact absurd rfl h
  | cons text texts ih =>
    show (document.replaced version text).revised version texts = _
    cases texts with
    | nil => rfl
    | cons next texts =>
      rw [ih (List.cons_ne_nil next texts), List.getLast_cons_cons]
      rfl

theorem replaced_inj {text text' : String} :
    document.replaced version text = document.replaced version text' ↔ text = text' := by
  simp [replaced]

end Document

/-! ### Messages with new texts -/

/-- Whether data is a change of a whole document, to a new text. -/
def Json.IsWhole (change : Json) (text : String) : Prop :=
  change.get? "range" = none ∧ change.get? "text" = some (.string text)

namespace Server

/-- Whether a message is a notification of new texts of a document, in order, under a new version,
that is not rejected. -/
structure Revises (kit : Toolkit) (message : Message) (uri : String) (version : Int)
    (texts : List String) : Prop where
  method_eq : message.get? "method" = some (.string "textDocument/didChange")
  notification : message.get? "id" = none
  accepted : ∃ changes, kit.changing (params message) = .ok changes
  uri_eq : (params message).at? ["textDocument", "uri"] = some (.string uri)
  version_eq : (params message).at? ["textDocument", "version"] = some (.int version)
  texts_eq : ∃ items, (params message).at? ["contentChanges"] = some (.array items) ∧
    List.Forall₂ Json.IsWhole items texts

variable {kit : Toolkit} {s : Server} {message : Message} {uri : String} {version : Int}
  {texts : List String}

/-- A notification of new texts is read for what it says. -/
theorem Revises.changing (hreads : kit.ReturnsFields) (h : Revises kit message uri version texts) :
    kit.changing (params message) = .ok ⟨uri, version, texts.map .ok⟩ := by
  obtain ⟨⟨found, number, news⟩, hchanging⟩ := h.accepted
  obtain ⟨items, hitems, hwhole⟩ := h.texts_eq
  obtain ⟨huri, hversion, htexts⟩ := hreads.changing hchanging
  obtain rfl : found = uri := huri uri h.uri_eq
  obtain rfl : number = version := hversion version h.version_eq
  obtain rfl : news = texts.map .ok := htexts items texts hitems (hwhole.imp fun _ _ h => h.2)
  exact hchanging

/-- Of the new texts in a message the server takes the first one. -/
theorem handle_of_revises {text : String} {document : Document} (hreads : kit.ReturnsFields)
    (h : Revises kit message uri version (text :: texts))
    (hopen : s.documents.get? uri = some document) :
    s.handle kit message =
      ⟨{ s with documents := s.documents.put uri (document.replaced version text) }, [],
        .silent⟩ := by
  have hperform : s.perform kit (params message) .didChange = .ok (.null,
      { s with documents := s.documents.put uri (document.replaced version text) }, []) := by
    have hupdated : s.documents.updated uri text (some version) =
        s.documents.put uri (document.replaced version text) := by
      simp only [Documents.updated, hopen, Document.replaced]
    rw [← hupdated]
    simp only [perform, h.changing hreads]
    rfl
  have hid : identifier? message = none := by rw [identifier?, h.notification]
  rw [handle_of_perform h.method_eq (by decide) hperform, replyWith, hid]

/-- **The first of several texts is taken for all.** Let an editor send a notification of any number
of new texts of a document that is open, in whatever state the server is. Then what is held of the
document has the first of these texts, the new version, and the language that it had. Nothing else
changes, and there is no answer. So the server holds the document with all texts applied in order,
as the editor does, if and only if the last text is the first one. -/
theorem first_text_stands (hreads : kit.ReturnsFields) (s : Server) {document : Document}
    {text : String} (hopen : s.documents.get? uri = some document)
    (h : Revises kit message uri version (text :: texts)) :
    let reaction := s.handle kit message
    let held := reaction.state.documents.get? uri
    held = some (document.replaced version text) ∧
    (∀ other ≠ uri, reaction.state.documents.get? other = s.documents.get? other) ∧
    (reaction.state.initialized, reaction.state.shutdown) = (s.initialized, s.shutdown) ∧
    reaction.notices = [] ∧ reaction.reply = .silent ∧
    (held = some (document.revised version (text :: texts)) ↔
      (text :: texts).getLast (List.cons_ne_nil text texts) = text) := by
  intro reaction held
  have hreaction : reaction = _ := handle_of_revises hreads h hopen
  have hheld : held = some (document.replaced version text) := by
    show reaction.state.documents.get? uri = _
    rw [hreaction]
    exact Fields.get?_put_self s.documents uri _
  refine ⟨hheld, ?_, ?_, ?_, ?_, ?_⟩
  · intro other hother
    rw [hreaction]
    exact Fields.get?_put_of_ne hother s.documents _
  · rw [hreaction]
  · rw [hreaction]
  · rw [hreaction]
  · rw [hheld, Document.revised_eq (List.cons_ne_nil text texts), Option.some.injEq,
      Document.replaced_inj, eq_comm]

/-- A third text that is the first one again. -/
theorem first_text_stands_undone :
    let kit := Toolkit.standard
    let uri := "file:///a"
    let s : Server := ⟨[("file:///b", ⟨"1", none, .null⟩),
      (uri, ⟨"let x", some 1, .string "noteg"⟩)], true, false⟩
    let texts := ["let y", "let", "let y"]
    let message : Message := [("method", .string "textDocument/didChange"),
      ("params", .object [("textDocument", .object [("uri", .string uri), ("version", .int 2)]),
        ("contentChanges", .array (texts.map fun text => .object [("text", .string text)]))])]
    kit.ReturnsFields ∧ Revises kit message uri 2 texts ∧
      (s.handle kit message).state.documents.get? uri =
        some ⟨"let y", some 2, .string "noteg"⟩ ∧
      (s.handle kit message).state.documents.get? "file:///b" = some ⟨"1", none, .null⟩ := by
  intro kit uri s texts message
  have htexts : List.Forall₂ Json.IsWhole
      (texts.map fun text => .object [("text", .string text)]) texts := by
    rw [List.forall₂_map_left_iff]
    exact List.forall₂_same.2 fun text _ => ⟨rfl, rfl⟩
  have hrevises : Revises kit message uri 2 texts :=
    ⟨rfl, rfl, ⟨_, rfl⟩, rfl, rfl, ⟨_, rfl, htexts⟩⟩
  obtain ⟨hheld, hothers, -⟩ :=
    first_text_stands Toolkit.standard_returnsFields s rfl hrevises
  exact ⟨Toolkit.standard_returnsFields, hrevises, hheld, hothers "file:///b" (by decide)⟩

/-- **Later texts are lost.** Behind two texts in one message the server holds the first one. -/
theorem not_forall_revised :
    ¬ ∀ (kit : Toolkit) (s : Server) (message : Message) (uri : String) (version : Int)
        (texts : List String) (document : Document), kit.ReturnsFields → texts ≠ [] →
      s.documents.get? uri = some document → Revises kit message uri version texts →
      (s.handle kit message).state.documents.get? uri = some (document.revised version texts) := by
  intro hall
  let uri := "file:///test.ng"
  let opening : Message := [("method", .string "textDocument/didOpen"),
    ("params", .object [("textDocument", .object [("uri", .string uri),
      ("languageId", .string "noteg"), ("version", .int 1), ("text", .string "a")])])]
  let message : Message := [("method", .string "textDocument/didChange"),
    ("params", .object [("textDocument", .object [("uri", .string uri), ("version", .int 2)]),
      ("contentChanges", .array
        [.object [("text", .string "b")], .object [("text", .string "c")]])])]
  have hrevises : Revises .standard message uri 2 ["b", "c"] := by
    refine ⟨rfl, rfl, ⟨_, rfl⟩, rfl, rfl, ⟨_, rfl, ?_⟩⟩
    exact .cons ⟨rfl, rfl⟩ (.cons ⟨rfl, rfl⟩ .nil)
  have hheld := hall .standard (start.after .standard [opening]) message uri 2 ["b", "c"]
    ⟨"a", some 1, .string "noteg"⟩ Toolkit.standard_returnsFields (by decide) (by decide +kernel)
    hrevises
  revert hheld
  decide +kernel

end Server
end PageScript
