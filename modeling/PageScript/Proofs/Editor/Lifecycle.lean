import PageScript.Proofs.Editor.History

/-!
The life of a server. A request gets one response and a notification none; what fails changes
nothing; being set up and being asked to shut down are never taken back; and how the server ends
tells whether it was asked to shut down before.
-/
namespace PageScript.Server

/-- Whether the method of a message, if it has one, is a name or is left empty. -/
def NamesMethod (message : Message) : Prop :=
  ∀ method ∈ message.get? "method", method = .null ∨ ∃ name, method = .string name

/-- Whether an array or an object stands where the method of a message should be named. -/
def HasCompoundMethod (message : Message) : Prop :=
  ∃ method ∈ message.get? "method",
    (∃ items, method = .array items) ∨ ∃ entries, method = .object entries

/-- Whether a message cannot be carried out: the method that it names fails. -/
def Fails (kit : Toolkit) (s : Server) (message : Message) : Prop :=
  ∃ method reason, method? message = some method ∧
    s.perform kit (params message) method = .error reason

variable {kit : Toolkit} {s after : Server} {message : Message} {method : Method} {result : Json}
  {notices : List Notice}

/-! ### What is remembered of the life of a server -/

theorem exists_of_bind_ok {α β : Type} {x : Except String α} {f : α → Except String β} {b : β}
    (h : (x >>= f) = .ok b) : ∃ a, x = .ok a ∧ f a = .ok b := by
  cases x with
  | error => cases h
  | ok a => exact ⟨a, rfl, h⟩

/-- Only setting up sets a server up, and only a shutdown is one. -/
theorem flags_perform {ps : Json} (h : s.perform kit ps method = .ok (result, after, notices)) :
    after.initialized = (s.initialized || decide (method = .setUp)) ∧
      after.shutdown = (s.shutdown || decide (method = .shutdown)) := by
  cases method with
  | setUp | ready | shutdown | exit =>
    cases h
    simp
  | didOpen =>
    obtain ⟨⟨uri, document⟩, -, h⟩ := exists_of_bind_ok h
    dsimp only at h
    split at h
    · cases h
    · cases h
      simp
  | didChange =>
    obtain ⟨⟨uri, version, texts⟩, -, h⟩ := exists_of_bind_ok h
    cases texts with
    | nil =>
      cases h
      simp
    | cons text texts =>
      obtain ⟨text, -, h⟩ := exists_of_bind_ok h
      cases h
      simp
  | didClose | completion | hover | diagnostic =>
    obtain ⟨found, -, h⟩ := exists_of_bind_ok h
    cases h
    simp

/-- A message that names no method, or fails, leaves the server as it is. -/
theorem state_handle_of_fails (h : method? message = none ∨ s.Fails kit message) :
    (s.handle kit message).state = s := by
  rcases h with hnone | ⟨method, reason, hmethod, hfails⟩
  · exact state_handle_of_none hnone
  · rw [handle_of_method hmethod, state_handleMethod, hfails]

/-- **One message.** A server is set up after a message if it was before, or if the message sets it
up; and likewise for a shutdown. -/
theorem flags_handle (kit : Toolkit) (s : Server) (message : Message) :
    (s.handle kit message).state.initialized =
        (s.initialized || decide (method? message = some .setUp)) ∧
      (s.handle kit message).state.shutdown =
        (s.shutdown || decide (method? message = some .shutdown)) := by
  cases hmethod : method? message with
  | none => simp [state_handle_of_none hmethod]
  | some method =>
    rw [handle_of_method hmethod, state_handleMethod]
    cases hperform : s.perform kit (params message) method with
    | ok done =>
      obtain ⟨result, after, notices⟩ := done
      simpa using flags_perform hperform
    | error reason =>
      -- Setting up and shutting down ask for no parameters, and so do not fail.
      have hsetUp : method ≠ .setUp := by rintro rfl; cases hperform
      have hshutdown : method ≠ .shutdown := by rintro rfl; cases hperform
      simp [hsetUp, hshutdown]

/-- **A history.** A server is set up after messages if it was before, or if one of them sets it up;
and likewise for a shutdown. -/
theorem flags_after (s : Server) (history : List Message) :
    ((s.after kit history).initialized ↔
        s.initialized ∨ ∃ earlier ∈ history, method? earlier = some .setUp) ∧
      ((s.after kit history).shutdown ↔
        s.shutdown ∨ ∃ earlier ∈ history, method? earlier = some .shutdown) := by
  induction history generalizing s with
  | nil => simp [Server.after]
  | cons message rest ih =>
    obtain ⟨hinitialized, hshutdown⟩ := flags_handle kit s message
    obtain ⟨ihinitialized, ihshutdown⟩ := ih (s.handle kit message).state
    have hafter : s.after kit (message :: rest) = (s.handle kit message).state.after kit rest := rfl
    rw [hafter, ihinitialized, ihshutdown, hinitialized, hshutdown]
    simp [or_assoc]

/-! ### Replies -/

theorem identifier?_eq_some_iff {id : Json} :
    identifier? message = some id ↔ message.get? "id" = some id ∧ id ≠ .null := by
  unfold identifier?
  split
  · next h => simp [h]
  · next h =>
    rw [h]
    constructor
    · rintro ⟨⟩
    · rintro ⟨h, hne⟩
      exact absurd (Option.some.inj h).symm hne
  · next found hne h =>
    rw [h]
    constructor
    · rintro ⟨⟩
      exact ⟨rfl, hne⟩
    · exact And.left

/-- A response says for which request it is, and gives a result, or an error with the reason for
which the request failed. -/
structure Answers (kit : Toolkit) (s : Server) (message response : Message) : Prop where
  id : response.get? "id" = message.get? "id"
  result_or_error : (response.get? "result").isSome ↔ response.get? "error" = none
  error_iff_fails : (response.get? "error").isSome ↔ s.Fails kit message
  code : ∀ error ∈ response.get? "error", error.get? "code" = some (.int (-32603))
  reason : ∀ error ∈ response.get? "error", ∃ (method : Method) (reason : String),
    method? message = some method ∧ s.perform kit (params message) method = .error reason ∧
      error.get? "message" = some (.string (method.name ++ " failed: " ++ reason))

theorem Answers.answer {id : Json} (hid : message.get? "id" = some id) (h : ¬ s.Fails kit message) :
    s.Answers kit message (answer id result) where
  id := hid.symm
  result_or_error := by simp [Server.answer, Fields.get?]
  error_iff_fails := by simpa [Server.answer, Fields.get?] using h
  code := by simp [Server.answer, Fields.get?]
  reason := by simp [Server.answer, Fields.get?]

theorem Answers.refusal {id : Json} {reason : String} (hid : message.get? "id" = some id)
    (hmethod : method? message = some method)
    (h : s.perform kit (params message) method = .error reason) :
    s.Answers kit message (refusal id method reason) where
  id := hid.symm
  result_or_error := by simp [Server.refusal, Fields.get?]
  error_iff_fails := by
    have hfails : s.Fails kit message := ⟨method, reason, hmethod, h⟩
    simpa [Server.refusal, Fields.get?] using hfails
  code := by simp [Server.refusal, Fields.get?, Json.get?]
  reason := by
    rintro error ⟨⟩
    exact ⟨method, reason, hmethod, h, rfl⟩

/-- What a message may come to: no reply, the end of the server, or the answer to a request. -/
inductive Replies (kit : Toolkit) (s : Server) (message : Message) : Reply → Prop where
  | unknown (hmethod : method? message = none) : Replies kit s message .silent
  | exit (hmethod : method? message = some .exit) :
    Replies kit s message (.exit (if s.shutdown then 0 else 1))
  | notification {method : Method} (hmethod : method? message = some method)
    (hexit : method ≠ .exit) (hid : identifier? message = none) : Replies kit s message .silent
  | request {method : Method} {id : Json} {response : Message}
    (hmethod : method? message = some method) (hexit : method ≠ .exit)
    (hid : identifier? message = some id) (hanswers : s.Answers kit message response) :
    Replies kit s message (.response response)

theorem replies_handleMethod (s : Server) (hmethod : method? message = some method) :
    s.Replies kit message (s.handleMethod kit message method).reply := by
  unfold handleMethod
  split
  · next hexit =>
    subst hexit
    exact .exit hmethod
  · next hexit =>
    cases hid : identifier? message with
    | none =>
      have hsilent (response : Json → Message) : replyWith message response = .silent := by
        simp only [replyWith, hid]
      split <;> rw [hsilent] <;> exact .notification hmethod hexit hid
    | some id =>
      have hpresent := (identifier?_eq_some_iff.1 hid).1
      split
      · next result after notices hperform =>
        simp only [replyWith, hid]
        refine .request hmethod hexit hid (.answer hpresent ?_)
        rintro ⟨method', reason, hmethod', hfails⟩
        obtain rfl := Option.some.inj (hmethod.symm.trans hmethod')
        rw [hperform] at hfails
        cases hfails
      · next reason hperform =>
        simp only [replyWith, hid]
        exact .request hmethod hexit hid (.refusal hpresent hmethod hperform)

theorem not_hasCompoundMethod (h : NamesMethod message) : ¬ HasCompoundMethod message := by
  rintro ⟨method, hmethod, ⟨items, rfl⟩ | ⟨entries, rfl⟩⟩
  all_goals
    obtain hnull | ⟨name, hname⟩ := h _ hmethod
    · cases hnull
    · cases hname

theorem replies_of_not_compound (s : Server) (h : ¬ HasCompoundMethod message) :
    s.Replies kit message (s.handle kit message).reply := by
  cases hmethod : method? message with
  | some method =>
    rw [handle_of_method hmethod]
    exact replies_handleMethod s hmethod
  | none =>
    have hsilent : (s.handle kit message).reply = .silent := by
      unfold handle
      split
      case h_3 items hitems => exact absurd ⟨_, hitems, .inl ⟨items, rfl⟩⟩ h
      case h_4 entries hentries => exact absurd ⟨_, hentries, .inr ⟨entries, rfl⟩⟩ h
      case h_5 name hname =>
        simp only [method?, hname] at hmethod
        rw [hmethod]
      all_goals rfl
    rw [hsilent]
    exact .unknown hmethod

theorem replies_handle (s : Server) (hnames : NamesMethod message) :
    s.Replies kit message (s.handle kit message).reply :=
  replies_of_not_compound s (not_hasCompoundMethod hnames)

/-! ### The whole life -/

/-- **The life of a server.** Let an editor send any messages, and let one of them name a method or
none at all. It gets a response if and only if it names a known method, which is not to exit, and
has an identifier. The response is for that identifier, and it gives a result, or an error if and
only if the request failed. What fails or names no known method leaves the server as it is. A server
that is set up stays so, and so does one that was asked to shut down, whatever comes next. And the
server ends if it is told to exit, with code 0 if and only if it was asked to shut down before. -/
theorem lifecycle (kit : Toolkit) (before rest : List Message) (message : Message)
    (hnames : NamesMethod message) :
    let s := start.after kit before
    let reaction := s.handle kit message
    ((∃ response, reaction.reply = .response response) ↔
      (∃ method, method? message = some method ∧ method ≠ .exit) ∧
        ∃ id, message.get? "id" = some id ∧ id ≠ .null) ∧
    (∀ response, reaction.reply = .response response → s.Answers kit message response) ∧
    (method? message = none ∨ s.Fails kit message → reaction.state = s) ∧
    (s.initialized → (s.after kit (message :: rest)).initialized) ∧
    (s.shutdown → (s.after kit (message :: rest)).shutdown) ∧
    ((∃ code, reaction.reply = .exit code) ↔ method? message = some .exit) ∧
    (∀ code, reaction.reply = .exit code →
      (code = 0 ↔ ∃ earlier ∈ before, method? earlier = some .shutdown)) ∧
    reaction.reply ≠ .badMethod := by
  intro s reaction
  have hbefore : s.shutdown ↔ ∃ earlier ∈ before, method? earlier = some .shutdown :=
    (flags_after start before).2.trans (or_iff_right Bool.false_ne_true)
  have hreplies : s.Replies kit message reaction.reply := replies_handle s hnames
  refine ⟨?_, ?_, state_handle_of_fails, fun h => (flags_after s _).1.2 (.inl h),
    fun h => (flags_after s _).2.2 (.inl h), ?_, ?_, ?_⟩
  all_goals generalize reaction.reply = reply at hreplies
  · simp only [← identifier?_eq_some_iff]
    cases hreplies with
    | unknown hmethod => simp [hmethod]
    | exit hmethod => simp [hmethod]
    | notification hmethod hexit hid => simp [hid]
    | request hmethod hexit hid hanswers => simp [hmethod, hexit, hid]
  · rintro response rfl
    cases hreplies with
    | request hmethod hexit hid hanswers => exact hanswers
  · cases hreplies with
    | unknown hmethod => simp [hmethod]
    | exit hmethod => simp [hmethod]
    | notification hmethod hexit hid | request hmethod hexit hid hanswers => simp [hmethod, hexit]
  · rintro code rfl
    cases hreplies with
    | exit hmethod =>
      rw [← hbefore]
      cases s.shutdown <;> simp
  · rintro rfl
    cases hreplies

/-- A request without parameters for a word fails, and an exit behind a shutdown ends well. The
identifier 0 is one like any other. -/
theorem lifecycle_shutdown :
    let kit := Toolkit.standard
    let message (name : String) : Message := [("id", .int 0), ("method", .string name)]
    let hover := message "textDocument/hover"
    let exit := message "exit"
    let s := start.after kit [message "initialize", message "shutdown"]
    NamesMethod hover ∧ NamesMethod exit ∧ s.Fails kit hover ∧
      (∃ response, (s.handle kit hover).reply = .response response ∧ s.Answers kit hover response) ∧
      (s.handle kit hover).state = s ∧ (s.handle kit exit).reply = .exit 0 := by
  intro kit message hover exit s
  have hnames (name : String) : NamesMethod (message name) := by
    rintro method ⟨⟩
    exact .inr ⟨name, rfl⟩
  obtain ⟨hresponse, hanswers, hfails, -⟩ :=
    lifecycle kit [message "initialize", message "shutdown"] [] hover (hnames _)
  obtain ⟨-, -, -, -, -, hexit, hcode, -⟩ :=
    lifecycle kit [message "initialize", message "shutdown"] [] exit (hnames _)
  have hfailing : s.Fails kit hover :=
    ⟨.hover, _, by decide +kernel, by with_unfolding_all rfl⟩
  obtain ⟨response, hreply⟩ :=
    hresponse.2 ⟨⟨.hover, by decide +kernel, by decide⟩, .int 0, rfl, by rintro ⟨⟩⟩
  obtain ⟨code, hends⟩ := hexit.2 (by decide +kernel)
  obtain rfl : code = 0 := (hcode code hends).2 ⟨message "shutdown", by simp, by decide +kernel⟩
  exact ⟨hnames _, hnames _, hfailing, ⟨response, hreply, hanswers response hreply⟩,
    hfails (.inr hfailing), hends⟩

end PageScript.Server
