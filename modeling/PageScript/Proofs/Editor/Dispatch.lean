import PageScript.Proofs.Editor.Lifecycle

/-!
Which messages a server comes back from. Whatever stands in a message, and whatever came before it,
it is handled with a response or without one, and only `exit` ends the server: unless an array or an
object stands in the place of the name of its method, which cannot be looked up at all.
-/
namespace PageScript

/-- Whether the server goes on behind a message with this reply. -/
def Reply.Returns : Reply → Prop
  | .silent | .response _ => True
  | .exit _ | .badMethod => False

theorem Method.ofName?_eq_some_iff {name : String} {method : Method} :
    ofName? name = some method ↔ name = method.name := by
  constructor
  · intro h
    have hname : method.name = name := by simpa using List.find?_some h
    exact hname.symm
  · rintro rfl
    cases method <;> decide

namespace Server
variable {kit : Toolkit} {s : Server} {message : Message} {method : Method}

/-- A message is of a method if it gives its name. -/
theorem method?_eq_some_iff :
    method? message = some method ↔ message.get? "method" = some (.string method.name) := by
  unfold method?
  split
  · next name hname => rw [hname, Method.ofName?_eq_some_iff, Option.some.injEq, Json.string.injEq]
  · next h =>
    constructor
    · nofun
    · intro hname
      exact absurd hname (h _)

theorem not_hasCompoundMethod_of_method? (h : method? message = some method) :
    ¬ HasCompoundMethod message := by
  apply not_hasCompoundMethod
  rintro found hfound
  rw [method?_eq_some_iff.1 h] at hfound
  cases hfound
  exact .inr ⟨method.name, rfl⟩

/-- What a message asks for is carried out, and its result is the answer if it was a request. -/
theorem handle_of_perform {result : Json} {after : Server} {notices : List Notice}
    (hmethod : message.get? "method" = some (.string method.name)) (hexit : method ≠ .exit)
    (hperform : s.perform kit (params message) method = .ok (result, after, notices)) :
    s.handle kit message = ⟨after, notices, replyWith message fun id => answer id result⟩ := by
  rw [handle_of_method (method?_eq_some_iff.2 hmethod), handleMethod, if_neg hexit, hperform]

/-- What cannot be looked up is not handled at all. -/
theorem handle_of_compound (h : HasCompoundMethod message) (s : Server) :
    s.handle kit message = ⟨s, [], .badMethod⟩ := by
  obtain ⟨method, hmethod, ⟨items, rfl⟩ | ⟨entries, rfl⟩⟩ := h
  all_goals
    rw [Option.mem_def] at hmethod
    simp only [handle, hmethod]

/-- **Which messages bring a server down.** Let an editor send any messages before, and then one with
whatever data for its method, its identifier and its parameters. It is handled with a response, or
without one, if and only if it does not tell the server to exit and no array or object stands for
its method. The server ends itself only if it is told to. An array or an object for the method is
not looked up, and nothing is changed or noted. And if there is a response, it answers the message. -/
theorem returns_unless_compound (kit : Toolkit) (before : List Message) (message : Message) :
    let s := start.after kit before
    let reaction := s.handle kit message
    (reaction.reply.Returns ↔
      ¬ HasCompoundMethod message ∧ message.get? "method" ≠ some (.string "exit")) ∧
    ((∃ code, reaction.reply = .exit code) ↔ message.get? "method" = some (.string "exit")) ∧
    (reaction.reply = .badMethod ↔ HasCompoundMethod message) ∧
    (HasCompoundMethod message → reaction = ⟨s, [], .badMethod⟩) ∧
    (∀ response, reaction.reply = .response response → s.Answers kit message response) := by
  intro s reaction
  have hexit : method? message = some .exit ↔ message.get? "method" = some (.string "exit") :=
    method?_eq_some_iff
  rw [← hexit, Ne, ← hexit]
  by_cases hcompound : HasCompoundMethod message
  · have hreaction : reaction = ⟨s, [], .badMethod⟩ := handle_of_compound hcompound s
    have hmethod : method? message ≠ some .exit :=
      fun h => not_hasCompoundMethod_of_method? h hcompound
    rw [hreaction]
    simp [Reply.Returns, hcompound, hmethod]
  · have hreplies : s.Replies kit message reaction.reply := replies_of_not_compound s hcompound
    have hexcluded : HasCompoundMethod message → reaction = ⟨s, [], .badMethod⟩ :=
      fun h => absurd h hcompound
    generalize reaction.reply = reply at hreplies ⊢
    cases hreplies with
    | unknown hmethod => simp [Reply.Returns, hcompound, hmethod]
    | exit hmethod => simp [Reply.Returns, hcompound, hmethod]
    | notification hmethod hne hid => simp [Reply.Returns, hcompound, hmethod, hne]
    | request hmethod hne hid hanswers => simp [Reply.Returns, hcompound, hmethod, hne, hanswers]

/-- **Not every message can be handled.** A list in the place of a method brings a server down,
although it is not told to exit. -/
theorem not_forall_returns :
    let message : Message := [("method", .array [.string "initialize"])]
    (start.handle .standard message).reply = .badMethod ∧
      ¬ ∀ (kit : Toolkit) (before : List Message) (message : Message),
        ((start.after kit before).handle kit message).reply.Returns ∨
          message.get? "method" = some (.string "exit") := by
  intro message
  have hreply : (start.handle .standard message).reply = .badMethod := rfl
  refine ⟨hreply, fun h => ?_⟩
  rcases h .standard [] message with hreturns | hexit
  · exact hreturns
  · cases hexit

end Server
end PageScript
