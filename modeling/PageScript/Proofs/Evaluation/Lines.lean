import PageScript.Proofs.Evaluation.Rewritten
import PageScript.Proofs.Syntax.Layout

/-!
Lines decide nothing about what a program does: programs that differ in their lines only print the
same, and they give the same value or stop for the same reason, apart from lines.
-/
namespace PageScript

/-- Forgets all lines, and nothing else. -/
def Rewriting.unlined : Rewriting := .lines fun _ => 0

namespace Node

mutual

theorem rewritten_unlined : ∀ node : Node, node.rewritten .unlined = node.unlined
  | .program nodes _ | .block nodes _ | .array nodes _ => by
    rw [rewritten, unlined, rewrittenAll_unlined nodes]
    rfl
  | .binding _ node _ | .function _ _ node _ | .unary _ node _ => by
    rw [rewritten, unlined, rewritten_unlined node]
    rfl
  | .branch condition thenPart elsePart _ => by
    rw [rewritten, unlined, rewritten_unlined condition, rewritten_unlined thenPart,
      rewrittenOption_unlined elsePart]
    rfl
  | .forEach _ first second _ | .whileLoop first second _ | .binary _ first second _ => by
    rw [rewritten, unlined, rewritten_unlined first, rewritten_unlined second]
    rfl
  | .returning value _ => by
    rw [rewritten, unlined, rewrittenOption_unlined value]
    rfl
  | .call callee args _ => by
    rw [rewritten, unlined, rewritten_unlined callee, rewrittenAll_unlined args]
    rfl
  | .object properties _ => by
    rw [rewritten, unlined, rewrittenProperties_unlined properties]
    rfl
  | .identifier .. | .literal .. | .template .. => rfl

theorem rewrittenOption_unlined :
    ∀ node : Option Node, rewrittenOption .unlined node = unlinedOption node
  | none => rfl
  | some node => by rw [rewrittenOption, unlinedOption, rewritten_unlined node]

theorem rewrittenAll_unlined :
    ∀ nodes : List Node, rewrittenAll .unlined nodes = unlinedAll nodes
  | [] => rfl
  | node :: rest => by
    rw [rewrittenAll, unlinedAll, rewritten_unlined node, rewrittenAll_unlined rest]

theorem rewrittenProperties_unlined : ∀ properties : List (String × Node),
    rewrittenProperties .unlined properties = unlinedProperties properties
  | [] => rfl
  | (key, value) :: rest => by
    rw [rewrittenProperties, unlinedProperties, rewritten_unlined value,
      rewrittenProperties_unlined rest]

end

end Node

theorem Program.rewritten_unlined (program : Program) :
    program.rewritten .unlined = program.unlined :=
  congrArg Program.mk (Node.rewrittenAll_unlined program.body)

/-- How a program concludes, apart from lines: that of an error, and those in the functions of its
value and of the state that it leaves. -/
def Conclusion.unlined : Conclusion Value → Conclusion Value :=
  Conclusion.rewritten .unlined (Value.rewritten .unlined)

/-- **Lines decide nothing.** From the same state, programs that differ in their lines only end in
the same way apart from lines. -/
theorem Program.run_congr_unlined {p q : Program} (h : p.unlined = q.unlined) (limits : Limits)
    (m : Machine) : Conclusion.unlined (p.run limits m) = Conclusion.unlined (q.run limits m) := by
  have hsame : p.rewritten .unlined = q.rewritten .unlined := by
    rw [p.rewritten_unlined, q.rewritten_unlined, h]
  exact run_congr_rewritten (.of_lines rfl) hsame limits m

/-- **Layout means nothing.** Sources whose tokens have the same kinds and texts, whatever line ends,
blanks and comments there are between them, are both refused, for the same reason, or both are
programs that are the same up to lines. From every state, that of a new session with any names among
them, and under all limits, these print the same and end with the same value, or for the same
reason, apart from lines. -/
theorem Program.layout_irrelevant {a b : String}
    (h : (Token.ofSource a).map Token.content = (Token.ofSource b).map Token.content) :
    (∃ p q, ofSource a = .ok p ∧ ofSource b = .ok q ∧ p.unlined = q.unlined ∧
      ∀ limits m, Conclusion.unlined (p.run limits m) = Conclusion.unlined (q.run limits m)) ∨
      ∃ e e', ofSource a = .error e ∧ ofSource b = .error e' ∧ e.fault = e'.fault := by
  rcases ofSource_congr h with ⟨p, q, hp, hq, hsame⟩ | hrefused
  · exact .inl ⟨p, q, hp, hq, hsame, fun limits m => run_congr_unlined hsame limits m⟩
  · exact .inr hrefused

/-- A function, a call of it and a comment, on one line and on four. -/
theorem Program.layout_irrelevant_call :
    let a := "fn f(n) \x7b 1 / n \x7d f(0) // fails"
    let b := "fn f( n )\n\x7b // divides\n\t1/n\x7d\nf (0)"
    (Token.ofSource a).map Token.content = (Token.ofSource b).map Token.content ∧
      ((∃ p q, ofSource a = .ok p ∧ ofSource b = .ok q ∧ p.unlined = q.unlined ∧
        ∀ limits m, Conclusion.unlined (p.run limits m) = Conclusion.unlined (q.run limits m)) ∨
        ∃ e e', ofSource a = .error e ∧ ofSource b = .error e' ∧ e.fault = e'.fault) := by
  intro a b
  have h : (Token.ofSource a).map Token.content = (Token.ofSource b).map Token.content := by
    decide +kernel
  exact ⟨h, layout_irrelevant h⟩

end PageScript
