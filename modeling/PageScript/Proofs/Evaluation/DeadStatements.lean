import PageScript.Proofs.Evaluation.Returning
import PageScript.Proofs.Evaluation.Rewritten

/-!
Statements after a `return` are dead: what they are makes no difference to a program, wherever they
stand. And a `return` ends the call that it is in, with all blocks, branches and loops around it,
but nothing of what has called.
-/
namespace PageScript

/-! ### Live statements -/

namespace Node

def isReturn : Node → Bool
  | .returning .. => true
  | _ => false

theorem isReturn_rewritten (w : Rewriting) (node : Node) :
    (node.rewritten w).isReturn = node.isReturn := by
  cases node <;> rfl

/-- The statements of a list that can run: those up to the first `return`. -/
def upToReturn : List Node → List Node
  | [] => []
  | node :: rest => if node.isReturn then [node] else node :: upToReturn rest

end Node

/-- Cuts off the statements after a `return`, in every list of statements. -/
def Rewriting.live : Rewriting where
  line line := line
  statements := Node.upToReturn
  params _ params := params
  body _ body := body

/-- The program without the statements that follow a `return` in the same list. Programs that differ
in such statements only are the same without them. -/
def Program.live (program : Program) : Program := program.rewritten .live

/-- How a program concludes, apart from dead statements in the functions of its value and of the
state that it leaves. -/
def Conclusion.live : Conclusion Value → Conclusion Value :=
  Conclusion.rewritten .live (Value.rewritten .live)

/-- A list of statements is followed by its live ones, since a `return` does not complete. -/
theorem Simulation.each_upToReturn (S : Simulation) {run run' : Node → Eval Completion}
    (hreturns : Eval.KeepsReturns run)
    (hrun : ∀ node, S.Follows (Completion.mapped S.functions) (run node)
      (run' (node.rewritten S.rewriting))) (statements : List Node) (last : Value) :
    S.Follows (Completion.mapped S.functions) (Eval.each run last statements)
      (Eval.each run' (last.mapped S.functions)
        (Node.upToReturn (statements.map (Node.rewritten S.rewriting)))) := by
  induction statements generalizing last with
  | nil => exact S.pure (Completion.completed last)
  | cons node rest ih =>
    rw [List.map_cons, Node.upToReturn, Node.isReturn_rewritten]
    by_cases hnode : node.isReturn
    · rw [if_pos hnode]
      refine S.bind_of_ok (hrun node) fun completion m m' hcompletion => ?_
      cases completion with
      | returned value => exact S.pure (Completion.returned value)
      | completed value =>
        cases node with
        | returning part line => exact absurd hcompletion (hreturns part line m value m')
        | _ => cases hnode
    · rw [if_neg hnode]
      refine S.bind (hrun node) fun completion => ?_
      cases completion with
      | completed value => exact ih value
      | returned value => exact S.pure (Completion.returned value)

theorem Rewriting.live_sound : Rewriting.live.simulation.Sound := by
  refine .of_each (fun _ _ _ => rfl) (fun _ _ _ => rfl) fun run run' statements hreturns hrun => ?_
  rw [Node.rewrittenAll_eq_map]
  exact Rewriting.live.simulation.each_upToReturn hreturns hrun statements .null

/-! ### Programs -/

/-- **A `return` ends its call and nothing else.** From the same state, programs that differ in dead
statements only end in the same way: with the same output, and the same error on the same line or
the same value, apart from dead statements in functions. A statement returns if and only if a `return`
is reached in it, through blocks, branches and loops. If that is so in the body of a function, the
value is that of the call, and if it is so at the top level, it is that of the program. Expressions
never return, whatever calls they make. -/
theorem Program.return_ends_call {p q : Program} (h : p.live = q.live) (limits : Limits) :
    (∀ m, Conclusion.live (p.run limits m) = Conclusion.live (q.run limits m)) ∧
    (∀ depth scope node m v m', execute limits depth scope node m = .ok (.returned v) m' ↔
      Reaches limits depth scope node m v m') ∧
    (∀ depth (f : Closure) statements bodyLine args line (m : Machine) v m',
      f.body = .block statements bodyLine → m.calls < limits.callDepth →
      ReachesAmong limits depth m.scopes.all.size statements (f.entered args m) v m' →
      f.call limits (execute limits depth) args line m = .ok v { m' with calls := m.calls }) ∧
    (∀ front statement rest last m mid v m',
      Eval.each (executeTop limits) .null front m = .ok (.completed last) mid →
      Reaches limits limits.nesting Machine.globals statement mid v m' →
      run limits ⟨front ++ statement :: rest⟩ m = .ok v m') ∧
    ∀ depth scope node m v m', node.isExpression →
      execute limits depth scope node m ≠ .ok (.returned v) m' := by
  refine ⟨fun m => run_congr_rewritten Rewriting.live_sound h limits m, ?_, ?_, ?_, ?_⟩
  · intro depth scope node m v m'
    exact execute_returned_iff
  · intro depth f statements bodyLine args line m v m' hbody hfree hreaches
    exact Closure.call_of_reaches hbody hreaches hfree line
  · intro front statement rest last m mid v m' hfront hreaches
    exact run_of_reaches hfront hreaches
  · intro depth scope node m v m' hexpression
    exact execute_ne_returned hexpression

/-- A function that returns from a loop in a branch, and a `return` of its value at the top level:
behind both stand statements that never run. -/
theorem Program.return_ends_call_loop :
    let number (n : Nat) : Node := .literal (.number (.integer n)) 2
    let loop (dead : List Node) : Node := .whileLoop (.literal (.bool true) 2)
      (.block (.returning (some (number 1)) 2 :: dead) 2) 2
    let body (dead : List Node) : Node :=
      .block [.branch (number 1) (.block [loop dead] 2) none 2, .returning none 3] 1
    let call : Node := .call (.identifier "f" 4) [] 4
    let program (dead : List Node) : Program :=
      ⟨.function "f" [] (body dead) 1 :: .returning (some call) 4 :: dead⟩
    let printing : Node := .call (.identifier "print" 5) [number 7] 5
    let m := Machine.start []
    (program []).live = (program [printing, .returning none 6]).live ∧
      Conclusion.live ((program []).run {} m) =
        Conclusion.live ((program [printing, .returning none 6]).run {} m) := by
  intro number loop body call program printing m
  have hlive : (program []).live = (program [printing, .returning none 6]).live := rfl
  exact ⟨hlive, (return_ends_call hlive {}).1 m⟩

end PageScript
