import PageScript.Proofs.Evaluation.Rewritten
import PageScript.Proofs.Syntax.Trees

/-!
The last expression in the body of a function is returned, whether a `return` says so or not: in the
body itself, and in the blocks and branches that come last in it.
-/
namespace PageScript

/-! ### Explicit returns -/

namespace Node

mutual

/-- Writes the `return` where the value of an expression is that of the body that ends with the
node. The body of a loop does not end with its last statement. -/
def explicitTail : Node → Node
  | .block statements line => .block (explicitLast statements) line
  | .branch condition thenPart elsePart line =>
    .branch condition (explicitTail thenPart) (explicitElse elsePart) line
  | node => if node.isExpression then .returning (some node) node.line else node

def explicitElse : Option Node → Option Node
  | none => none
  | some part => some (explicitTail part)

def explicitLast : List Node → List Node
  | [] => []
  | [node] => [explicitTail node]
  | node :: next :: rest => node :: explicitLast (next :: rest)

end

theorem isExpression_rewritten (w : Rewriting) (node : Node) :
    (node.rewritten w).isExpression = node.isExpression := by
  cases node <;> rfl

theorem explicitTail_of_isExpression {node : Node} (h : node.isExpression) :
    node.explicitTail = .returning (some node) node.line := by
  cases node with
  | program | binding | function | branch | forEach | whileLoop | returning | block => cases h
  | _ => rfl

end Node

/-- Forgets all lines, and writes the `return` at the ends of all bodies of functions. -/
def Rewriting.explicit : Rewriting where
  line _ := 0
  statements nodes := nodes
  params _ params := params
  body _ body := body.explicitTail

/-! ### Bodies of functions -/

theorem Eval.each_singleton {α : Type} (f : α → Eval Completion) (last : Value) (a : α) :
    Eval.each f last [a] = f a := by
  rw [Eval.each, ← bind_pure (f a), bind_assoc]
  congr 1
  funext completion
  cases completion <;> rfl

section
variable {limits : Limits} {depth : Nat}

/-- An expression completes with its value. -/
theorem execute_of_isExpression {node : Node} (h : node.isExpression) (scope : ScopeId) :
    execute limits (depth + 1) scope node =
      Completion.completed <$> evaluate limits depth scope node := by
  cases node with
  | program | binding | function | branch | forEach | whileLoop | returning | block => cases h
  | _ => simp [execute]

theorem value_execute_of_isExpression {node : Node} (h : node.isExpression) (scope : ScopeId) :
    Completion.value <$> execute limits (depth + 1) scope node =
      evaluate limits depth scope node := by
  simp [execute_of_isExpression h, Completion.value]

theorem value_execute_returning (part : Node) (line : Int) (scope : ScopeId) :
    Completion.value <$> execute limits (depth + 1) scope (.returning (some part) line) =
      evaluate limits depth scope part := by
  simp [execute, Completion.value]

end

namespace Simulation
variable (S : Simulation) {limits : Limits}

/-- A list gives the same value if its statements are followed, the last one in what it gives. -/
theorem value_each_explicitLast {run run' : Node → Eval Completion}
    (hrun : ∀ node, S.Follows (Completion.mapped S.functions) (run node)
      (run' (node.rewritten S.rewriting)))
    (htail : ∀ node, S.Follows (Value.mapped S.functions) (Completion.value <$> run node)
      (Completion.value <$> run' (node.rewritten S.rewriting).explicitTail))
    (statements : List Node) (last : Value) :
    S.Follows (Value.mapped S.functions) (Completion.value <$> Eval.each run last statements)
      (Completion.value <$> Eval.each run' (last.mapped S.functions)
        (Node.explicitLast (statements.map (Node.rewritten S.rewriting)))) := by
  induction statements generalizing last with
  | nil => exact S.value (S.pure (Completion.completed last))
  | cons node rest ih =>
    cases rest with
    | nil =>
      simp only [List.map_cons, List.map_nil, Node.explicitLast, Eval.each_singleton]
      exact htail node
    | cons next rest =>
      simp only [List.map_cons, Node.explicitLast]
      rw [Eval.each, Eval.each, map_bind, map_bind]
      refine S.bind (hrun node) fun completion => ?_
      cases completion with
      | completed value => exact ih value
      | returned value => exact S.value (S.pure (Completion.returned value))

/-- A statement gives the same value with its returns written out, at every depth up to which
statements are followed. -/
theorem value_execute_explicitTail (hstatements : ∀ nodes, S.rewriting.statements nodes = nodes)
    {depth : Nat} (hkeeps : ∀ d ≤ depth, S.Keeps limits d) (scope : ScopeId) (node : Node) :
    S.Follows (Value.mapped S.functions) (Completion.value <$> execute limits depth scope node)
      (Completion.value <$>
        execute limits depth (S.scope scope) (node.rewritten S.rewriting).explicitTail) := by
  induction depth generalizing scope node with
  | zero =>
    exact S.value (S.throw .tooDeep)
  | succ depth ih =>
    have hbelow : ∀ d ≤ depth, S.Keeps limits d := fun d hd => hkeeps d (by omega)
    obtain ⟨heval, hexec⟩ := hbelow depth le_rfl
    by_cases hexpression : node.isExpression
    · have hrewritten : (node.rewritten S.rewriting).isExpression := by
        rwa [Node.isExpression_rewritten]
      rw [Node.explicitTail_of_isExpression hrewritten, value_execute_returning,
        value_execute_of_isExpression hexpression]
      exact heval scope node
    · cases node with
      | block statements line =>
        simp only [Node.rewritten, hstatements, Node.rewrittenAll_eq_map, Node.explicitTail,
          execute, map_bind]
        exact S.bind (S.newScope scope) fun inner =>
          S.value_each_explicitLast (hexec inner) (ih hbelow inner) statements .null
      | branch condition thenPart elsePart line =>
        simp only [Node.rewritten, Node.explicitTail, execute, map_bind]
        refine S.bind (heval scope condition) fun v => ?_
        rw [Value.truthy_mapped]
        split
        · exact ih hbelow scope thenPart
        · cases elsePart with
          | some part => exact ih hbelow scope part
          | none => exact S.value (S.pure (Completion.completed .null))
      | binary | unary | call | identifier | literal | array | object | template =>
        exact absurd rfl hexpression
      | _ => exact S.value ((hkeeps (depth + 1) le_rfl).execute scope _)

end Simulation

theorem Rewriting.explicit_sound : Rewriting.explicit.simulation.Sound := by
  let S := Rewriting.explicit.simulation
  refine .of_bodies (fun _ _ _ => rfl) (.of_statements fun _ => rfl)
    fun limits depth hkeeps scope name body _ => ?_
  cases body with
  | block statements line =>
    have hrun := (hkeeps depth le_rfl).execute scope
    have htail := S.value_execute_explicitTail (fun _ => rfl) hkeeps scope
    simp only [Node.rewritten, Rewriting.explicit, Node.rewrittenAll_eq_map]
    exact S.value_each_explicitLast hrun htail statements .null
  | _ => exact S.value (S.throw .bodyNotBlock)

/-! ### Programs -/

/-- The program without its lines and with every `return` at the end of a function written out.
Programs that differ in lines and such returns only are the same then. -/
def Program.explicit (program : Program) : Program := program.rewritten .explicit

/-- How a program concludes, apart from lines, and from returns at the ends of the functions in its
value and in the state that it leaves. -/
def Conclusion.explicit : Conclusion Value → Conclusion Value :=
  Conclusion.rewritten .explicit (Value.rewritten .explicit)

/-- **The last expression of a function is returned.** From the same state, programs that differ
only in lines and in whether they say `return` before the last expressions of functions end in the
same way: with the same output, and the same fault or, up to such differences, the same value. -/
theorem Program.run_congr_explicit {p q : Program} (h : p.explicit = q.explicit) (limits : Limits)
    (m : Machine) :
    Conclusion.explicit (p.run limits m) = Conclusion.explicit (q.run limits m) :=
  run_congr_rewritten Rewriting.explicit_sound h limits m

/-- A function that ends with an `if`, an `else if` and an `else`, in which another function is
declared and called: with and without returns. -/
theorem Program.run_congr_explicit_branches :
    let name (s : String) : Node := .identifier s 2
    let choice (last : Node → Node) : Node :=
      .branch (name "a") (.block [last (name "a")] 2)
        (some (.branch (name "b") (.block [.block [last (name "b")] 2] 2)
          (some (.block [.function "g" [] (.block [last (name "a")] 3) 3,
            last (.call (name "g") [] 4)] 3)) 2)) 2
    let program (last : Node → Node) : Program :=
      ⟨[.function "f" ["a", "b"] (.block [choice last] 1) 1, name "f"]⟩
    let m := Machine.start []
    (program id).explicit = (program fun node => .returning (some node) 9).explicit ∧
      Conclusion.explicit ((program id).run {} m) =
        Conclusion.explicit ((program fun node => .returning (some node) 9).run {} m) := by
  intro name choice program m
  have h : (program id).explicit = (program fun node => .returning (some node) 9).explicit := rfl
  exact ⟨h, run_congr_explicit h {} m⟩

end PageScript
