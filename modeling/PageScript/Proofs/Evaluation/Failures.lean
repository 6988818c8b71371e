import PageScript.Proofs.Evaluation.Sessions
import PageScript.Proofs.Syntax.WellFormed

/-!
What a program leaves that ends early. A statement at the top level binds the name that it declares
if it completes, and nothing at all if it fails or returns. So whatever a program does before it
ends, it leaves what the statements have declared that completed, and whatever is run later goes on
as if those had been the whole program.
-/
namespace PageScript

/-! ### Declarations -/

namespace Node

/-- Whether a node binds a name in the scope that it runs in. -/
def isDeclaration : Node → Bool
  | .binding .. | .function .. => true
  | _ => false

theorem isDeclaration_of_isBlock {node : Node} (h : node.isBlock) : node.isDeclaration = false := by
  cases node <;> first | rfl | cases h

theorem isDeclaration_of_isBranch {node : Node} (h : node.isBranch) :
    node.isDeclaration = false := by
  cases node <;> first | rfl | cases h

/-- A well-formed tree declares in the scope that it runs in at its root only: the bodies of loops
and the parts of branches are blocks. -/
theorem WellFormed.confined : ∀ {node : Node}, node.WellFormed → node.isDeclaration = false →
    node.confined
  | .branch condition thenPart elsePart line, h, _ => by
    have hblocks := h.hasBlocks
    simp only [Node.hasBlocks, Bool.and_eq_true] at hblocks
    have hthen : thenPart.confined :=
      WellFormed.confined (h.child (by simp [children, parts])) (isDeclaration_of_isBlock hblocks.1)
    simp only [Node.confined, Bool.and_eq_true]
    refine ⟨hthen, ?_⟩
    cases elsePart with
    | none => rfl
    | some part =>
      have hpart : part.isDeclaration = false := by
        rcases Bool.or_eq_true_iff.1 hblocks.2 with hpart | hpart
        · exact isDeclaration_of_isBlock hpart
        · exact isDeclaration_of_isBranch hpart
      exact WellFormed.confined (h.child (by simp [children, parts])) hpart
  | .whileLoop condition body line, h, _ => by
    have hblock : body.isBlock := h.hasBlocks
    have hbody : body.confined :=
      WellFormed.confined (h.child (by simp [children, parts])) (isDeclaration_of_isBlock hblock)
    exact hbody
  | .program .., _, _ | .forEach .., _, _ | .returning .., _, _ | .block .., _, _ | .binary .., _, _
  | .unary .., _, _ | .call .., _, _ | .identifier .., _, _ | .literal .., _, _ | .array .., _, _
  | .object .., _, _ | .template .., _, _ => rfl

theorem WellFormed.isDeclaration_or_confined {node : Node} (h : node.WellFormed) :
    node.isDeclaration ∨ node.confined := by
  by_cases hdeclaration : node.isDeclaration
  · exact .inl hdeclaration
  · exact .inr (h.confined (by simpa using hdeclaration))

end Node

namespace Scopes

/-- The scopes with what a statement at the top level declares that completes with a value. -/
def declare (s : Scopes) (value : Value) : Node → Scopes
  | .binding name _ _ | .function name _ _ _ => s.define Machine.globals name value
  | _ => s

/-- The scopes with what statements declare one after another. -/
def declareAll (s : Scopes) (done : List (Node × Value)) : Scopes :=
  done.foldl (fun s entry => s.declare entry.2 entry.1) s

theorem declare_of_confined {statement : Node} (h : statement.confined) (s : Scopes)
    (value : Value) : s.declare value statement = s := by
  cases statement <;> first | rfl | cases h

theorem size_declareAll (s : Scopes) (done : List (Node × Value)) :
    (s.declareAll done).all.size = s.all.size := by
  induction done generalizing s with
  | nil => rfl
  | cons entry rest ih =>
    show ((s.declare entry.2 entry.1).declareAll rest).all.size = s.all.size
    rw [ih]
    cases entry.1 <;> first | rfl | exact size_define ..

namespace Grows
variable {s t : Scopes}

/-- The same binding on both sides. -/
theorem define_both (h : Grows (fun _ => False) s t) (scope : ScopeId) (name : String)
    (value : Value) :
    Grows (fun _ => False) (s.define scope name value) (t.define scope name value) := by
  refine ⟨by simpa using h.size_le, fun id hid _ => ?_⟩
  rw [size_define] at hid
  simp only [Scopes.define, Array.getElem?_modify, h.same id hid not_false]

theorem declare_both (h : Grows (fun _ => False) s t) (value : Value) (statement : Node) :
    Grows (fun _ => False) (s.declare value statement) (t.declare value statement) := by
  cases statement with
  | binding name | function name => exact h.define_both Machine.globals name value
  | _ => exact h

theorem declareAll_both (h : Grows (fun _ => False) s t) (done : List (Node × Value)) :
    Grows (fun _ => False) (s.declareAll done) (t.declareAll done) := by
  induction done generalizing s t with
  | nil => exact h
  | cons entry rest ih => exact ih (h.declare_both entry.2 entry.1)

end Grows
end Scopes

/-! ### One statement -/

/-- What a statement at the top level does to the scopes that there are, by how it ends. -/
def Scopes.BoundBy (s : Scopes) (statement : Node) : EStateM.Result Stop Machine Completion → Prop
  | .ok (.completed value) m => Grows (fun _ => False) (s.declare value statement) m.scopes
  | .ok (.returned _) m | .error _ m => Grows (fun _ => False) s m.scopes

/-- A declaration binds its name if it completes, and other statements bind nothing. -/
theorem boundBy_execute (limits : Limits) (depth : Nat) {statement : Node}
    (h : statement.isDeclaration ∨ statement.confined) (m : Machine) :
    m.scopes.BoundBy statement (execute limits depth Machine.globals statement m) := by
  by_cases hconfined : statement.confined
  · have hgrows := execute_grows_of_confined limits depth Machine.globals statement hconfined m
    cases hrun : execute limits depth Machine.globals statement m with
    | ok completion m' =>
      rw [Eval.after_of_ok hrun] at hgrows
      cases completion with
      | completed value =>
        show Scopes.Grows _ (m.scopes.declare value statement) m'.scopes
        rw [Scopes.declare_of_confined hconfined]
        exact hgrows
      | returned value => exact hgrows
    | error stop m' =>
      rw [Eval.after_of_error hrun] at hgrows
      exact hgrows
  · have hdeclaration := h.resolve_right hconfined
    cases depth with
    | zero => exact .refl _ m.scopes
    | succ depth =>
      cases statement with
      | binding name value line =>
        have hgrows := (evaluate_execute_grows limits depth).1 Machine.globals value m
        rw [execute]
        cases hrun : evaluate limits depth Machine.globals value m with
        | ok v m' =>
          rw [Eval.after_of_ok hrun] at hgrows
          rw [Eval.bind_apply_of_ok hrun]
          exact hgrows.define_both Machine.globals name v
        | error stop m' =>
          rw [Eval.after_of_error hrun] at hgrows
          rw [Eval.bind_apply_of_error hrun]
          exact hgrows
      | function name params body line => exact .refl _ _
      | _ => cases hdeclaration

theorem boundBy_executeTop (limits : Limits) {statement : Node}
    (h : statement.isDeclaration ∨ statement.confined) (m : Machine) :
    m.scopes.BoundBy statement (executeTop limits statement m) := by
  have hbound := boundBy_execute limits limits.nesting h m
  cases hrun : execute limits limits.nesting Machine.globals statement m with
  | ok completion m' =>
    rw [hrun] at hbound
    rw [executeTop_of_ok hrun]
    exact hbound
  | error stop m' =>
    rw [hrun] at hbound
    rw [executeTop_of_error hrun]
    exact hbound

/-! ### From one statement to the next -/

namespace Program

/-- From one state to another, statements at the top level complete one after another, each with its
value. -/
inductive Completes (limits : Limits) : Machine → List (Node × Value) → Machine → Prop
  | nil (m : Machine) : Completes limits m [] m
  | cons {statement : Node} {value : Value} {m m' m'' : Machine} {done : List (Node × Value)}
      (first : executeTop limits statement m = .ok (.completed value) m')
      (rest : Completes limits m' done m'') :
      Completes limits m ((statement, value) :: done) m''

/-- What a program comes to in the state `m` if none of the statements that are left completes: it
has the last value if there is none, and else it ends with the first of them. -/
inductive Ends (limits : Limits) (last : Value) (m : Machine) :
    List Node → EStateM.Result Stop Machine Value → Prop
  | completed : Ends limits last m [] (.ok last m)
  | returned {statement : Node} {rest : List Node} {value : Value} {m' : Machine}
      (h : executeTop limits statement m = .ok (.returned value) m') :
      Ends limits last m (statement :: rest) (.ok value m')
  | stopped {statement : Node} {rest : List Node} {stop : Stop} {m' : Machine}
      (h : executeTop limits statement m = .error stop m') :
      Ends limits last m (statement :: rest) (.error stop m')

/-- Every run goes on from statement to statement until it ends. -/
theorem exists_completes (limits : Limits) (statements : List Node) (first : Value) (m : Machine) :
    ∃ done rest last midway, statements = done.map (·.1) ++ rest ∧
      Completes limits m done midway ∧
      Eval.each (executeTop limits) first (done.map (·.1)) m = .ok (.completed last) midway ∧
      Ends limits last midway rest
        ((do return (← Eval.each (executeTop limits) first statements).value : Eval Value) m) := by
  induction statements generalizing first m with
  | nil => exact ⟨[], [], first, m, rfl, .nil m, rfl, .completed⟩
  | cons statement rest ih =>
    simp only [Eval.each, bind, EStateM.bind]
    cases hrun : executeTop limits statement m with
    | ok completion m' =>
      cases completion with
      | completed value =>
        obtain ⟨done, rest, last, midway, rfl, hcompletes, heach, hends⟩ := ih value m'
        refine ⟨(statement, value) :: done, rest, last, midway, rfl, .cons hrun hcompletes, ?_,
          hends⟩
        rw [List.map_cons, Eval.each, Eval.bind_apply_of_ok hrun]
        exact heach
      | returned value => exact ⟨[], _, first, m, rfl, .nil m, rfl, .returned hrun⟩
    | error stop m' => exact ⟨[], _, first, m, rfl, .nil m, rfl, .stopped hrun⟩

/-- Statements that complete bind in the scopes that there are exactly what they declare. -/
theorem Completes.declares {limits : Limits} {m m' : Machine} {done : List (Node × Value)}
    (h : Completes limits m done m')
    (hform : ∀ entry ∈ done, entry.1.isDeclaration ∨ entry.1.confined) :
    Scopes.Grows (fun _ => False) (m.scopes.declareAll done) m'.scopes := by
  induction h with
  | nil m => exact .refl _ m.scopes
  | @cons statement value m m' m'' done first rest ih =>
    obtain ⟨hstatement, hrest⟩ := List.forall_mem_cons.1 hform
    have hbound := boundBy_executeTop limits hstatement m
    rw [first] at hbound
    exact (hbound.declareAll_both _).trans (ih hrest)

/-- What the program did in the end has no effect on what is there in the state `m`. -/
theorem Ends.extends {limits : Limits} {last : Value} {m : Machine} {rest : List Node}
    {x : Eval Value} {before : Machine} (hends : Ends limits last m rest (x before))
    (hm : m.Resting) (hform : ∀ statement ∈ rest, statement.isDeclaration ∨ statement.confined) :
    m.Extends (x.after before) := by
  -- It is at most one statement that was run then, and it did not complete.
  have hstatement {statement : Node} (hmem : statement ∈ rest) {m' : Machine}
      (hafter : (executeTop limits statement).after m = m')
      (hgrows : m.scopes.Grows (fun _ => False) m'.scopes) : m.Extends m' := by
    subst hafter
    have hclosed := Eval.Closes.executeTop limits statement hm.globals m hm.closed le_rfl
    refine ⟨hclosed.2.1, fun id hid => hgrows.same id hid not_false, ?_⟩
    rw [after_executeTop]
    exact ((evaluate_execute_precedes limits limits.nesting).2 _ statement m).calls
  unfold Eval.after
  generalize x before = result at hends
  cases hends with
  | completed => exact .refl m
  | @returned statement rest value m' h =>
    have hbound := boundBy_executeTop limits (hform statement List.mem_cons_self) m
    rw [h] at hbound
    exact hstatement List.mem_cons_self (Eval.after_of_ok h) hbound
  | @stopped statement rest stop m' h =>
    have hbound := boundBy_executeTop limits (hform statement List.mem_cons_self) m
    rw [h] at hbound
    exact hstatement List.mem_cons_self (Eval.after_of_error h) hbound

/-! ### What is left behind -/

/-- A program leaves exactly what its statements `done` have declared, which lead from the state
that it is run in to the state `midway`. -/
structure LeavesCompleted (limits : Limits) (program : Program) (before : Machine)
    (done : List (Node × Value)) (midway : Machine) : Prop where
  /-- They are the first statements of the program and completed in turn. The program then ended
  with the next one or for want of another, and without the others it would have ended here. -/
  completes : Completes limits before done midway
  ends : ∃ rest last, program.body = done.map (·.1) ++ rest ∧
    run limits ⟨done.map (·.1)⟩ before = .ok last midway ∧
    Ends limits last midway rest (program.run limits before)
  calls : ((program.run limits).after before).calls = 0
  /-- The outermost scope, and every other one that there was, is what their declarations make of
  it. -/
  scopes : ∀ id < before.scopes.all.size,
    ((program.run limits).after before).scopes.all[id]? =
      (before.scopes.declareAll done).all[id]?
  /-- Up to new numbers for what was made in vain, whatever programs are run later, each of them
  comes to what it would have come to from `midway`, and they print the same text. -/
  later : ∃ r : Renaming, r.Fixes midway.extent ∧ ∀ programs,
    List.Forall₂ (Eval.SameResult (Value.renamed r)) (Session.results limits programs midway)
        (Session.results limits programs ((program.run limits).after before)) ∧
      Machine.Advance r midway ((program.run limits).after before)
        (Session.after limits programs midway)
        (Session.after limits programs ((program.run limits).after before))

/-- **A run leaves exactly the completed statements behind.** Whatever programs were run before, a
program that was read leaves what the statements at its top level have declared that completed: when
it ends normally, by a `return` or by stopping for any reason, be it deep inside nested calls, no
call goes on, and no name is bound in a scope that was there before but by those declarations, in
their order. What is run later therefore does as if the program had ended with these statements.
Sessions begin at rest (`Machine.Resting.start`). -/
theorem run_leaves_completed (limits : Limits) {m : Machine} (hm : m.Resting)
    (history : List Program) {source : String} {program : Program}
    (hread : ofSource source = .ok program) :
    ∃ done midway,
      program.LeavesCompleted limits (Session.after limits history m) done midway := by
  have hbefore := hm.after_session limits history
  generalize Session.after limits history m = before at hbefore
  have hform (statement : Node) (h : statement ∈ program.body) :
      statement.isDeclaration ∨ statement.confined :=
    (wellFormed_of_ofSource hread statement h).2.isDeclaration_or_confined
  obtain ⟨done, rest, last, midway, hbody, hcompletes, heach, hends⟩ :=
    exists_completes limits program.body .null before
  have hrun : run limits ⟨done.map (·.1)⟩ before = .ok last midway := by
    simp only [run, bind, EStateM.bind, heach]
    rfl
  have hmidway : midway.Resting := by
    have hafter := hbefore.after_run limits ⟨done.map (·.1)⟩
    rwa [Eval.after_of_ok hrun] at hafter
  have hdone : ∀ entry ∈ done, entry.1.isDeclaration ∨ entry.1.confined := by
    intro entry hentry
    apply hform
    rw [hbody]
    exact List.mem_append_left _ (List.mem_map.2 ⟨entry, hentry, rfl⟩)
  have hextends : midway.Extends ((program.run limits).after before) := by
    refine Ends.extends hends hmidway fun statement hstatement => hform statement ?_
    rw [hbody]
    exact List.mem_append_right _ hstatement
  have hgrows := hcompletes.declares hdone
  refine ⟨done, midway, hcompletes, ⟨rest, last, hbody, hrun, hends⟩, ?_, ?_, ?_⟩
  · exact (hbefore.after_run limits program).calls
  · intro id hid
    rw [← Scopes.size_declareAll _ done] at hid
    rw [hextends.same id (Nat.lt_of_lt_of_le hid hgrows.size_le), hgrows.same id hid not_false]
  · have hfixes := Renaming.later_fixes midway.extent ((program.run limits).after before).extent
    refine ⟨_, hfixes, fun programs => ?_⟩
    exact Session.corresponds (hfixes.scope _ hmidway.globals) (hextends.corresponds hmidway.closed)
      programs

/-- A program that divides by zero inside a call, after two statements that complete. -/
theorem run_leaves_completed_division :
    let source := "let x = 1 fn f(n) \x7b let y = 2 return x / n \x7d let z = f(0) let w = 3"
    let program : Program := ⟨[
      .binding "x" (.literal (.number (.integer 1)) 1) 1,
      .function "f" ["n"] (.block [.binding "y" (.literal (.number (.integer 2)) 1) 1,
        .returning (some (.binary "/" (.identifier "x" 1) (.identifier "n" 1) 1)) 1] 1) 1,
      .binding "z" (.call (.identifier "f" 1) [.literal (.number (.integer 0)) 1] 1) 1,
      .binding "w" (.literal (.number (.integer 3)) 1) 1]⟩
    let m := Machine.start []
    m.Resting ∧ ofSource source = .ok program ∧
      (∃ after, program.run {} m = .error (.error ⟨.divisionByZero, 1⟩) after) ∧
      ∃ done midway, program.LeavesCompleted {} m done midway := by
  intro source program m
  have h : ofSource source = .ok program := by
    revert program source
    with_unfolding_all rfl
  have hrun :
      program.run {} m = .error (.error ⟨.divisionByZero, 1⟩) ((program.run {}).after m) := by
    clear h
    revert program m
    with_unfolding_all rfl
  have hm : m.Resting := .start fun _ h => nomatch h
  exact ⟨hm, h, ⟨_, hrun⟩, run_leaves_completed {} hm [] h⟩

end Program
end PageScript
