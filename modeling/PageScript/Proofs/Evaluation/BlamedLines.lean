import PageScript.Proofs.Evaluation.Faults
import PageScript.Proofs.Lexing.Places
import PageScript.Proofs.Syntax.Blame
import PageScript.Proofs.Syntax.FirstTokens

/-!
The lines of run-time errors. However deep in calls an error is found, and whatever finds it, an
operator, a name, a builtin, the text of a number, a call or a loop, it stands under the line of a
node of the program that may find it. Where steps are nested too deeply, that is the statement at
the top level.
-/
namespace PageScript

/-- A run-time error stands under the line of a node, which finds it by itself, or is a statement at
the top level in which steps are nested too deeply. -/
structure RuntimeError.Blames (limit : Int) (program : Program) (node : Node) (e : RuntimeError) :
    Prop where
  line_eq : e.line = node.line
  found : node.Raises limit e.fault ∨ node ∈ program.body ∧ e.fault = .nestingTooDeep

/-- Functions are made by the program, and errors blame its nodes. -/
def Policy.blaming (limit : Int) (program : Program) : Policy where
  function := Closure.MadeFrom program.nodes
  stop
    | .error e => ∃ node ∈ program.nodes, e.Blames limit program node
    | .tooDeep | .unfinished => True
    | .bodyNotBlock => False

theorem Policy.blaming_covers (limit : Int) (program : Program) :
    (blaming limit program).Covers limit program.nodes where
  madeFrom _ := Iff.rfl
  tooDeep := trivial
  unfinished := trivial
  raises node hnode _ _ h := ⟨node, hnode, rfl, .inl h⟩

namespace Program
variable {source : String} {program : Program}

theorem run_upholds_blaming (hread : ofSource source = .ok program) (limits : Limits)
    (calls : Nat) :
    Eval.Upholds (Policy.blaming limits.callDepth program).atTop limits.callDepth calls
      (Policy.blaming limits.callDepth program).atTop.Allows (program.run limits) := by
  refine (Policy.blaming_covers limits.callDepth program).run hread (List.Subset.refl _) ?_ calls
  intro statement hstatement
  have hmem : statement ∈ program.nodes := nodes_subset hstatement statement.mem_nodes_self
  exact ⟨statement, hmem, rfl, .inr ⟨hstatement, rfl⟩⟩

/-- The node that is to blame for an error of a run. -/
theorem exists_blamed_node (hread : ofSource source = .ok program) {env : List (String × Value)}
    (henv : ∀ entry ∈ env, entry.2.functions = []) {limits : Limits} {e : RuntimeError}
    {m : Machine} (h : program.run limits (Machine.start env) = .error (.error e) m) :
    ∃ node ∈ program.nodes, e.Blames limits.callDepth program node := by
  obtain ⟨-, -, hends⟩ := run_upholds_blaming hread limits 0 _ (.start _ henv) rfl
  rw [h] at hends
  exact hends.1

/-- The error of a run of a source is raised, if the limit of calls can be named in it. -/
theorem raised_of_run (hlength : source.toList.length + 1 < 10 ^ Numeral.maxDigits)
    (hread : ofSource source = .ok program) {env : List (String × Value)}
    (henv : ∀ entry ∈ env, entry.2.functions = []) {limits : Limits}
    (hlimit : Number.fitsText limits.callDepth) {e : RuntimeError} {m : Machine}
    (h : program.run limits (Machine.start env) = .error (.error e) m) :
    e.raised? source = some (e.report source) := by
  obtain ⟨node, hnode, hblames⟩ := exists_blamed_node hread henv h
  obtain ⟨t, ht, -, hline⟩ := exists_token_of_node hread hnode
  rw [← hblames.line_eq] at hline
  refine e.raisedUnless.raised (not_or.2 ⟨hline ▸ Token.not_isLong_line ht hlength, ?_⟩) source
  rintro ⟨limit, name, hfault, hlong⟩
  -- A fault of the nesting limit is none of the call depth.
  have hraises : node.Raises limits.callDepth e.fault :=
    hblames.found.resolve_right fun hdeep => by rw [hdeep.2] at hfault; cases hfault
  rw [hraises.ofNode.limit_eq limit name hfault] at hlong
  exact Number.fitsText_iff.1 hlimit hlong

/-- **Errors stand under lines of the program.** If the run of a program that was read fails with an
error, in a session that begins without functions of programs, then a node of the program is to
blame, and the error stands under its line. There is a token of the source on that line, which lies
between 1 and the last line of the source. -/
theorem run_error_blames (hread : ofSource source = .ok program) {env : List (String × Value)}
    (henv : ∀ entry ∈ env, entry.2.functions = []) {limits : Limits} {e : RuntimeError}
    {m : Machine} (h : program.run limits (Machine.start env) = .error (.error e) m) :
    (∃ node ∈ program.nodes, e.Blames limits.callDepth program node) ∧
    (∃ t ∈ Token.ofSource source, t.kind ≠ .endOfInput ∧ t.line = e.line) ∧
    1 ≤ e.line ∧ e.line ≤ 1 + source.toList.count '\n' := by
  obtain ⟨node, hnode, hblames⟩ := exists_blamed_node hread henv h
  obtain ⟨t, ht, hkind, hline⟩ := exists_token_of_node hread hnode
  rw [← hblames.line_eq] at hline
  have hbounds := Token.line_bounds ht
  rw [hline] at hbounds
  exact ⟨⟨node, hnode, hblames⟩, ⟨t, ht, hkind, hline⟩, hbounds⟩

/-- A function that calls itself, on two lines of its body, where one call is the limit. -/
theorem run_error_blames_endless :
    let source := "let x = 1\nfn f(g) \x7b\n  return g(\n    g)\n\x7d\nf(f)"
    let program : Program := ⟨[
      .binding "x" (.literal (.number (.integer 1)) 1) 1,
      .function "f" ["g"] (.block [.returning (some
        (.call (.identifier "g" 3) [.identifier "g" 4] 3)) 3] 2) 2,
      .call (.identifier "f" 6) [.identifier "f" 6] 6]⟩
    let limits : Limits := { callDepth := 1 }
    let e : RuntimeError := ⟨.callDepth 1 "f", 3⟩
    ofSource source = .ok program ∧
      (∃ m, program.run limits (Machine.start []) = .error (.error e) m) ∧
      e.raised? source = some (e.report source) ∧
      (∃ node ∈ program.nodes, e.Blames 1 program node) ∧
      (∃ t ∈ Token.ofSource source, t.kind ≠ .endOfInput ∧ t.line = e.line) ∧
      1 ≤ e.line ∧ e.line ≤ 1 + source.toList.count '\n' := by
  intro source program limits e
  have hread : ofSource source = .ok program := by
    clear e limits
    revert program source
    with_unfolding_all rfl
  have hrun : program.run limits (Machine.start []) =
      .error (.error e) ((program.run limits).after (Machine.start [])) := by
    clear hread
    revert e limits program
    with_unfolding_all rfl
  have henv : ∀ entry ∈ ([] : List (String × Value)), entry.2.functions = [] := fun _ h => nomatch h
  have hraised : e.raised? source = some (e.report source) :=
    raised_of_run (by decide +kernel) hread henv (by decide +kernel) hrun
  exact ⟨hread, ⟨_, hrun⟩, hraised, run_error_blames hread henv hrun⟩

end Program
end PageScript
