import PageScript.Proofs.Evaluation.Rewritten

/-!
The names of builtins cannot be taken over. A function may be declared under such a name, bound to
others and passed around, but whatever is called in its place, it is the builtin: what stands in the
function shows nowhere in a run.
-/
namespace PageScript

/-- Empties the functions that have the names of builtins. -/
def Rewriting.hollow : Rewriting where
  line line := line
  statements nodes := nodes
  params name params := if (Builtin.ofName? name).isSome then [] else params
  body name body := if (Builtin.ofName? name).isSome then .block [] 0 else body

/-- The program without the parameters and bodies of functions, at any depth, that have the names of
builtins. Programs that differ in these only are the same then. -/
def Program.hollow (program : Program) : Program := program.rewritten .hollow

/-- The state without them. -/
def Machine.hollow (m : Machine) : Machine := m.rewritten .hollow

/-- How a program concludes, apart from what stands in such functions in its value and in the state
that it leaves. -/
def Conclusion.hollow : Conclusion Value → Conclusion Value :=
  Conclusion.rewritten .hollow (Value.rewritten .hollow)

theorem Rewriting.hollow_params {name : String} (h : Builtin.ofName? name = none)
    (params : List String) : hollow.params name params = params := by
  simp [hollow, h]

theorem Rewriting.hollow_body {name : String} (h : Builtin.ofName? name = none) (body : Node) :
    hollow.body name body = body := by
  simp [hollow, h]

/-- A function that is called has another name, and is left as it is. -/
theorem Rewriting.hollow_sound : Rewriting.hollow.simulation.Sound :=
  .of_each (fun _ params h => hollow_params h params) (fun _ body h => hollow_body h body)
    (.of_statements fun _ => rfl)

/-! ### Calls -/

section
variable (limits : Limits) (depth : Nat) (scope : ScopeId) (args : List Node) (line : Int)

/-- Evaluates arguments and calls a builtin with them. -/
def Builtin.callOn (b : Builtin) : Eval Value := do
  let values ← args.mapM fun arg => evaluate limits depth scope arg
  b.call values line

/-- A call by a plain name that is reserved does not look the name up. -/
theorem evaluate_call_name (b : Builtin) (nameLine : Int) :
    evaluate limits (depth + 1) scope (.call (.identifier b.name nameLine) args line) =
      b.callOn limits depth scope args line := by
  simp only [evaluate, calleeValue, reservedCallee?, Builtin.ofName?_name]
  rfl

/-- However a function with the name of a builtin has got there, a call of it is one of the
builtin. -/
theorem evaluate_call_closure {callee : Node} {f : Closure} {b : Builtin} {m m' : Machine}
    (hcallee : reservedCallee? callee = none)
    (hf : evaluate limits depth scope callee m = .ok (.closure f) m')
    (hname : Builtin.ofName? f.name = some b) :
    evaluate limits (depth + 1) scope (.call callee args line) m =
      b.callOn limits depth scope args line m' := by
  have htarget : calleeValue (fun callee => evaluate limits depth scope callee) callee m =
      .ok (.builtin b) m' := by
    simp only [calleeValue, hcallee, map_eq_pure_bind]
    rw [Eval.bind_apply_of_ok hf, callTarget, hname]
    rfl
  simp only [evaluate]
  rw [Eval.bind_apply_of_ok htarget]
  rfl

end

/-! ### Programs -/

/-- **Reserved names cannot be taken over.** Programs that differ only in the parameters and bodies
of functions with the names of builtins, run from states that differ in no more, print the same and
end with the same fault or, up to such differences, the same value. In every scope and state, a call
by the plain name of a builtin calls it, and so does a call of any function with its name. -/
theorem builtins_not_taken_over {p q : Program} (hprogram : p.hollow = q.hollow) {m n : Machine}
    (hmachine : m.hollow = n.hollow) (limits : Limits) :
    Conclusion.hollow (p.run limits m) = Conclusion.hollow (q.run limits n) ∧
      ∀ depth scope args line,
        (∀ (b : Builtin) (nameLine : Int),
          evaluate limits (depth + 1) scope (.call (.identifier b.name nameLine) args line) =
            b.callOn limits depth scope args line) ∧
        ∀ callee f b before after, reservedCallee? callee = none →
          evaluate limits depth scope callee before = .ok (.closure f) after →
          Builtin.ofName? f.name = some b →
          evaluate limits (depth + 1) scope (.call callee args line) before =
            b.callOn limits depth scope args line after := by
  refine ⟨?_, fun depth scope args line => ⟨fun b nameLine => ?_, ?_⟩⟩
  · have hp := p.run_rewritten Rewriting.hollow_sound limits m
    have hq := q.run_rewritten Rewriting.hollow_sound limits n
    rw [← Program.hollow, ← Machine.hollow, ← Conclusion.hollow] at hp hq
    rw [← hp, ← hq, hprogram, hmachine]
  · exact evaluate_call_name limits depth scope args line b nameLine
  · intro callee f b before after hcallee hf hname
    exact evaluate_call_closure limits depth scope args line hcallee hf hname

/-- A function that takes the name of `len` and is called through a variable, an argument, the items
of a loop and a function that captured it: with one body and with another. -/
theorem builtins_not_taken_over_aliases :
    let name (s : String) : Node := .identifier s 1
    let call (f : String) (arg : Node) : Node := .call (name f) [arg] 1
    let program (taken : Node) : Program :=
      ⟨[taken, .binding "size" (name "len") 2,
        .function "apply" ["f"] (.block [.function "inner" ["x"]
          (.block [.returning (some (call "f" (name "x"))) 3] 3) 3,
          call "inner" (.literal (.string "abc") 3)] 3) 3,
        .forEach "g" (.array [name "size", name "len"] 4)
          (.block [call "print" (call "g" (.array [] 4)), call "apply" (name "g")] 4) 4]⟩
    let p := program (.function "len" ["x"] (.block [.returning (some (name "x")) 1] 1) 1)
    let q := program (.function "len" [] (.block [call "print" (name "f"),
      .function "type" ["y"] (.block [] 1) 1] 1) 1)
    let m := Machine.start [("size", .null)]
    p.hollow = q.hollow ∧
      Conclusion.hollow (p.run {} m) = Conclusion.hollow (q.run {} m) := by
  intro name call program p q m
  have h : p.hollow = q.hollow := rfl
  exact ⟨h, (builtins_not_taken_over h rfl {}).1⟩

end PageScript
