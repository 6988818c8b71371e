import PageScript.Proofs.Evaluation.Simulation

/-!
Corresponding runs. Two states correspond if one is the other under new numbers of its scopes and
functions, perhaps among further ones. Runs from corresponding states correspond: they print the
same, stop for the same reason or give results that differ in those numbers only, and leave
corresponding states.

The operations of the machine correspond one by one, and so this is a simulation.
-/
namespace PageScript

/-! ### Corresponding states -/

/-- The state `n` is the state `m` under new numbers, and what is made next will correspond too. -/
structure Machine.Corresponds (r : Renaming) (m n : Machine) : Prop where
  scopes : m.scopes.Renamed r n.scopes
  nextScope : ∀ k, r.scope (m.scopes.all.size + k) = n.scopes.all.size + k
  nextFunction : ∀ k, r.function (m.functions + k) = n.functions + k
  calls : n.calls = m.calls

/-- From `m` and `n`, two runs have come to corresponding states and have printed the same. -/
structure Machine.Advance (r : Renaming) (m n m' n' : Machine) : Prop where
  corresponds : m'.Corresponds r n'
  calls : m'.calls = m.calls
  printed : ∃ text, m'.output = m.output ++ text ∧ n'.output = n.output ++ text

namespace Machine.Advance
variable {r : Renaming} {m n m' n' m'' n'' : Machine}

/-- Two steps that print nothing. -/
theorem quiet (h : m'.Corresponds r n') (hcalls : m'.calls = m.calls)
    (hm : m'.output = m.output) (hn : n'.output = n.output) : Advance r m n m' n' :=
  ⟨h, hcalls, "", by rw [hm, String.append_empty], by rw [hn, String.append_empty]⟩

theorem refl (h : m.Corresponds r n) : Advance r m n m n := quiet h rfl rfl rfl

theorem trans (h : Advance r m n m' n') (h' : Advance r m' n' m'' n'') :
    Advance r m n m'' n'' := by
  obtain ⟨text, hm, hn⟩ := h.printed
  obtain ⟨text', hm', hn'⟩ := h'.printed
  refine ⟨h'.corresponds, h'.calls.trans h.calls, text ++ text', ?_, ?_⟩
  · rw [hm', hm, String.append_assoc]
  · rw [hn', hn, String.append_assoc]

end Machine.Advance

def Completion.renamed (r : Renaming) : Completion → Completion
  | completed value => completed (value.renamed r)
  | returned value => returned (value.renamed r)

theorem Completion.mapped_functionMap (r : Renaming) : mapped r.functionMap = renamed r := by
  funext completion
  cases completion <;> simp only [mapped, renamed, Value.renamed_eq_mapped]

namespace Eval

/-- Both evaluations gave the same result up to a renaming, or stopped for the same reason. -/
inductive SameResult {α β : Type} (rename : α → β) :
    EStateM.Result Stop Machine α → EStateM.Result Stop Machine β → Prop
  | ok (a : α) (m n : Machine) : SameResult rename (.ok a m) (.ok (rename a) n)
  | error (stop : Stop) (m n : Machine) : SameResult rename (.error stop m) (.error stop n)

theorem SameResult.exists_ok {α β : Type} {rename : α → β} {x : Eval α} {y : Eval β}
    {m n m' : Machine} {a : α} (h : SameResult rename (x m) (y n)) (hx : x m = .ok a m') :
    y n = .ok (rename a) (y.after n) := by
  rw [hx] at h
  unfold after
  generalize y n = result at h
  cases h
  rfl

/-- From corresponding states, two evaluations correspond. -/
def Corresponds {α β : Type} (r : Renaming) (rename : α → β) (x : Eval α) (y : Eval β) : Prop :=
  ∀ m n, m.Corresponds r n →
    SameResult rename (x m) (y n) ∧ Machine.Advance r m n (x.after m) (y.after n)

namespace Corresponds
variable {α α' β β' : Type} {r : Renaming} {rename : α → α'} {rename' : β → β'}

theorem pure (a : α) : Corresponds r rename (Pure.pure a) (Pure.pure (rename a)) :=
  fun m n h => ⟨.ok a m n, .refl h⟩

theorem throw (stop : Stop) :
    Corresponds r rename (MonadExcept.throw stop) (MonadExcept.throw stop) :=
  fun m n h => ⟨.error stop m n, .refl h⟩

theorem bind_of_ok {x : Eval α} {y : Eval α'} {next : α → Eval β} {next' : α' → Eval β'}
    (hx : Corresponds r rename x y)
    (hnext : ∀ a m m', x m = .ok a m' → Corresponds r rename' (next a) (next' (rename a))) :
    Corresponds r rename' (x >>= next) (y >>= next') := by
  intro m n h
  obtain ⟨hsame, hadvance⟩ := hx m n h
  simp only [after, Bind.bind, EStateM.bind] at hadvance ⊢
  generalize hm : x m = result at hsame hadvance
  generalize y n = result' at hsame hadvance
  cases hsame with
  | ok a m' n' =>
    obtain ⟨hsame, hadvance'⟩ := hnext a m m' hm m' n' hadvance.corresponds
    exact ⟨hsame, hadvance.trans hadvance'⟩
  | error stop m' n' => exact ⟨.error stop m' n', hadvance⟩

theorem print (text : String) : Corresponds r id (Eval.print text) (Eval.print text) :=
  fun _ _ h =>
    ⟨.ok () _ _, ⟨h.scopes, h.nextScope, h.nextFunction, h.calls⟩, rfl, text, rfl, rfl⟩

theorem lookup (scope : ScopeId) (name : String) (line : Int) :
    Corresponds r (Value.renamed r) (Eval.lookup scope name line)
      (Eval.lookup (r.scope scope) name line) := by
  intro m n h
  have hlookup := h.scopes.lookup? scope name
  simp only [Eval.lookup, Eval.get_bind_apply, after, hlookup]
  cases m.scopes.lookup? scope name with
  | none => exact ⟨.error _ m n, .refl h⟩
  | some value => exact ⟨.ok value m n, .refl h⟩

theorem define (scope : ScopeId) (name : String) (value : Value) :
    Corresponds r id (Eval.define scope name value)
      (Eval.define (r.scope scope) name (value.renamed r)) := by
  intro m n h
  refine ⟨.ok () _ _, .quiet ⟨h.scopes.define scope name value, fun k => ?_, h.nextFunction,
    h.calls⟩ rfl rfl rfl⟩
  show r.scope ((m.scopes.define scope name value).all.size + k) =
    (n.scopes.define (r.scope scope) name (value.renamed r)).all.size + k
  rw [Scopes.size_define, Scopes.size_define]
  exact h.nextScope k

theorem newScope (parent : ScopeId) :
    Corresponds r r.scope (Eval.newScope parent) (Eval.newScope (r.scope parent)) := by
  intro m n h
  have hnext : r.scope m.scopes.all.size = n.scopes.all.size := h.nextScope 0
  refine ⟨?_, .quiet ⟨h.scopes.child hnext parent, fun k => ?_, h.nextFunction, h.calls⟩ rfl rfl
    rfl⟩
  · have hnew : SameResult r.scope (Eval.newScope parent m)
        (.ok (r.scope m.scopes.all.size)
          { n with scopes := (n.scopes.child (r.scope parent)).2 }) :=
      .ok m.scopes.all.size _ _
    rwa [hnext] at hnew
  · show r.scope ((m.scopes.child parent).2.all.size + k) =
      (n.scopes.child (r.scope parent)).2.all.size + k
    rw [Scopes.size_child, Scopes.size_child, Nat.add_assoc, Nat.add_assoc]
    exact h.nextScope (1 + k)

theorem newClosure (name : String) (params : List String) (body : Node) (scope : ScopeId) :
    Corresponds r (Closure.renamed r) (Eval.newClosure name params body scope)
      (Eval.newClosure name params body (r.scope scope)) := by
  intro m n h
  have hnext : r.function m.functions = n.functions := h.nextFunction 0
  refine ⟨?_, .quiet ⟨h.scopes, h.nextScope, fun k => ?_, h.calls⟩ rfl rfl rfl⟩
  · have hnew : SameResult (Closure.renamed r) (Eval.newClosure name params body scope m)
        (.ok (Closure.mk (r.function m.functions) name params body (r.scope scope))
          { n with functions := n.functions + 1 }) :=
      .ok (Closure.mk m.functions name params body scope) _ _
    rwa [hnext] at hnew
  · show r.function (m.functions + 1 + k) = n.functions + 1 + k
    rw [Nat.add_assoc, Nat.add_assoc]
    exact h.nextFunction (1 + k)

/-- Counting a call touches nothing that corresponds, and the count is restored in the end. -/
theorem counted {x : Eval α} {y : Eval α'} (hx : Corresponds r rename x y) :
    Corresponds r rename (Eval.counted x) (Eval.counted y) := by
  intro m n h
  have hcalls : n.inCall.calls = m.inCall.calls := by rw [Machine.inCall, h.calls, Machine.inCall]
  obtain ⟨hsame, ⟨hscopes, hscope, hfunction, -⟩, -, hprinted⟩ :=
    hx m.inCall n.inCall ⟨h.scopes, h.nextScope, h.nextFunction, hcalls⟩
  rw [after_counted, after_counted]
  refine ⟨?_, ⟨hscopes, hscope, hfunction, h.calls⟩, rfl, hprinted⟩
  rw [counted_apply, counted_apply]
  generalize x m.inCall = result at hsame
  generalize y n.inCall = result' at hsame
  cases hsame with
  | ok a m' n' => exact .ok a _ _
  | error stop m' n' => exact .error stop _ _

/-- Both runs see the same number of calls, so both are at the limit or neither is. -/
theorem limited {x free : Eval α} {y free' : Eval α'} (limit : Int)
    (hx : Corresponds r rename x y) (hfree : Corresponds r rename free free') :
    Corresponds r rename (Eval.limited limit x free) (Eval.limited limit y free') := by
  intro m n h
  simp only [after, Eval.limited, h.calls]
  split
  · exact hx m n h
  · exact hfree m n h

theorem reported {x : Eval α} {y : Eval α'} (line : Int) (hx : Corresponds r rename x y) :
    Corresponds r rename (Eval.reported line x) (Eval.reported line y) := by
  intro m n h
  obtain ⟨hsame, hadvance⟩ := hx m n h
  simp only [after, Eval.reported] at hadvance ⊢
  generalize x m = result at hsame hadvance
  generalize y n = result' at hsame hadvance
  cases hsame with
  | ok a m' n' => exact ⟨.ok a m' n', hadvance⟩
  | error stop m' n' => exact ⟨.error _ m' n', hadvance⟩

end Corresponds
end Eval

/-- A renaming as a simulation, which rewrites nothing. -/
def Renaming.simulation (r : Renaming) : Simulation where
  rewriting := .lines id
  functions := r.functionMap
  scope := r.scope
  Follows := Eval.Corresponds r
  params_eq _ := rfl
  body_eq f := (Node.rewritten_lines_id f.body).symm
  scope_eq _ := rfl
  pure := .pure
  throw stop := by
    rw [Stop.rewritten_lines_id]
    exact .throw stop
  bind_of_ok := .bind_of_ok
  print := .print
  lookup inner name line := by
    rw [Value.mapped_functionMap]
    exact .lookup inner name line
  define inner name value := by
    rw [Value.mapped_functionMap]
    exact .define inner name value
  newScope := .newScope
  newClosure name params body inner := by
    rw [Node.rewritten_lines_id]
    exact .newClosure name params body inner
  limited := .limited
  counted := .counted
  reported := .reported

theorem Renaming.sound (r : Renaming) : r.simulation.Sound := .of_lines rfl

/-- **Corresponding runs.** From corresponding states, expressions and statements do the same up to
the renaming, at every depth. -/
theorem evaluate_execute_correspond (r : Renaming) (limits : Limits) (depth : Nat) :
    (∀ scope node, Eval.Corresponds r (Value.renamed r) (evaluate limits depth scope node)
      (evaluate limits depth (r.scope scope) node)) ∧
    ∀ scope node, Eval.Corresponds r (Completion.renamed r) (execute limits depth scope node)
      (execute limits depth (r.scope scope) node) := by
  rw [← Value.mapped_functionMap, ← Completion.mapped_functionMap]
  obtain ⟨heval, hexec⟩ := r.sound.evaluate_execute limits depth
  refine ⟨fun scope node => ?_, fun scope node => ?_⟩
  · have hnode := heval scope node
    rwa [Renaming.simulation, Node.rewritten_lines_id] at hnode
  · have hnode := hexec scope node
    rwa [Renaming.simulation, Node.rewritten_lines_id] at hnode

/-- From corresponding states, a program does the same up to the renaming. -/
theorem Program.run_corresponds (limits : Limits) (program : Program) {r : Renaming}
    (hglobals : r.scope Machine.globals = Machine.globals) :
    Eval.Corresponds r (Value.renamed r) (program.run limits) (program.run limits) := by
  have hrun := r.sound.run hglobals limits program
  rw [Renaming.simulation, Program.rewritten_lines_id] at hrun
  rw [← Value.mapped_functionMap]
  exact hrun

end PageScript
