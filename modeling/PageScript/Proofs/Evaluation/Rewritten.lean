import PageScript.Proofs.Evaluation.Simulation

/-!
Rewritten states. A rewriting goes through all functions in the values of a state. What a rewritten
program does from a rewritten state is what the program itself does, rewritten.
-/
namespace PageScript

/-! ### Values and states -/

def Closure.rewritten (w : Rewriting) (f : Closure) : Closure :=
  { f with params := w.params f.name f.params, body := w.body f.name (f.body.rewritten w) }

/-- What stands in a function shows in no operation on values. -/
def Rewriting.functionMap (w : Rewriting) : FunctionMap where
  toFun := Closure.rewritten w
  name _ := rfl
  id _ _ := Iff.rfl

/-- The value with all functions in it rewritten. -/
abbrev Value.rewritten (w : Rewriting) : Value → Value := Value.mapped w.functionMap

/-- The state with all functions in its values rewritten. -/
def Machine.rewritten (w : Rewriting) : Machine → Machine := Machine.mapped w.functionMap.states

def Conclusion.rewritten {α β : Type} (w : Rewriting) (rewrite : α → β) :
    Conclusion α → Conclusion β :=
  Conclusion.mapped w.functionMap.states (Stop.rewritten w) rewrite

/-! ### Evaluations from changed states -/

/-- From a changed state, the second evaluation concludes as the first one does from the state
itself, up to the change. -/
def Eval.MapsAt {α β : Type} (σ : StateMap) (stop : Stop → Stop) (g : α → β) (x : Eval α)
    (y : Eval β) (m : Machine) : Prop :=
  y (m.mapped σ) = Conclusion.mapped σ stop g (x m)

namespace Eval.MapsAt
variable {α α' β β' : Type} {σ : StateMap} {stop : Stop → Stop} {g : α → α'} {h : β → β'}
  {m : Machine}

theorem bind {x : Eval α} {y : Eval α'} {next : α → Eval β} {next' : α' → Eval β'}
    (hx : MapsAt σ stop g x y m)
    (hnext : ∀ a m', x m = .ok a m' → MapsAt σ stop h (next a) (next' (g a)) m') :
    MapsAt σ stop h (x >>= next) (y >>= next') m := by
  unfold MapsAt at hx ⊢
  cases hr : x m with
  | ok a m' =>
    rw [hr] at hx
    rw [bind_apply_of_ok hx, bind_apply_of_ok hr]
    exact hnext a m' hr
  | error reason m' =>
    rw [hr] at hx
    rw [bind_apply_of_error hx, bind_apply_of_error hr]
    rfl

theorem lookup (scope : ScopeId) (name : String) {line line' : Int}
    (hstop : stop (.error ⟨.undefined name, line⟩) = .error ⟨.undefined (σ.name name), line'⟩) :
    MapsAt σ stop (Value.mapped σ.functions) (Eval.lookup scope name line)
      (Eval.lookup scope (σ.name name) line') m := by
  have hlookup := m.scopes.lookup?_mapped σ scope name
  simp only [MapsAt, Eval.lookup, Eval.get_bind_apply, Machine.mapped, hlookup]
  cases m.scopes.lookup? scope name with
  | none => exact congrArg (EStateM.Result.error · (m.mapped σ)) hstop.symm
  | some value => rfl

theorem define (scope : ScopeId) (name : String) (value : Value) :
    MapsAt σ stop id (Eval.define scope name value)
      (Eval.define scope (σ.name name) (value.mapped σ.functions)) m := by
  have hdefine := m.scopes.define_mapped σ scope name value
  exact congrArg (fun scopes => EStateM.Result.ok () { m with scopes }) hdefine.symm

theorem newScope (parent : ScopeId) :
    MapsAt σ stop id (Eval.newScope parent) (Eval.newScope parent) m := by
  have hchild := m.scopes.child_mapped σ parent
  exact congrArg (fun child => EStateM.Result.ok child.1 { m with scopes := child.2 }) hchild

/-- The call itself is counted in the same way on both sides. -/
theorem counted {x : Eval α} {y : Eval α'} (hx : MapsAt σ stop g x y m.inCall) :
    MapsAt σ stop g (Eval.counted x) (Eval.counted y) m := by
  have hcall : (m.mapped σ).inCall = m.inCall.mapped σ := rfl
  rw [MapsAt, counted_apply, counted_apply, hcall, hx]
  cases x m.inCall <;> rfl

theorem limited {x free : Eval α} {y free' : Eval α'} (limit : Int)
    (hx : MapsAt σ stop g x y m) (hfree : MapsAt σ stop g free free' m) :
    MapsAt σ stop g (Eval.limited limit x free) (Eval.limited limit y free') m := by
  have hsame : (m.mapped σ).calls = m.calls := rfl
  unfold MapsAt Eval.limited
  rw [hsame]
  split
  · exact hx
  · exact hfree

theorem reported {x : Eval α} {y : Eval α'} {line line' : Int}
    (hstop : ∀ reason, (stop reason).atTop line' = stop (reason.atTop line))
    (hx : MapsAt σ stop g x y m) :
    MapsAt σ stop g (Eval.reported line x) (Eval.reported line' y) m := by
  rw [MapsAt, Eval.reported, Eval.reported, hx]
  cases x m with
  | ok a m' => rfl
  | error reason m' => exact congrArg (EStateM.Result.error · (m'.mapped σ)) (hstop reason)

end Eval.MapsAt

/-! ### Rewritten evaluations -/

/-- From every state rewritten, the second evaluation concludes as the first one does from the
state itself, rewritten. -/
def Eval.Rewrites {α β : Type} (w : Rewriting) (rewrite : α → β) (x : Eval α) (y : Eval β) : Prop :=
  ∀ m, MapsAt w.functionMap.states (Stop.rewritten w) rewrite x y m

theorem Stop.atTop_rewritten (w : Rewriting) (line : Int) (stop : Stop) :
    (stop.rewritten w).atTop (w.line line) = (stop.atTop line).rewritten w := by
  cases stop <;> rfl

/-- A rewriting as a simulation. -/
def Rewriting.simulation (w : Rewriting) : Simulation where
  rewriting := w
  functions := w.functionMap
  scope := id
  Follows := Eval.Rewrites w
  params_eq _ := rfl
  body_eq _ := rfl
  scope_eq _ := rfl
  pure _ _ := rfl
  throw _ _ := rfl
  bind_of_ok hx hnext m := (hx m).bind fun a m' h => hnext a m m' h m'
  print _ _ := rfl
  lookup scope name _ _ := .lookup scope name rfl
  define scope name value _ := .define scope name value
  newScope parent _ := .newScope parent
  newClosure _ _ _ _ _ := rfl
  limited limit hx hfree m := (hx m).limited limit (hfree m)
  counted hx m := (hx m.inCall).counted
  reported line hx m := (hx m).reported (Stop.atTop_rewritten w line)

/-- **Rewritten programs run alike.** What a program with a sound rewriting does from a rewritten
state is what the program itself does, rewritten. -/
theorem Program.run_rewritten {w : Rewriting} (hw : w.simulation.Sound) (limits : Limits)
    (program : Program) (m : Machine) :
    (program.rewritten w).run limits (m.rewritten w) =
      Conclusion.rewritten w (Value.rewritten w) (program.run limits m) :=
  hw.run rfl limits program m

/-- **Programs that are rewritten alike run alike.** From the same state, they end in the same way
up to the rewriting: with the same output, and the same value or the same reason to stop. -/
theorem Program.run_congr_rewritten {w : Rewriting} (hw : w.simulation.Sound) {p q : Program}
    (h : p.rewritten w = q.rewritten w) (limits : Limits) (m : Machine) :
    Conclusion.rewritten w (Value.rewritten w) (p.run limits m) =
      Conclusion.rewritten w (Value.rewritten w) (q.run limits m) := by
  rw [← p.run_rewritten hw, h, q.run_rewritten hw]

end PageScript
