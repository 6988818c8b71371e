import Mathlib.Data.List.Forall2
import PageScript.Proofs.Evaluation.Policies
import PageScript.Proofs.Evaluation.Replay

/-!
Sessions. Programs are run one after another, and each finds what the ones before it have left,
however they ended. What holds of every statement at the top level, and of going from one statement
to the next, holds of a whole session.
-/
namespace PageScript

/-! ### Statements at the top level -/

theorem after_executeTop (limits : Limits) (statement : Node) (m : Machine) :
    (executeTop limits statement).after m =
      (execute limits limits.nesting Machine.globals statement).after m := by
  cases h : execute limits limits.nesting Machine.globals statement m with
  | ok completion m' => rw [Eval.after_of_ok h, Eval.after_of_ok (executeTop_of_ok h)]
  | error stop m' => rw [Eval.after_of_error h, Eval.after_of_error (executeTop_of_error h)]

namespace Policy

/-- What a policy becomes at the top level, where the reasons to stop are reported. -/
def atTop (p : Policy) : Policy := ⟨p.function, fun stop => p.stop stop ∧ stop ≠ .tooDeep⟩

end Policy

namespace Eval

theorem Upholds.executeTop {p : Policy} {limits : Limits} {calls : Nat} {statement : Node}
    (hdeep : p.stop .tooDeep → p.stop (.error ⟨.nestingTooDeep, statement.line⟩))
    (h : Upholds p limits.callDepth calls p.AllowsCompletion
      (execute limits limits.nesting Machine.globals statement)) :
    Upholds p.atTop limits.callDepth calls p.atTop.AllowsCompletion
      (PageScript.executeTop limits statement) := by
  intro m hm hcalls
  obtain ⟨hprecedes, hholds, hends⟩ := h m hm hcalls
  rw [after_executeTop]
  refine ⟨hprecedes, hholds, ?_⟩
  cases hrun : execute limits limits.nesting Machine.globals statement m with
  | ok completion m' =>
    rw [hrun] at hends
    rw [executeTop_of_ok hrun]
    exact hends
  | error stop m' =>
    rw [hrun] at hends
    rw [executeTop_of_error hrun]
    cases stop with
    | tooDeep => exact ⟨hdeep hends, Stop.noConfusion⟩
    | error | bodyNotBlock | unfinished => exact ⟨hends, Stop.noConfusion⟩

theorem Advances.executeTop {Stage : Type} {S : Stages Stage} {w : Stage} (limits : Limits)
    (statement : Node) (hglobals : S.scope w Machine.globals) :
    Advances S w S.completion (PageScript.executeTop limits statement) := by
  intro m hm
  obtain ⟨w', hw, hstate, hgood⟩ :=
    (evaluate_execute_advances S limits limits.nesting).2 w Machine.globals statement hglobals m hm
  rw [after_executeTop]
  refine ⟨w', hw, hstate, fun completion m' h => ?_⟩
  cases hrun : execute limits limits.nesting Machine.globals statement m with
  | ok completion' m'' =>
    rw [executeTop_of_ok hrun] at h
    cases h
    exact hgood _ _ hrun
  | error stop m'' =>
    rw [executeTop_of_error hrun] at h
    cases h

theorem Closes.executeTop {w : Extent} (limits : Limits) (statement : Node)
    (hglobals : Machine.globals < w.scopes) :
    Closes w (Completion.within · ·) (PageScript.executeTop limits statement) :=
  .of_advances fun _ hw => .executeTop limits statement (Nat.lt_of_lt_of_le hglobals hw.1)

end Eval

/-! ### Programs -/

namespace Program
variable {limits : Limits} {program : Program}

theorem run_upholds {p : Policy} {calls : Nat}
    (h : ∀ statement ∈ program.body,
      Eval.Upholds p limits.callDepth calls p.AllowsCompletion (executeTop limits statement)) :
    Eval.Upholds p limits.callDepth calls p.Allows (program.run limits) :=
  (Eval.Upholds.each (Policy.allows_of_plain rfl) h).bind fun _ hc => .pure hc

theorem run_advances {Stage : Type} {S : Stages Stage} {w : Stage} (limits : Limits)
    (program : Program) (hglobals : S.scope w Machine.globals) :
    Eval.Advances S w S.value (program.run limits) := by
  refine (Eval.Advances.each program.body (S.plain w rfl) fun statement _ w' hw => ?_).bind
    fun w' c _ hc => .pure hc
  exact .executeTop limits statement (S.scope_mono hw hglobals)

theorem run_closes (limits : Limits) (program : Program) {w : Extent}
    (hglobals : Machine.globals < w.scopes) :
    Eval.Closes w (Value.within · ·) (program.run limits) :=
  .of_advances fun _ hw => program.run_advances limits (Nat.lt_of_lt_of_le hglobals hw.1)

theorem run_precedes (limits : Limits) (program : Program) (m : Machine) :
    m.Precedes limits.callDepth ((program.run limits).after m) := by
  have hany (f : Closure) : Policy.any.atTop.function f := trivial
  refine Eval.Upholds.precedes hany (fun calls => run_upholds fun statement _ => ?_) m
  apply Eval.Upholds.executeTop fun _ => trivial
  exact (evaluate_execute_uphold_any limits limits.nesting).2 calls Machine.globals statement

end Program

/-! ### Sessions -/

namespace Session

/-- The state that the programs leave that are run one after another, however each of them ends. -/
def after (limits : Limits) : List Program → Machine → Machine
  | [], m => m
  | program :: rest, m => after limits rest ((program.run limits).after m)

/-- What each of the programs comes to. -/
def results (limits : Limits) : List Program → Machine → List (EStateM.Result Stop Machine Value)
  | [], _ => []
  | program :: rest, m => program.run limits m :: results limits rest ((program.run limits).after m)

variable {limits : Limits} {programs : List Program} {m : Machine}

/-- What all programs uphold one by one holds of the session. -/
theorem upholds {p : Policy} (hm : p.Holds m) {calls : Nat} (hcalls : m.calls = calls)
    (h : ∀ program ∈ programs,
      Eval.Upholds p limits.callDepth calls p.Allows (program.run limits)) :
    p.Holds (after limits programs m) ∧
      ∀ result ∈ results limits programs m, p.Ends p.Allows result := by
  induction programs generalizing m with
  | nil => exact ⟨hm, fun _ h => nomatch h⟩
  | cons program rest ih =>
    obtain ⟨hprecedes, hholds, hends⟩ := h program List.mem_cons_self m hm hcalls
    obtain ⟨hafter, hresults⟩ := ih hholds (hprecedes.calls.trans hcalls)
      fun program hprogram => h program (List.mem_cons_of_mem _ hprogram)
    exact ⟨hafter, List.forall_mem_cons.2 ⟨hends, hresults⟩⟩

/-- A session leads from a stage to a later one, and all its results are values of that stage. -/
theorem advances {Stage : Type} {S : Stages Stage} {w : Stage} (hm : S.state w m)
    (hglobals : S.scope w Machine.globals) (limits : Limits) (programs : List Program) :
    ∃ w', S.le w w' ∧ S.state w' (after limits programs m) ∧
      ∀ v m', .ok v m' ∈ results limits programs m → S.value w' v := by
  induction programs generalizing w m with
  | nil => exact ⟨w, S.refl w, hm, nofun⟩
  | cons program rest ih =>
    obtain ⟨w', hw, hstate, hgood⟩ := program.run_advances limits hglobals m hm
    obtain ⟨w'', hw', hafter, hresults⟩ := ih hstate (S.scope_mono hw hglobals)
    refine ⟨w'', S.trans hw hw', hafter, fun v m' hmem => ?_⟩
    rcases List.mem_cons.1 hmem with hrun | hmem
    · exact S.value_mono hw' (hgood v m' hrun.symm)
    · exact hresults v m' hmem

/-- From corresponding states a session goes on in the same way. -/
theorem corresponds {r : Renaming} (hglobals : r.scope Machine.globals = Machine.globals)
    {n : Machine} (h : m.Corresponds r n) (programs : List Program) :
    List.Forall₂ (Eval.SameResult (Value.renamed r)) (results limits programs m)
        (results limits programs n) ∧
      Machine.Advance r m n (after limits programs m) (after limits programs n) := by
  induction programs generalizing m n with
  | nil => exact ⟨.nil, .refl h⟩
  | cons program rest ih =>
    obtain ⟨hsame, hadvance⟩ := program.run_corresponds limits hglobals m n h
    obtain ⟨hresults, hrest⟩ := ih hadvance.corresponds
    exact ⟨.cons hsame hresults, hadvance.trans hrest⟩

end Session

/-! ### Between programs -/

/-- A state between two programs: all that is referred to was made, and no call goes on. -/
structure Machine.Resting (m : Machine) : Prop where
  closed : m.Closed
  globals : Machine.globals < m.scopes.all.size
  calls : m.calls = 0

theorem Machine.globals_lt_size_start (env : List (String × Value)) :
    globals < (start env).scopes.all.size := by
  apply start_induction (P := fun m => globals < m.scopes.all.size)
  · exact Nat.zero_lt_one
  · intro m hm entry _
    rw [Scopes.size_define]
    exact hm

namespace Machine.Resting
variable {m : Machine}

/-- A session begins at rest. -/
theorem start {env : List (String × Value)} (h : ∀ entry ∈ env, entry.2.within ⟨0, 0⟩) :
    (Machine.start env).Resting :=
  ⟨.start h, globals_lt_size_start env, rfl⟩

theorem after_run (h : m.Resting) (limits : Limits) (program : Program) :
    ((program.run limits).after m).Resting := by
  obtain ⟨hclosed, hle, -⟩ := program.run_closes limits h.globals m h.closed le_rfl
  refine ⟨hclosed, Nat.lt_of_lt_of_le h.globals hle.1, ?_⟩
  rw [(program.run_precedes limits m).calls, h.calls]

/-- Every program leaves the session at rest, however it ends. -/
theorem after_session (h : m.Resting) (limits : Limits) (programs : List Program) :
    (Session.after limits programs m).Resting := by
  induction programs generalizing m with
  | nil => exact h
  | cons program rest ih => exact ih (h.after_run limits program)

end Machine.Resting
end PageScript
