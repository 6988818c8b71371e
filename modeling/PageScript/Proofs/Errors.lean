import PageScript.Proofs.Number.Decimal
import PageScript.RuntimeError

/-!
Which errors are raised. An error is raised with a text that holds its line, and the text of an error
of the call depth holds the limit as well. If one of these is too long to be written, then the error
cannot be made, and the failure to write the number is raised in its place.
-/
namespace PageScript

/-- Whether an error is raised, in whatever source, with all that is told of it there, unless
something holds; then it never is, and a failure of the host comes in its place. -/
structure RaisedUnless (p : Prop) (raised? : String → Option Report) (report : String → Report) :
    Prop where
  raised (h : ¬ p) (source : String) : raised? source = some (report source)
  replaced (h : p) (source : String) : raised? source = none

theorem RaisedUnless.congr {p q : Prop} {raised? : String → Option Report}
    {report : String → Report} (h : RaisedUnless p raised? report) (hiff : p ↔ q) :
    RaisedUnless q raised? report :=
  propext hiff ▸ h

theorem Report.raised?_of_not_isLong {r : Report} (h : ¬ Number.IsLong r.line) :
    r.raised? = some r :=
  if_pos (Number.fitsText_iff.2 h)

theorem Report.raised?_of_isLong {r : Report} (h : Number.IsLong r.line) : r.raised? = none := by
  rw [raised?, Number.fitsText_eq_false_iff.2 h]
  rfl

/-- A syntax error is raised unless its line is too long. -/
theorem SyntaxError.raisedUnless (e : SyntaxError) :
    RaisedUnless (Number.IsLong e.line) e.raised? e.report where
  raised h _ := Report.raised?_of_not_isLong h
  replaced h _ := Report.raised?_of_isLong h

theorem RuntimeFault.fitsText_eq_false_iff {fault : RuntimeFault} :
    fault.fitsText = false ↔
      ∃ limit name, fault = .callDepth limit name ∧ Number.IsLong limit := by
  cases fault <;> simp [fitsText, Number.fitsText_eq_false_iff]

/-- A runtime error is raised unless its line is too long, or the limit in its message. -/
theorem RuntimeError.raisedUnless (e : RuntimeError) :
    RaisedUnless (Number.IsLong e.line ∨
      ∃ limit name, e.fault = .callDepth limit name ∧ Number.IsLong limit) e.raised? e.report := by
  rw [← RuntimeFault.fitsText_eq_false_iff]
  constructor
  · intro h source
    obtain ⟨hline, hfault⟩ := not_or.1 h
    rw [raised?, if_pos (Bool.not_eq_false _ ▸ hfault)]
    exact Report.raised?_of_not_isLong hline
  · intro h source
    rw [raised?]
    split
    · next hfault => exact Report.raised?_of_isLong (h.resolve_right (by simp [hfault]))
    · rfl

end PageScript
