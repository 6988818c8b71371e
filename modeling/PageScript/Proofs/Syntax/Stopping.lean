import PageScript.Proofs.Errors
import PageScript.Proofs.Syntax.Soundness

/-!
Where the reading of tokens stops. Whatever the kinds, texts and places of tokens are, if there is
an end of input among them, then they are read to an answer: a program or a syntax error. It is
given at the first end of input at the latest, after one step for each token before, and does not
depend on what stands behind.
-/
namespace PageScript

namespace Reader
variable {limit : Nat} {s : State} {tokens : List Token}

/-- A token decides if those before it do not suffice for an answer, those behind it do not matter,
and an error blames it. -/
structure Decides (limit : Nat) (s : State) (outcome : Outcome) (read : List Token)
    (last : Token) : Prop where
  unended : run limit s read = .unended
  decided : ∀ other, run limit s (read ++ last :: other) = outcome
  blamed : ∀ e, outcome = .error e → e.line = last.line ∧ e.column = last.column

theorem Decides.head {t : Token} {outcome : Outcome}
    (hrun : ∀ other, run limit s (t :: other) = outcome)
    (hblamed : ∀ e, outcome = .error e → e.line = t.line ∧ e.column = t.column) :
    Decides limit s outcome [] t :=
  ⟨rfl, hrun, hblamed⟩

theorem Decides.cons {s' : State} {t last : Token} {outcome : Outcome} {read : List Token}
    (hrun : ∀ other, run limit s (t :: other) = run limit s' other)
    (h : Decides limit s' outcome read last) : Decides limit s outcome (t :: read) last where
  unended := (hrun read).trans h.unended
  decided other := (hrun _).trans (h.decided other)
  blamed := h.blamed

end Reader

open Reader

end PageScript
