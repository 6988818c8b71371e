import PageScript.Proofs.Evaluation.Lines
import PageScript.Proofs.Syntax.Layout

/-!
Programs in pieces. A session that is given one source and then another does what a session does
that is given both as one source, a line end between them.
-/
namespace PageScript

namespace Eval
variable {α : Type} {f : α → Eval Completion}

theorem each_append (last : Value) (front rest : List α) :
    each f last (front ++ rest) = each f last front >>= fun
      | .completed value => each f value rest
      | .returned value => pure (.returned value) := by
  induction front generalizing last with
  | nil => exact (pure_bind _ _).symm
  | cons a front ih =>
    rw [List.cons_append, each, each, bind_assoc]
    congr 1
    funext completion
    cases completion with
    | completed value => exact ih value
    | returned value => exact (pure_bind _ _).symm

/-- The value before the first item is that of no item at all. -/
theorem each_congr_last {items : List α} (h : items ≠ []) (last last' : Value) :
    each f last items = each f last' items := by
  cases items with
  | nil => exact absurd rfl h
  | cons a rest => rfl

end Eval

namespace Program

/-- Whether a run of a program ends by a `return` at the top level. -/
def Returns (limits : Limits) (program : Program) (m : Machine) : Prop :=
  ∃ value after,
    Eval.each (executeTop limits) .null program.body m = .ok (.returned value) after

/-- Statements run one after another as two programs, if the first does not return. -/
theorem run_append {limits : Limits} {p q : Program} {m : Machine} (hq : q.body ≠ [])
    (hreturn : ¬ p.Returns limits m) :
    run limits ⟨p.body ++ q.body⟩ m = (do let _ ← p.run limits; q.run limits) m := by
  simp only [run, Eval.each_append, bind_assoc]
  cases h : Eval.each (executeTop limits) .null p.body m with
  | error stop m' => rw [Eval.bind_apply_of_error h, Eval.bind_apply_of_error h]
  | ok completion m' =>
    rw [Eval.bind_apply_of_ok h, Eval.bind_apply_of_ok h]
    cases completion with
    | completed value =>
      -- The value of the first program is dropped, but the second has a statement and so its own.
      simp only [pure_bind, Eval.each_congr_last hq value .null]
    | returned value => exact absurd ⟨value, m', h⟩ hreturn

/-- **Pieces run as the whole.** Of two sources that are programs, the second with a statement, the
first one ends and the other begins at a line end between them, if what comes there goes on no
expression and is not taken for the value of a `return`. From every state, that of a new session
among them, running the one and then, if it succeeds and does not return, the other ends as running
the joined source does: with the same value or the same fault, the same output and the same scopes,
apart from lines. -/
theorem run_pieces (limits : Limits) {a b : String} {p q : Program} (ha : ofSource a = .ok p)
    (hb : ofSource b = .ok q) (hq : q.body ≠ [])
    (hfirst : ∀ t ∈ (Token.ofSource b).head?, t.kind ≠ .leftParen ∧ t.kind ≠ .minus)
    (hlast : ∀ t ∈ (Token.ofSource a).dropLast.getLast?, t.kind ≠ .returnWord) {m : Machine}
    (hreturn : ¬ p.Returns limits m) :
    ∃ whole, ofSource (a ++ "\n" ++ b) = .ok whole ∧
      Conclusion.unlined ((do let _ ← p.run limits; q.run limits) m) =
        Conclusion.unlined (whole.run limits m) := by
  obtain ⟨whole, hwhole, hsame⟩ := ofSource_append ha hb hlast hfirst
  refine ⟨whole, hwhole, ?_⟩
  rw [run_congr_unlined hsame, run_append hq hreturn]

/-- A function, a binding and a comment, and a call that fails: on the first line of the second
piece, but on the second line of the whole. -/
theorem run_pieces_failing :
    let a := "fn f(n) \x7b 1 / n \x7d let x = 0 // zero"
    let b := "f(x)"
    let p : Program := ⟨[
      .function "f" ["n"] (.block [.binary "/" (.literal (.number (.integer 1)) 1)
        (.identifier "n" 1) 1] 1) 1,
      .binding "x" (.literal (.number (.integer 0)) 1) 1]⟩
    let q : Program := ⟨[.call (.identifier "f" 1) [.identifier "x" 1] 1]⟩
    let m := Machine.start []
    ofSource a = .ok p ∧ ofSource b = .ok q ∧ ¬ p.Returns {} m ∧
      ∃ whole, ofSource (a ++ "\n" ++ b) = .ok whole ∧
        Conclusion.unlined ((do let _ ← p.run {}; q.run {}) m) =
          Conclusion.unlined (whole.run {} m) := by
  intro a b p q m
  have ha : ofSource a = .ok p := by
    revert p a
    with_unfolding_all rfl
  have hend : (Token.ofSource a).dropLast.getLast?.map Token.kind = some .number := by
    clear ha
    revert a
    with_unfolding_all rfl
  have hlast : ∀ t ∈ (Token.ofSource a).dropLast.getLast?, t.kind ≠ .returnWord := by
    intro t ht
    rw [ht] at hend
    simp [Option.some.inj hend]
  have hb : ofSource b = .ok q := by
    revert q b
    with_unfolding_all rfl
  have hbegins : (Token.ofSource b).head?.map Token.kind = some .identifier := by
    clear hb
    revert b
    with_unfolding_all rfl
  have hfirst : ∀ t ∈ (Token.ofSource b).head?, t.kind ≠ .leftParen ∧ t.kind ≠ .minus := by
    intro t ht
    rw [ht] at hbegins
    simp [Option.some.inj hbegins]
  have hreturn : ¬ p.Returns {} m := by
    rintro ⟨value, after, h⟩
    have hcompletes : ∃ value after,
        Eval.each (executeTop {}) .null p.body m = .ok (.completed value) after := by
      clear ha hb h
      revert p m
      exact ⟨_, _, rfl⟩
    obtain ⟨value', after', hcompletes⟩ := hcompletes
    rw [hcompletes] at h
    cases h
  exact ⟨ha, hb, hreturn, run_pieces {} ha hb (by simp [q]) hfirst hlast hreturn⟩

end Program
end PageScript
