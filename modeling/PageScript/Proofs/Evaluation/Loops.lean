import PageScript.Proofs.Evaluation.Replay

/-!
Loops that repeat. Nothing that a condition or a body does is seen by the next round, since names
are only bound in scopes that the round makes. So a `while` loop goes on as it began: either its
condition fails at once, or the first round decides how the loop ends, or every round is like the
first and there is no end.
-/
namespace PageScript

/-! ### One round after another -/

/-- The state in which a round begins, after as many rounds that ask for a condition and then run a
body. -/
def Eval.roundStart (condition : Eval Value) (body : Eval Completion) (m : Machine) : Nat → Machine
  | 0 => m
  | n + 1 => body.after (condition.after (roundStart condition body m n))

/-- A round that begins in `m`: the condition holds and prints `asked`, the body completes and
prints `printed`. -/
structure Eval.Round (condition : Eval Value) (body : Eval Completion) (asked printed : String)
    (m : Machine) : Prop where
  holds : ∃ c, condition m = .ok c (condition.after m) ∧ c.truthy
  asks : (condition.after m).output = m.output ++ asked
  completes : ∃ v, body (condition.after m) =
    .ok (.completed v) (body.after (condition.after m))
  prints : (body.after (condition.after m)).output = (condition.after m).output ++ printed

namespace Eval.Round
variable {condition : Eval Value} {body : Eval Completion} {asked printed : String} {w : Extent}
  {m n : Machine}

/-- A round is repeated in every state that extends the one in which it began. -/
theorem repeated (h : Round condition body asked printed m)
    (hcondition : Repeatable Value.renamed w condition)
    (hbody : Repeatable Completion.renamed w body) (hm : m.Closed) (hw : w ≤ m.extent)
    (hmn : m.Extends n) : Round condition body asked printed n := by
  obtain ⟨⟨c, hc, htruthy⟩, hasks, ⟨v, hv⟩, hprints⟩ := h
  have hfixes : (Renaming.later m.extent n.extent).Fixes w := (Renaming.later_fixes _ _).mono hw
  obtain ⟨hasked, hadvance⟩ := hcondition.runs_alike hm hw hmn
  obtain ⟨hdone, hadvance'⟩ := hbody.corresponds _ hfixes _ _ hadvance.corresponds
  obtain ⟨text, hm₁, hn₁⟩ := hadvance.printed
  obtain ⟨text', hm₂, hn₂⟩ := hadvance'.printed
  -- The texts are those that the first round printed.
  obtain rfl : text = asked := (String.append_right_inj _).1 (hm₁.symm.trans hasks)
  obtain rfl : text' = printed := (String.append_right_inj _).1 (hm₂.symm.trans hprints)
  refine ⟨⟨c.renamed _, hasked.exists_ok hc, ?_⟩, hn₁, ⟨v.renamed _, hdone.exists_ok hv⟩, hn₂⟩
  rw [Value.truthy_renamed]
  exact htruthy

/-- A round leads to a state that extends the one in which it began. -/
theorem extends_after (hcondition : Repeatable Value.renamed w condition)
    (hbody : Repeatable Completion.renamed w body) (hm : m.Closed) (hw : w ≤ m.extent) :
    (body.after (condition.after m)).Closed ∧ m.Extends (body.after (condition.after m)) := by
  have hclosed := hcondition.closed hm hw
  have hfirst := hcondition.extends_after hm hw
  have hw' : w ≤ (condition.after m).extent := hw.trans hfirst.extent
  exact ⟨hbody.closed hclosed hw', hfirst.trans (hbody.extends_after hclosed hw')⟩

/-- Every round is like the first. -/
theorem all (h : Round condition body asked printed m)
    (hcondition : Repeatable Value.renamed w condition)
    (hbody : Repeatable Completion.renamed w body) (hm : m.Closed) (hw : w ≤ m.extent) (n : Nat) :
    Round condition body asked printed (roundStart condition body m n) := by
  have hstart (n : Nat) : (roundStart condition body m n).Closed ∧
      m.Extends (roundStart condition body m n) := by
    induction n with
    | zero => exact ⟨hm, .refl m⟩
    | succ n ih =>
      obtain ⟨hclosed, hextends⟩ := ih
      obtain ⟨hclosed', hextends'⟩ :=
        extends_after hcondition hbody hclosed (hw.trans hextends.extent)
      exact ⟨hclosed', hextends.trans hextends'⟩
  exact h.repeated hcondition hbody hm hw (hstart n).2

/-- A first round that completes is like all that follow it. -/
theorem exists_all (hcondition : Repeatable Value.renamed w condition)
    (hbody : Repeatable Completion.renamed w body) (hm : m.Closed) (hw : w ≤ m.extent)
    {c v : Value} {mid m' : Machine} (hc : condition m = .ok c mid) (htruthy : c.truthy)
    (hv : body mid = .ok (.completed v) m') :
    ∃ asked printed, ∀ n, Round condition body asked printed (roundStart condition body m n) := by
  have hmid : condition.after m = mid := after_of_ok hc
  subst hmid
  have hafter : body.after (condition.after m) = m' := by rw [after, hv]
  subst hafter
  have hclosed := hcondition.closed hm hw
  have hw' := hw.trans (hcondition.extends_after hm hw).extent
  -- What each part prints is read off its run beside itself.
  obtain ⟨asked, hasks, -⟩ := (hcondition.runs_alike hm hw (.refl m)).2.printed
  obtain ⟨printed, hprints, -⟩ := (hbody.runs_alike hclosed hw' (.refl _)).2.printed
  have hfirst : Round condition body asked printed m :=
    ⟨⟨c, hc, htruthy⟩, hasks, ⟨v, hv⟩, hprints⟩
  exact ⟨asked, printed, hfirst.all hcondition hbody hm hw⟩

theorem repeatWhile_succ (h : Round condition body asked printed m) (last : Value) (rounds : Nat) :
    ∃ v, repeatWhile condition body last (rounds + 1) m =
      repeatWhile condition body v rounds (body.after (condition.after m)) := by
  obtain ⟨⟨c, hc, htruthy⟩, -, ⟨v, hv⟩, -⟩ := h
  refine ⟨v, ?_⟩
  simp only [repeatWhile, Bind.bind, EStateM.bind, hc, htruthy, if_true, hv]

end Eval.Round

/-- A loop of which every round goes on is given up after as many rounds as are waited for. -/
theorem Eval.repeatWhile_unfinished {condition : Eval Value} {body : Eval Completion}
    {asked printed : String} {m : Machine}
    (h : ∀ n, Round condition body asked printed (roundStart condition body m n))
    (last : Value) (rounds : Nat) :
    repeatWhile condition body last rounds m =
      .error .unfinished (roundStart condition body m rounds) := by
  -- The same holds from any later round on, whatever value the loop has by then.
  have hfrom (rounds : Nat) : ∀ n last, repeatWhile condition body last rounds
      (roundStart condition body m n) =
        .error .unfinished (roundStart condition body m (n + rounds)) := by
    induction rounds with
    | zero => exact fun _ _ => rfl
    | succ rounds ih =>
      intro n last
      obtain ⟨v, hv⟩ := (h n).repeatWhile_succ last rounds
      rw [hv, Nat.add_comm rounds 1, ← Nat.add_assoc]
      exact ih (n + 1) v
  have hzero := hfrom rounds 0 last
  rwa [Nat.zero_add] at hzero

/-- A loop completes when its condition fails at once, or else after a first round. -/
theorem Eval.repeatWhile_completed {condition : Eval Value} {body : Eval Completion}
    {last v : Value} {rounds : Nat} {m m' : Machine}
    (h : repeatWhile condition body last rounds m = .ok (.completed v) m') :
    (v = last ∧ ∃ c, condition m = .ok c m' ∧ c.truthy = false) ∨
      ∃ c mid v' m'', condition m = .ok c mid ∧ c.truthy ∧ body mid = .ok (.completed v') m'' := by
  cases rounds with
  | zero => cases h
  | succ rounds =>
    obtain ⟨c, mid, hc, h⟩ := exists_of_bind_ok h
    cases htruthy : c.truthy with
    | false =>
      rw [htruthy] at h
      cases h
      exact .inl ⟨rfl, c, hc, htruthy⟩
    | true =>
      rw [htruthy] at h
      obtain ⟨completion, m'', hbody, h⟩ := exists_of_bind_ok h
      cases completion with
      | returned value => cases h
      | completed v' => exact .inr ⟨c, mid, v', m'', hc, htruthy, hbody⟩

/-- **A loop that completes has not run its body.** In every closed state and every scope of it, for
a `while` loop whose body is a block: if the loop completes, its condition failed when it was first
asked for, nothing was run after that, and the value is null. If the condition holds at first and
the first run of the body completes, there is an `n`-th round for every `n`, which prints what the
first one printed, and the loop is still not finished after any number of rounds. -/
theorem whileLoop_completes_or_repeats (limits : Limits) (depth : Nat) (scope : ScopeId)
    (condition : Node) (statements : List Node) (blockLine line : Int) (m : Machine)
    (hm : m.Closed) (hscope : scope < m.scopes.all.size) :
    let ask := evaluate limits depth scope condition
    let body := execute limits depth scope (.block statements blockLine)
    let loop := execute limits (depth + 1) scope
      (.whileLoop condition (.block statements blockLine) line)
    (∀ v m', loop m = .ok (.completed v) m' →
      v = .null ∧ ∃ c, ask m = .ok c m' ∧ c.truthy = false) ∧
    ∀ c mid v m', ask m = .ok c mid → c.truthy → body mid = .ok (.completed v) m' →
      ∃ asked printed,
        (∀ n, Eval.Round ask body asked printed (Eval.roundStart ask body m n)) ∧
        (∀ rounds last, Eval.repeatWhile ask body last rounds m =
          .error .unfinished (Eval.roundStart ask body m rounds)) ∧
        loop m = .error .unfinished (Eval.roundStart ask body m limits.rounds) := by
  intro ask body loop
  have hask : Eval.Repeatable Value.renamed m.extent ask :=
    evaluate_repeatable limits depth hscope condition
  have hbody : Eval.Repeatable Completion.renamed m.extent body :=
    execute_repeatable limits depth hscope rfl
  refine ⟨fun v m' hdone => ?_, fun c mid v m' hc htruthy hv => ?_⟩
  · obtain hfails | ⟨c, mid, v', m'', hc, htruthy, hv⟩ := Eval.repeatWhile_completed hdone
    · exact hfails
    · -- A round that completes is followed by another one, without end.
      obtain ⟨asked, printed, hall⟩ := Eval.Round.exists_all hask hbody hm le_rfl hc htruthy hv
      have hend : loop m = .error .unfinished (Eval.roundStart ask body m limits.rounds) :=
        Eval.repeatWhile_unfinished hall .null limits.rounds
      rw [hdone] at hend
      cases hend
  · obtain ⟨asked, printed, hall⟩ := Eval.Round.exists_all hask hbody hm le_rfl hc htruthy hv
    exact ⟨asked, printed, hall, fun rounds last => Eval.repeatWhile_unfinished hall last rounds,
      Eval.repeatWhile_unfinished hall .null limits.rounds⟩

/-- A loop that asks for `true` and prints a line has a tenth round like its first. -/
theorem whileLoop_completes_or_repeats_printing :
    let printing : Node := .call (.identifier "print" 1) [.literal (.string "x") 1] 1
    let ask := evaluate {} 9 Machine.globals (.literal (.bool true) 1)
    let body := execute {} 9 Machine.globals (.block [printing] 1)
    let m := Machine.start []
    m.Closed ∧ Machine.globals < m.scopes.all.size ∧
      (∃ c mid, ask m = .ok c mid ∧ c.truthy ∧ ∃ v m', body mid = .ok (.completed v) m') ∧
      ∃ asked printed, Eval.Round ask body asked printed (Eval.roundStart ask body m 9) := by
  intro printing ask body m
  have hm : m.Closed := .start fun _ h => nomatch h
  have hscope : Machine.globals < m.scopes.all.size := by decide
  obtain ⟨asked, printed, hall, -⟩ :=
    (whileLoop_completes_or_repeats {} 9 Machine.globals (.literal (.bool true) 1) [printing] 1 1 m
      hm hscope).2 (.bool true) m .null (body.after m) rfl rfl rfl
  exact ⟨hm, hscope, ⟨_, _, rfl, rfl, _, _, rfl⟩, asked, printed, hall 9⟩

end PageScript
