import PageScript.Proofs.Evaluation.Closed
import PageScript.Proofs.Evaluation.Correspondence

/-!
Replay. What is there before an evaluation is there afterwards, unchanged, so that a second run sees
what the first one saw. It does the same again: it prints the same text and ends in the same way,
and what it gives differs only in the numbers of the scopes and functions that were made.
-/
namespace PageScript

/-! ### Renaming what comes later -/

namespace Renaming

/-- A number below `start` as it is, any other one moved up. -/
def shifted (start gap id : Nat) : Nat := if id < start then id else id + gap

theorem shifted_of_lt {start gap id : Nat} (h : id < start) : shifted start gap id = id := if_pos h

theorem shifted_add (start gap k : Nat) : shifted start gap (start + k) = start + gap + k := by
  rw [shifted, if_neg (by omega)]
  omega

theorem shifted_strictMono (start gap : Nat) : StrictMono (shifted start gap) := by
  intro i j hij
  simp only [shifted]
  split <;> split <;> omega

/-- The renaming of what is made after `w` when it is made after `w'` instead. -/
def later (w w' : Extent) : Renaming where
  scope := shifted w.scopes (w'.scopes - w.scopes)
  function := shifted w.functions (w'.functions - w.functions)
  scope_strictMono := shifted_strictMono _ _
  function_injective := (shifted_strictMono _ _).injective

theorem later_fixes (w w' : Extent) : (later w w').Fixes w :=
  ⟨fun _ h => shifted_of_lt h, fun _ h => shifted_of_lt h⟩

end Renaming

/-- The state `n` still has everything that `m` has. -/
structure Machine.Extends (m n : Machine) : Prop where
  extent : m.extent ≤ n.extent
  same : ∀ id, id < m.scopes.all.size → n.scopes.all[id]? = m.scopes.all[id]?
  calls : n.calls = m.calls

namespace Machine.Extends
variable {m n o : Machine}

theorem refl (m : Machine) : m.Extends m := ⟨le_rfl, fun _ _ => rfl, rfl⟩

theorem trans (h : m.Extends n) (h' : n.Extends o) : m.Extends o := by
  refine ⟨h.extent.trans h'.extent, fun id hid => ?_, h'.calls.trans h.calls⟩
  rw [h'.same id (Nat.lt_of_lt_of_le hid h.extent.1), h.same id hid]

/-- A closed state corresponds to every state that extends it. -/
theorem corresponds (h : m.Extends n) (hm : m.Closed) :
    m.Corresponds (.later m.extent n.extent) n := by
  have hscopes : m.scopes.all.size ≤ n.scopes.all.size := h.extent.1
  have hfunctions : m.functions ≤ n.functions := h.extent.2
  have hnext (k : Nat) : (Renaming.later m.extent n.extent).scope (m.scopes.all.size + k) =
      n.scopes.all.size + k := by
    refine (Renaming.shifted_add m.scopes.all.size _ k).trans ?_
    show m.scopes.all.size + (n.scopes.all.size - m.scopes.all.size) + k = _
    omega
  refine ⟨fun id => ?_, hnext, fun k => ?_, h.calls⟩
  · by_cases hid : id < m.scopes.all.size
    · rw [(Renaming.later_fixes m.extent n.extent).scope id hid, h.same id hid,
        Array.getElem?_eq_getElem hid, Option.map_some]
      have hwithin := hm id _ (Array.getElem?_eq_getElem hid)
      rw [hwithin.renamed_eq_self (Renaming.later_fixes m.extent n.extent)]
    · obtain ⟨k, rfl⟩ := Nat.exists_eq_add_of_le (Nat.not_lt.1 hid)
      rw [hnext k, Array.getElem?_eq_none (Nat.le_add_right _ k),
        Array.getElem?_eq_none (Nat.le_add_right _ k)]
      rfl
  · refine (Renaming.shifted_add m.functions _ k).trans ?_
    show m.functions + (n.functions - m.functions) + k = _
    omega

end Machine.Extends

/-! ### Repeatable evaluations -/

/-- An evaluation that leaves what was made within `w` as it is, and does the same in corresponding
states. -/
structure Eval.Repeatable {α : Type} (rename : Renaming → α → α) (w : Extent) (x : Eval α) :
    Prop where
  grows : Eval.Grows (fun _ => False) x
  closes : Eval.Closes w (fun _ _ => True) x
  corresponds : ∀ r : Renaming, r.Fixes w → Eval.Corresponds r (rename r) x x

/-- A second run of an evaluation, after a first one from `m`, does the same again: there are new
numbers for what the first run made under which the second run has the same result, leaves the same
state and prints the same text. -/
def Eval.Replays {α : Type} (rename : Renaming → α → α) (x : Eval α) (m : Machine) : Prop :=
  ∃ r : Renaming, r.Fixes m.extent ∧
    SameResult (rename r) (x m) (x (x.after m)) ∧
    (x.after m).Corresponds r (x.after (x.after m)) ∧
    ∃ text, (x.after m).output = m.output ++ text ∧
      (x.after (x.after m)).output = (x.after m).output ++ text

theorem Eval.Closes.weaken {α : Type} {w : Extent} {good : Extent → α → Prop} {x : Eval α}
    (h : Closes w good x) : Closes w (fun _ _ => True) x := by
  intro m hm hw
  obtain ⟨hclosed, hle, -⟩ := h m hm hw
  exact ⟨hclosed, hle, fun _ _ _ => trivial⟩

namespace Eval.Repeatable
variable {α : Type} {rename : Renaming → α → α} {w : Extent} {x : Eval α} {m : Machine}

theorem closed (hx : Repeatable rename w x) (hm : m.Closed) (hw : w ≤ m.extent) :
    (x.after m).Closed := (hx.closes m hm hw).1

/-- What there was before is there afterwards. -/
theorem extends_after (hx : Repeatable rename w x) (hm : m.Closed) (hw : w ≤ m.extent) :
    m.Extends (x.after m) := by
  -- The run is compared with itself to see that it restores the number of calls.
  have hself := (Machine.Extends.refl m).corresponds hm
  have hadvance := (hx.corresponds _ ((Renaming.later_fixes _ _).mono hw) m m hself).2
  exact ⟨(hx.closes m hm hw).2.1, fun id hid => (hx.grows m).same id hid not_false, hadvance.calls⟩

/-- In a state that extends another one the evaluation does what it does there. -/
theorem runs_alike {n : Machine} (hx : Repeatable rename w x) (hm : m.Closed) (hw : w ≤ m.extent)
    (h : m.Extends n) :
    SameResult (rename (.later m.extent n.extent)) (x m) (x n) ∧
      Machine.Advance (.later m.extent n.extent) m n (x.after m) (x.after n) :=
  hx.corresponds _ ((Renaming.later_fixes _ _).mono hw) m n (h.corresponds hm)

theorem replays (hx : Repeatable rename w x) (hm : m.Closed) (hw : w ≤ m.extent) :
    Replays rename x m := by
  obtain ⟨hsame, hadvance⟩ := hx.runs_alike hm hw (hx.extends_after hm hw)
  exact ⟨_, Renaming.later_fixes _ _, hsame, hadvance.corresponds, hadvance.printed⟩

end Eval.Repeatable

theorem evaluate_repeatable (limits : Limits) (depth : Nat) {w : Extent} {scope : ScopeId}
    (hscope : scope < w.scopes) (node : Node) :
    Eval.Repeatable Value.renamed w (evaluate limits depth scope node) := by
  refine ⟨(evaluate_execute_grows limits depth).1 scope node,
    ((evaluate_execute_closes limits depth).1 w scope node hscope).weaken, fun r hr => ?_⟩
  have h := (evaluate_execute_correspond r limits depth).1 scope node
  rwa [hr.scope scope hscope] at h

theorem execute_repeatable (limits : Limits) (depth : Nat) {w : Extent} {scope : ScopeId}
    (hscope : scope < w.scopes) {node : Node} (hnode : node.confined) :
    Eval.Repeatable Completion.renamed w (execute limits depth scope node) := by
  refine ⟨execute_grows_of_confined limits depth scope node hnode,
    ((evaluate_execute_closes limits depth).2 w scope node hscope).weaken, fun r hr => ?_⟩
  have h := (evaluate_execute_correspond r limits depth).2 scope node
  rwa [hr.scope scope hscope] at h

/-- **Evaluation is replayable.** In every closed state and every scope of it, an expression or a
block that is run twice, one run after the other, does the same both times: it prints the same text,
and either it stops both times for the same reason, an error with the same message and line, or its
two outcomes are of one kind and their values equal up to new numbers, one to one, for the scopes
and functions that the runs made. A session begins in a closed state (`Machine.Closed.start`), and
no run leads out of the closed states (`evaluate_execute_closes`). -/
theorem evaluation_replays (limits : Limits) (depth : Nat) (scope : ScopeId) (m : Machine)
    (hm : m.Closed) (hscope : scope < m.scopes.all.size) :
    (∀ node, Eval.Replays Value.renamed (evaluate limits depth scope node) m) ∧
      ∀ statements line,
        Eval.Replays Completion.renamed
          (execute limits depth scope (.block statements line)) m := by
  refine ⟨fun node => ?_, fun statements line => ?_⟩
  · exact (evaluate_repeatable limits depth hscope node).replays hm le_rfl
  · exact (execute_repeatable limits depth hscope rfl).replays hm le_rfl

/-- A block that makes a function, in the first state of a session: the second run makes another
one. -/
theorem evaluation_replays_function :
    let block : Node := .block [.function "f" ["x"] (.block [] 1) 1] 1
    let run := execute {} 9 Machine.globals block
    (Machine.start []).Closed ∧ Machine.globals < (Machine.start []).scopes.all.size ∧
      (∃ f m, run (Machine.start []) = .ok (.completed (.closure f)) m ∧ f.id = 0) ∧
      (∃ f m, run (run.after (Machine.start [])) = .ok (.completed (.closure f)) m ∧ f.id = 1) ∧
      Eval.Replays Completion.renamed run (Machine.start []) :=
  ⟨.start (fun _ h => nomatch h), by decide, ⟨_, _, rfl, rfl⟩, ⟨_, _, rfl, rfl⟩,
    (evaluation_replays {} 9 Machine.globals (Machine.start []) (.start (fun _ h => nomatch h))
      (by decide)).2 _ _⟩

end PageScript
