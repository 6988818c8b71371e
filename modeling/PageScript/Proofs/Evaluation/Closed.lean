import PageScript.Proofs.Evaluation.Stages
import PageScript.Proofs.Fields

/-!
Closed states. In every state of a session, all scopes and functions that anything refers to have
been made: those bound at the start are no functions of a program, and no evaluation gets hold of
one that was not made. Whatever is made later is therefore nothing to what is there already.
-/
namespace PageScript

/-! ### Closed stores -/

/-- How many scopes and functions a state has. -/
def Machine.extent (m : Machine) : Extent := ⟨m.scopes.all.size, m.functions⟩

theorem Machine.extent_define (m : Machine) (scope : ScopeId) (name : String) (value : Value) :
    Machine.extent { m with scopes := m.scopes.define scope name value } = m.extent := by
  rw [extent, Scopes.size_define, extent]

/-- A scope that refers to nothing beyond `w`. -/
structure Scope.Within (w : Extent) (scope : Scope) : Prop where
  parent : ∀ parent ∈ scope.parent, parent < w.scopes
  bindings : Value.entriesWithin w scope.bindings

/-- A state whose scopes refer to nothing that has not been made. -/
def Machine.Closed (m : Machine) : Prop :=
  ∀ (id : ScopeId) (scope : Scope), m.scopes.all[id]? = some scope → scope.Within m.extent

namespace Scope.Within
variable {w w' : Extent} {scope : Scope}

theorem mono (h : scope.Within w) (hw : w ≤ w') : scope.Within w' :=
  ⟨fun parent hparent => Nat.lt_of_lt_of_le (h.parent parent hparent) hw.1,
    Value.entriesWithin_mono hw _ h.bindings⟩

/-- A scope within `w` is its own renaming if nothing within `w` is renamed. -/
theorem renamed_eq_self {r : Renaming} (h : scope.Within w) (hr : r.Fixes w) :
    scope.renamed r = scope := by
  obtain ⟨parent, bindings⟩ := scope
  rw [Scope.renamed, Value.renamedEntries_eq_self hr _ h.bindings]
  cases parent with
  | none => rfl
  | some parent =>
    rw [Option.map_some, hr.scope parent (h.parent parent rfl)]

end Scope.Within

namespace Fields

theorem get?_within {w : Extent} {fields : Fields Value} {name : String} {value : Value}
    (h : Value.entriesWithin w fields) (hget : fields.get? name = some value) : value.within w := by
  induction fields with
  | nil => cases hget
  | cons entry rest ih =>
    simp only [Value.entriesWithin, Bool.and_eq_true] at h
    simp only [get?] at hget
    split at hget
    · cases hget
      exact h.1
    · exact ih h.2 hget

theorem put_within {w : Extent} {fields : Fields Value} (name : String) {value : Value}
    (h : Value.entriesWithin w fields) (hvalue : value.within w) :
    Value.entriesWithin w (put fields name value) := by
  induction fields with
  | nil => simp [put, Value.entriesWithin, hvalue]
  | cons entry rest ih =>
    simp only [Value.entriesWithin, Bool.and_eq_true] at h
    simp only [put]
    split
    · simp [Value.entriesWithin, hvalue, h.2]
    · simp [Value.entriesWithin, h.1, ih h.2]

theorem ofList_within {w : Extent} {entries : List (String × Value)}
    (h : ∀ entry ∈ entries, entry.2.within w) : Value.entriesWithin w (ofList entries) :=
  ofList_induction (P := fun fields => Value.entriesWithin w fields) rfl
    fun _ entry hentry hfields => put_within entry.1 hfields (h entry hentry)

end Fields

namespace Machine.Closed
variable {m : Machine}

theorem lookup? (h : m.Closed) {id : ScopeId} {name : String} {value : Value}
    (hvalue : m.scopes.lookup? id name = some value) : value.within m.extent := by
  have hbindings (id : ScopeId) : Value.entriesWithin m.extent (m.scopes.bindings id) := by
    unfold Scopes.bindings
    split
    · next scope hscope => exact (h id scope hscope).bindings
    · rfl
  obtain ⟨scope, hget⟩ := Scopes.exists_get?_of_lookup? hvalue
  exact Fields.get?_within (hbindings scope) hget

theorem define (h : m.Closed) (scope : ScopeId) (name : String) {value : Value}
    (hvalue : value.within m.extent) :
    Closed { m with scopes := m.scopes.define scope name value } := by
  intro id sc hsc
  rw [extent_define]
  simp only [Scopes.define, Array.getElem?_modify] at hsc
  split at hsc
  · obtain ⟨old, hold, rfl⟩ := Option.map_eq_some_iff.1 hsc
    have hwithin := h id old hold
    exact ⟨hwithin.parent, Fields.put_within name hwithin.bindings hvalue⟩
  · exact h id sc hsc

theorem child (h : m.Closed) {parent : ScopeId} (hparent : parent < m.scopes.all.size) :
    Closed { m with scopes := (m.scopes.child parent).2 } := by
  intro id sc hsc
  have hle : m.extent ≤ Machine.extent { m with scopes := (m.scopes.child parent).2 } := by
    refine ⟨?_, Nat.le_refl _⟩
    show m.scopes.all.size ≤ (m.scopes.child parent).2.all.size
    rw [Scopes.size_child]
    omega
  simp only [Scopes.child, Array.getElem?_push] at hsc
  split at hsc
  · cases hsc
    refine ⟨fun p hp => ?_, rfl⟩
    cases hp
    exact Nat.lt_of_lt_of_le hparent hle.1
  · exact (h id sc hsc).mono hle

/-- The first state of a session is closed if no function of a program is among the values that it
starts with. -/
theorem start {env : List (String × Value)} (h : ∀ entry ∈ env, entry.2.within ⟨0, 0⟩) :
    (Machine.start env).Closed := by
  apply Machine.start_induction
  · intro id scope hscope
    cases id with
    | zero =>
      cases hscope
      exact ⟨fun _ h => (nomatch h), rfl⟩
    | succ id => cases hscope
  · intro m hm entry hentry
    apply hm.define
    apply Value.within_mono (w := ⟨0, 0⟩) ⟨Nat.zero_le _, Nat.zero_le _⟩
    rcases hentry with ⟨b, hb⟩ | hentry
    · rw [hb]
      rfl
    · exact h entry hentry

end Machine.Closed

/-! ### Evaluations from closed states -/

/-- From every closed state of at least the extent `w`, an evaluation leads to a closed state of no
smaller extent, and what it gives is as `good` asks for in that extent. -/
def Eval.Closes {α : Type} (w : Extent) (good : Extent → α → Prop) (x : Eval α) : Prop :=
  ∀ m : Machine, m.Closed → w ≤ m.extent →
    (x.after m).Closed ∧ m.extent ≤ (x.after m).extent ∧
      ∀ a m', x m = .ok a m' → good (x.after m).extent a

def Completion.within (w : Extent) (completion : Completion) : Bool := completion.value.within w

/-- The stages of a session by what has been made. -/
def Extent.stages : Stages Extent where
  le w w' := w ≤ w'
  state w m := m.Closed ∧ m.extent = w
  value w v := v.within w
  scope w id := id < w.scopes
  refl := le_refl
  trans := le_trans
  value_mono hw h := Value.within_mono hw _ h
  scope_mono hw h := Nat.lt_of_lt_of_le h hw.1
  plain w _ h := Value.within_of_isPlain h w
  array := Value.itemsWithin_iff
  object := Fields.ofList_within
  closure h := by
    simp only [Value.within, Closure.within, Bool.and_eq_true, decide_eq_true_eq] at h
    exact h.1
  quiet {w m m'} h hscopes hfunctions := by
    have hextent : m'.extent = m.extent := by
      rw [Machine.extent, hscopes, hfunctions, Machine.extent]
    refine ⟨fun id sc hsc => ?_, hextent.trans h.2⟩
    rw [hextent]
    exact h.1 id sc (hscopes ▸ hsc)
  lookup h hvalue := h.2 ▸ h.1.lookup? hvalue
  define id name _ h hvalue :=
    ⟨h.1.define id name (h.2.symm ▸ hvalue), (Machine.extent_define _ id name _).trans h.2⟩
  child {w m parent} h hparent := by
    obtain ⟨hclosed, rfl⟩ := h
    have hsize : (m.scopes.child parent).2.all.size = m.scopes.all.size + 1 := Scopes.size_child ..
    refine ⟨Machine.extent { m with scopes := (m.scopes.child parent).2 }, ⟨?_, Nat.le_refl _⟩,
      ⟨hclosed.child hparent, rfl⟩, ?_⟩
    · show m.scopes.all.size ≤ (m.scopes.child parent).2.all.size
      omega
    · show m.scopes.all.size < (m.scopes.child parent).2.all.size
      omega
  make {w m} _ _ _ {id} h hscope := by
    obtain ⟨hclosed, rfl⟩ := h
    have hle : m.extent ≤ ⟨m.scopes.all.size, m.functions + 1⟩ := ⟨Nat.le_refl _, Nat.le_succ _⟩
    refine ⟨_, hle, ⟨fun id sc hsc => (hclosed id sc hsc).mono hle, rfl⟩, ?_⟩
    simp only [Value.within, Closure.within, Bool.and_eq_true, decide_eq_true_eq]
    exact ⟨hscope, Nat.lt_succ_self _⟩

theorem Eval.Closes.of_advances {α : Type} {w : Extent} {good : Extent → α → Prop} {x : Eval α}
    (h : ∀ w', w ≤ w' → Advances Extent.stages w' good x) : Closes w good x := by
  intro m hm hw
  obtain ⟨w', hle, ⟨hclosed, rfl⟩, hgood⟩ := h m.extent hw m ⟨hm, rfl⟩
  exact ⟨hclosed, hle, hgood⟩

/-- **Closed states stay closed.** In a scope that exists, an expression or a statement leads from a
closed state to a closed state, however it ends. -/
theorem evaluate_execute_closes (limits : Limits) (depth : Nat) :
    (∀ w scope node, scope < w.scopes →
      Eval.Closes w (Value.within · ·) (evaluate limits depth scope node)) ∧
    ∀ w scope node, scope < w.scopes →
      Eval.Closes w (Completion.within · ·) (execute limits depth scope node) := by
  obtain ⟨heval, hexec⟩ := evaluate_execute_advances Extent.stages limits depth
  have hscope {w w' : Extent} {scope : ScopeId} (h : scope < w.scopes) (hw : w ≤ w') :
      scope < w'.scopes := Nat.lt_of_lt_of_le h hw.1
  exact ⟨fun w scope node h => .of_advances fun w' hw => heval w' scope node (hscope h hw),
    fun w scope node h => .of_advances fun w' hw => hexec w' scope node (hscope h hw)⟩

end PageScript
