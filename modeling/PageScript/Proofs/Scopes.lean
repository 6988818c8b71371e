import PageScript.Evaluation.Machine

/-!
Scopes by their history. Whatever scopes were made inside each other, and whatever names were bound
in them, in whatever order: a name has the value that it was given last in the nearest scope, going
outward, in which it was ever given one. A value given to a name in an outer scope is seen from all
scopes inside it, those made before it was given among them.
-/
namespace PageScript

/-! ### Lookups -/

namespace Eval
variable {scope : ScopeId} {name : String} {line : Int} {m : Machine}

/-- A lookup leaves the state as it is. -/
theorem lookup_apply (scope : ScopeId) (name : String) (line : Int) (m : Machine) :
    lookup scope name line m =
      match m.scopes.lookup? scope name with
      | some value => .ok value m
      | none => .error (.error ⟨.undefined name, line⟩) m := by
  rw [lookup, get_bind_apply]
  cases m.scopes.lookup? scope name <;> rfl

theorem lookup_eq_ok_iff {value : Value} :
    lookup scope name line m = .ok value m ↔ m.scopes.lookup? scope name = some value := by
  rw [lookup_apply]
  cases m.scopes.lookup? scope name <;> simp

theorem lookup_eq_error_iff :
    lookup scope name line m = .error (.error ⟨.undefined name, line⟩) m ↔
      m.scopes.lookup? scope name = none := by
  rw [lookup_apply]
  cases m.scopes.lookup? scope name <;> simp

end Eval

/-! ### Histories -/

/-- What was done to a number of scopes, from a single one on. A scope is only ever made inside one
of those that are there, and a name only bound in one of them. -/
inductive ScopeHistory : (size : Nat) → Type where
  | start : ScopeHistory 1
  | child {size : Nat} (before : ScopeHistory size) (parent : Fin size) : ScopeHistory (size + 1)
  | define {size : Nat} (before : ScopeHistory size) (scope : Fin size) (name : String)
    (value : Value) : ScopeHistory size

namespace ScopeHistory
variable {size : Nat}

/-- The scopes that come of a history. -/
def scopes {size : Nat} : ScopeHistory size → Scopes
  | start => .initial
  | child before parent => (before.scopes.child parent).2
  | define before scope name value => before.scopes.define scope name value

/-- The scope inside which a scope was made. -/
def parent? {size : Nat} : ScopeHistory size → ScopeId → Option ScopeId
  | start, _ => none
  | @child size before parent, id => if id = size then some parent else before.parent? id
  | define before _ _ _, id => before.parent? id

/-- The values that a name was given in a scope, the latest first. -/
def definitions {size : Nat} : ScopeHistory size → ScopeId → String → List Value
  | start, _, _ => []
  | child before _, id, name => before.definitions id name
  | define before scope defined value, id, name =>
    if scope = id ∧ defined = name then value :: before.definitions id name
    else before.definitions id name

/-- A scope and those around it, the nearest first. -/
inductive Chain (history : ScopeHistory size) : ScopeId → List ScopeId → Prop where
  | outermost {id : ScopeId} (h : history.parent? id = none) : Chain history id [id]
  | inside {id parent : ScopeId} {outer : List ScopeId} (h : history.parent? id = some parent)
    (houter : Chain history parent outer) : Chain history id (id :: outer)

/-- In one of some scopes a name was given this value last, and in none of those before it was it
ever given one. -/
def Gives (history : ScopeHistory size) (chain : List ScopeId) (name : String) (value : Value) :
    Prop :=
  ∃ inner holder outer, chain = inner ++ holder :: outer ∧
    (history.definitions holder name).head? = some value ∧
    ∀ id ∈ inner, history.definitions id name = []

/-! ### What scopes keep of their history -/

theorem size_scopes (history : ScopeHistory size) : history.scopes.all.size = size := by
  induction history with
  | start => rfl
  | child before parent ih => simp [scopes, Scopes.child, ih]
  | define before scope name value ih => simp [scopes, Scopes.define, ih]

/-- A scope binds a name to the value that the name was given last. -/
theorem get?_bindings (history : ScopeHistory size) (id : ScopeId) (name : String) :
    (history.scopes.bindings id).get? name = (history.definitions id name).head? := by
  induction history with
  | start => cases id <;> rfl
  | child before parent ih => rw [scopes, Scopes.bindings_child, ih, definitions]
  | define before scope defined value ih =>
    rw [scopes, Scopes.bindings_define, definitions, size_scopes]
    by_cases hscope : scope = id
    · subst hscope
      rw [if_pos ⟨rfl, scope.isLt⟩, Fields.get?_put, ih]
      by_cases hname : name = defined
      · subst hname
        simp
      · rw [if_neg hname, if_neg fun h => hname h.2.symm]
    · rw [if_neg fun h => hscope h.1, if_neg fun h => hscope h.1, ih]

theorem parent?_lt {history : ScopeHistory size} {id parent : ScopeId}
    (h : history.parent? id = some parent) : parent < id := by
  induction history with
  | start => cases h
  | child before outer ih =>
    rw [parent?] at h
    split at h
    · next hid =>
      cases h
      rw [hid]
      exact outer.isLt
    · exact ih h
  | define before scope name value ih => exact ih h

theorem map_parent?_scopes (history : ScopeHistory size) (id : ScopeId) :
    (history.scopes.parent? id).map (·.1) = history.parent? id := by
  induction history with
  | start => cases id <;> rfl
  | @child size before parent ih =>
    rw [parent?]
    by_cases hid : id = size
    · subst hid
      have hnew : (before.child parent).scopes.all[id]? = some ⟨some parent, []⟩ := by
        rw [scopes, Scopes.child, Array.getElem?_push, size_scopes, if_pos rfl]
      rw [if_pos rfl, Scopes.parent?, hnew]
      simp
    · have hold : (before.child parent).scopes.all[id]? = before.scopes.all[id]? := by
        simp [scopes, Scopes.child, size_scopes, Array.getElem?_push, hid]
      rw [if_neg hid, ← ih, Scopes.parent?, hold, ← Scopes.parent?]
  | define before scope name value ih => rw [scopes, Scopes.parent?_define, ih, parent?]

/-! ### Chains of scopes -/

/-- Parents were made earlier, so every chain comes to an end. -/
theorem exists_chain (history : ScopeHistory size) (id : ScopeId) :
    ∃ chain, history.Chain id chain := by
  induction id using Nat.strongRecOn with
  | ind id ih =>
    cases hparent : history.parent? id with
    | none => exact ⟨[id], .outermost hparent⟩
    | some parent =>
      obtain ⟨outer, houter⟩ := ih parent (parent?_lt hparent)
      exact ⟨id :: outer, .inside hparent houter⟩

theorem Chain.unique {history : ScopeHistory size} {id : ScopeId} {chain other : List ScopeId}
    (h : history.Chain id chain) (hother : history.Chain id other) : other = chain := by
  induction h generalizing other with
  | outermost hnone =>
    cases hother with
    | outermost => rfl
    | inside hparent =>
      rw [hnone] at hparent
      cases hparent
  | inside hparent houter ih =>
    cases hother with
    | outermost hnone =>
      rw [hnone] at hparent
      cases hparent
    | inside hparent' houter' =>
      rw [hparent] at hparent'
      cases hparent'
      rw [ih houter']

/-- A lookup goes along the chain, up to a scope in which the name was ever given a value. -/
theorem Chain.lookup? {history : ScopeHistory size} {id : ScopeId} {chain : List ScopeId}
    (h : history.Chain id chain) (name : String) :
    history.scopes.lookup? id name =
      chain.findSome? fun holder => (history.definitions holder name).head? := by
  induction h with
  | @outermost id hnone =>
    have hparent : history.scopes.parent? id = none := by
      rw [← Option.map_eq_none_iff, map_parent?_scopes, hnone]
    rw [Scopes.lookup?, get?_bindings, hparent, List.findSome?_singleton]
    cases (history.definitions id name).head? <;> rfl
  | @inside id parent outer hsome houter ih =>
    rw [← map_parent?_scopes, Option.map_eq_some_iff] at hsome
    obtain ⟨⟨_, hlt⟩, hparent, rfl⟩ := hsome
    rw [Scopes.lookup?, get?_bindings, hparent, List.findSome?_cons]
    cases (history.definitions id name).head? with
    | some value => rfl
    | none => exact ih

/-- **Names have the latest value of the nearest scope.** Let scopes be made inside each other and
names bound in them in any order. Each scope is in one chain of scopes, which ends. From it a name
has the value that it was given last in the nearest scope of the chain in which it was ever given
one, however late that was; it is undefined exactly if it was given none in any of them; and it is
contained exactly if it has a value. -/
theorem lookup_latest_of_nearest (history : ScopeHistory size) (scope : Fin size) :
    ∃ chain, history.Chain scope chain ∧ (∀ other, history.Chain scope other → other = chain) ∧
      ∀ (name : String) (line : Int) (m : Machine),
        let m := { m with scopes := history.scopes }
        (∀ value, Eval.lookup scope name line m = .ok value m ↔ history.Gives chain name value) ∧
        (Eval.lookup scope name line m = .error (.error ⟨.undefined name, line⟩) m ↔
          ∀ id ∈ chain, history.definitions id name = []) ∧
        (history.scopes.contains scope name ↔
          ∃ value, Eval.lookup scope name line m = .ok value m) := by
  obtain ⟨chain, hchain⟩ := history.exists_chain scope
  refine ⟨chain, hchain, fun other hother => hchain.unique hother, fun name line m => ?_⟩
  intro m
  have hvalue (value : Value) :
      history.scopes.lookup? scope name = some value ↔ history.Gives chain name value := by
    rw [hchain.lookup?, List.findSome?_eq_some_iff]
    simp only [List.head?_eq_none_iff, Gives]
  have hnone : history.scopes.lookup? scope name = none ↔
      ∀ id ∈ chain, history.definitions id name = [] := by
    rw [hchain.lookup?, List.findSome?_eq_none_iff]
    simp only [List.head?_eq_none_iff]
  refine ⟨fun value => ?_, ?_, ?_⟩
  · rw [Eval.lookup_eq_ok_iff, hvalue]
  · rw [Eval.lookup_eq_error_iff, hnone]
  · rw [← Scopes.isSome_lookup?, Option.isSome_iff_exists]
    exact exists_congr fun value => (Eval.lookup_eq_ok_iff (m := m)).symm

/-- A scope inside sees what is bound in the outer one later on, up to the latest value. -/
example : (((start.child 0).define 0 "x" (.int 1)).define 0 "x" (.int 2)).scopes.lookup? 1 "x" =
    some (.int 2) := by
  cbv

end ScopeHistory
end PageScript
