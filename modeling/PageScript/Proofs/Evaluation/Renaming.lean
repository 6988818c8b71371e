import Mathlib.Order.Monotone.Basic
import PageScript.Proofs.Evaluation.Mapping

/-!
Renaming of scopes and functions. A program sees of a function what it is called and whether it is
the same as another, and of a scope only what is bound there. No operation tells values from renamed
ones, and a name is found in renamed scopes where it was found before.
-/
namespace PageScript

/-- New numbers for scopes and functions. No two of them become one, and of two scopes the older
one stays the older. -/
structure Renaming where
  scope : ScopeId → ScopeId
  function : Nat → Nat
  scope_strictMono : StrictMono scope
  function_injective : Function.Injective function

def Closure.renamed (r : Renaming) (f : Closure) : Closure :=
  { f with id := r.function f.id, scope := r.scope f.scope }

/-- A renaming shows in no operation on values. -/
def Renaming.functionMap (r : Renaming) : FunctionMap where
  toFun := Closure.renamed r
  name _ := rfl
  id _ _ := r.function_injective.eq_iff

namespace Value

mutual

/-- The value with all functions in it renamed. -/
def renamed (r : Renaming) : Value → Value
  | null => null
  | bool b => bool b
  | number n => number n
  | string s => string s
  | array items => array (renamedItems r items)
  | object entries => object (renamedEntries r entries)
  | closure f => closure (f.renamed r)
  | builtin b => builtin b

def renamedItems (r : Renaming) : List Value → List Value
  | [] => []
  | item :: rest => renamed r item :: renamedItems r rest

def renamedEntries (r : Renaming) : List (String × Value) → List (String × Value)
  | [] => []
  | (key, value) :: rest => (key, renamed r value) :: renamedEntries r rest

end

mutual

theorem renamed_eq_mapped (r : Renaming) : ∀ v : Value, v.renamed r = v.mapped r.functionMap
  | null | bool _ | number _ | string _ | closure _ | builtin _ => rfl
  | array items => by rw [renamed, mapped, renamedItems_eq_mapped r items]
  | object entries => by rw [renamed, mapped, renamedEntries_eq_mapped r entries]

theorem renamedItems_eq_mapped (r : Renaming) :
    ∀ items : List Value, renamedItems r items = mappedItems r.functionMap items
  | [] => rfl
  | item :: rest => by
    rw [renamedItems, mappedItems, renamed_eq_mapped r item, renamedItems_eq_mapped r rest]

theorem renamedEntries_eq_mapped (r : Renaming) :
    ∀ entries : List (String × Value),
      renamedEntries r entries = mappedEntries r.functionMap entries
  | [] => rfl
  | (key, value) :: rest => by
    rw [renamedEntries, mappedEntries, renamed_eq_mapped r value, renamedEntries_eq_mapped r rest]

end

theorem mapped_functionMap (r : Renaming) : mapped r.functionMap = renamed r :=
  funext fun v => (renamed_eq_mapped r v).symm

@[simp] theorem truthy_renamed (r : Renaming) (v : Value) : (v.renamed r).truthy = v.truthy := by
  rw [renamed_eq_mapped, truthy_mapped]

theorem get?_renamedEntries (r : Renaming) (entries : Fields Value) (name : String) :
    Fields.get? (renamedEntries r entries) name = (entries.get? name).map (renamed r) := by
  rw [renamedEntries_eq_mapped, get?_mappedEntries, mapped_functionMap]

end Value

/-! ### Values that know of no more than was made -/

/-- How many scopes and functions have been made. -/
structure Extent where
  scopes : Nat
  functions : Nat

instance : Preorder Extent where
  le w w' := w.scopes ≤ w'.scopes ∧ w.functions ≤ w'.functions
  le_refl _ := ⟨Nat.le_refl _, Nat.le_refl _⟩
  le_trans _ _ _ h h' := ⟨Nat.le_trans h.1 h'.1, Nat.le_trans h.2 h'.2⟩

/-- What was made within `w` keeps its number. -/
structure Renaming.Fixes (r : Renaming) (w : Extent) : Prop where
  scope : ∀ id < w.scopes, r.scope id = id
  function : ∀ id < w.functions, r.function id = id

theorem Renaming.Fixes.mono {r : Renaming} {w w' : Extent} (h : r.Fixes w') (hw : w ≤ w') :
    r.Fixes w :=
  ⟨fun id hid => h.scope id (Nat.lt_of_lt_of_le hid hw.1),
    fun id hid => h.function id (Nat.lt_of_lt_of_le hid hw.2)⟩

/-- Whether a function and its scope were made within `w`. -/
def Closure.within (w : Extent) (f : Closure) : Bool := f.scope < w.scopes && f.id < w.functions

namespace Value

mutual

/-- Whether all functions in a value and their scopes were made within `w`. -/
def within (w : Extent) : Value → Bool
  | array items => itemsWithin w items
  | object entries => entriesWithin w entries
  | closure f => f.within w
  | _ => true

def itemsWithin (w : Extent) : List Value → Bool
  | [] => true
  | item :: rest => within w item && itemsWithin w rest

def entriesWithin (w : Extent) : List (String × Value) → Bool
  | [] => true
  | (_, value) :: rest => within w value && entriesWithin w rest

end

theorem itemsWithin_iff {w : Extent} {items : List Value} :
    itemsWithin w items ↔ ∀ item ∈ items, item.within w := by
  induction items with
  | nil => simp [itemsWithin]
  | cons item rest ih => simp [itemsWithin, ih]

mutual

/-- A change of functions that leaves those of a value as they are leaves the value as it is. -/
theorem mapped_eq_self {φ : FunctionMap} {w : Extent}
    (hφ : ∀ f : Closure, f.within w → φ.toFun f = f) :
    ∀ v : Value, v.within w → v.mapped φ = v
  | null, _ | bool _, _ | number _, _ | string _, _ | builtin _, _ => rfl
  | array items, h => by rw [mapped, mappedItems_eq_self hφ items h]
  | object entries, h => by rw [mapped, mappedEntries_eq_self hφ entries h]
  | closure f, h => by rw [mapped, hφ f h]

theorem mappedItems_eq_self {φ : FunctionMap} {w : Extent}
    (hφ : ∀ f : Closure, f.within w → φ.toFun f = f) :
    ∀ items : List Value, itemsWithin w items → mappedItems φ items = items
  | [], _ => rfl
  | item :: rest, h => by
    simp only [itemsWithin, Bool.and_eq_true] at h
    rw [mappedItems, mapped_eq_self hφ item h.1, mappedItems_eq_self hφ rest h.2]

theorem mappedEntries_eq_self {φ : FunctionMap} {w : Extent}
    (hφ : ∀ f : Closure, f.within w → φ.toFun f = f) :
    ∀ entries : List (String × Value), entriesWithin w entries → mappedEntries φ entries = entries
  | [], _ => rfl
  | (key, value) :: rest, h => by
    simp only [entriesWithin, Bool.and_eq_true] at h
    rw [mappedEntries, mapped_eq_self hφ value h.1, mappedEntries_eq_self hφ rest h.2]

end

/-- A value without functions stays as it is whatever is changed of functions. -/
theorem mapped_of_plain (φ : FunctionMap) {v : Value} (h : v.within ⟨0, 0⟩) : v.mapped φ = v :=
  mapped_eq_self (fun f hf => by simp [Closure.within] at hf) v h

theorem renamed_closure_eq_self {r : Renaming} {w : Extent} (hr : r.Fixes w) (f : Closure)
    (h : f.within w) : f.renamed r = f := by
  simp only [Closure.within, Bool.and_eq_true, decide_eq_true_eq] at h
  rw [Closure.renamed, hr.scope f.scope h.1, hr.function f.id h.2]

/-- What was made before a renaming takes effect keeps its number. -/
theorem renamed_eq_self {r : Renaming} {w : Extent} (hr : r.Fixes w) (v : Value) (h : v.within w) :
    v.renamed r = v := by
  rw [renamed_eq_mapped]
  exact mapped_eq_self (renamed_closure_eq_self hr) v h

theorem renamedEntries_eq_self {r : Renaming} {w : Extent} (hr : r.Fixes w)
    (entries : List (String × Value)) (h : entriesWithin w entries) :
    renamedEntries r entries = entries := by
  rw [renamedEntries_eq_mapped]
  exact mappedEntries_eq_self (renamed_closure_eq_self hr) entries h

mutual

theorem within_mono {w w' : Extent} (hw : w ≤ w') : ∀ v : Value, v.within w → v.within w'
  | null, _ | bool _, _ | number _, _ | string _, _ | builtin _, _ => rfl
  | array items, h => itemsWithin_mono hw items h
  | object entries, h => entriesWithin_mono hw entries h
  | closure f, h => by
    simp only [within, Closure.within, Bool.and_eq_true, decide_eq_true_eq] at h ⊢
    exact ⟨Nat.lt_of_lt_of_le h.1 hw.1, Nat.lt_of_lt_of_le h.2 hw.2⟩

theorem itemsWithin_mono {w w' : Extent} (hw : w ≤ w') :
    ∀ items : List Value, itemsWithin w items → itemsWithin w' items
  | [], _ => rfl
  | item :: rest, h => by
    simp only [itemsWithin, Bool.and_eq_true] at h ⊢
    exact ⟨within_mono hw item h.1, itemsWithin_mono hw rest h.2⟩

theorem entriesWithin_mono {w w' : Extent} (hw : w ≤ w') :
    ∀ entries : List (String × Value), entriesWithin w entries → entriesWithin w' entries
  | [], _ => rfl
  | (key, value) :: rest, h => by
    simp only [entriesWithin, Bool.and_eq_true] at h ⊢
    exact ⟨within_mono hw value h.1, entriesWithin_mono hw rest h.2⟩

end

end Value

/-! ### Operators -/

/-- Whether a value holds no other values and is no function of a program. -/
def Value.isPlain : Value → Bool
  | null | bool _ | number _ | string _ | builtin _ => true
  | array _ | object _ | closure _ => false

theorem Value.within_of_isPlain {v : Value} (h : v.isPlain) (w : Extent) : v.within w := by
  cases v with
  | array | object | closure => cases h
  | null | bool | number | string | builtin => rfl

namespace Operators
open Value

theorem isPlain_of_compare {operator : String} {ordering : Ordering} {a b v : Value}
    (h : compare operator ordering a b = .ok v) : v.isPlain := by
  unfold compare at h
  split at h
  · cases h; rfl
  · cases hn : numbers operator a b with
    | error fault => rw [hn] at h; cases h
    | ok pair => rw [hn] at h; cases h; rfl

theorem isPlain_of_calculate {operator : String} {a b v : Value}
    (h : calculate operator a b = .ok v) : v.isPlain := by
  unfold calculate at h
  cases hn : numbers operator a b with
  | error fault => rw [hn] at h; cases h
  | ok pair =>
    rw [hn] at h
    simp only [bind, Except.bind] at h
    split at h
    · cases h
    · split at h
      · cases h
      · split at h
        · cases h; rfl
        · cases h

/-- Operators make no functions, arrays or objects. -/
theorem isPlain_of_binary {operator : String} {a b v : Value} (h : binary operator a b = .ok v) :
    v.isPlain := by
  unfold binary at h
  split at h
  case h_5 =>
    split at h
    · cases hleft : display a with
      | error fault => rw [hleft] at h; cases h
      | ok left =>
        cases hright : display b with
        | error fault => rw [hleft, hright] at h; cases h
        | ok right => rw [hleft, hright] at h; cases h; rfl
    · split at h
      · exact isPlain_of_compare h
      · exact isPlain_of_calculate h
  all_goals cases h; rfl

theorem isPlain_of_unary {operator : String} {a v : Value} (h : unary operator a = .ok v) :
    v.isPlain := by
  unfold unary at h
  split at h
  · split at h
    · cases h; rfl
    · cases h
  · cases h; rfl
  · cases h; rfl
  · cases h

theorem within_of_binary {operator : String} {a b v : Value} (h : binary operator a b = .ok v) :
    v.within ⟨0, 0⟩ := within_of_isPlain (isPlain_of_binary h) _

theorem within_of_unary {operator : String} {a v : Value} (h : unary operator a = .ok v) :
    v.within ⟨0, 0⟩ := within_of_isPlain (isPlain_of_unary h) _

end Operators

/-! ### Scopes -/

/-- What is found by a name is bound to it in some scope. -/
theorem Scopes.exists_get?_of_lookup? {s : Scopes} {id : ScopeId} {name : String} {value : Value}
    (h : s.lookup? id name = some value) :
    ∃ scope, (s.bindings scope).get? name = some value := by
  fun_induction lookup? s id name with
  | case1 id value' hget =>
    cases h
    exact ⟨id, hget⟩
  | case2 id hnone outer hlt hparent ih => exact ih h
  | case3 id hnone hparent => cases h

@[simp] theorem Scopes.size_define (s : Scopes) (scope : ScopeId) (name : String) (value : Value) :
    (s.define scope name value).all.size = s.all.size := Array.size_modify

@[simp] theorem Scopes.size_child (s : Scopes) (parent : ScopeId) :
    (s.child parent).2.all.size = s.all.size + 1 := Array.size_push _

theorem Fields.renamedEntries_put (r : Renaming) (fields : Fields Value) (name : String)
    (value : Value) :
    Value.renamedEntries r (fields.put name value) =
      Fields.put (Value.renamedEntries r fields) name (value.renamed r) := by
  rw [Value.renamedEntries_eq_mapped, Value.renamedEntries_eq_mapped, Value.renamed_eq_mapped,
    mappedEntries_put]

/-- The scope with its own and all other numbers in it renamed. -/
def Scope.renamed (r : Renaming) (scope : Scope) : Scope :=
  ⟨scope.parent.map r.scope, Value.renamedEntries r scope.bindings⟩

/-- The scopes of `s` stand in `t` under their new numbers. Others of `t` do not matter. -/
def Scopes.Renamed (r : Renaming) (s t : Scopes) : Prop :=
  ∀ id, t.all[r.scope id]? = (s.all[id]?).map (Scope.renamed r)

namespace Scopes.Renamed
variable {r : Renaming} {s t : Scopes}

theorem bindings (h : Renamed r s t) (id : ScopeId) :
    t.bindings (r.scope id) = Value.renamedEntries r (s.bindings id) := by
  simp only [Scopes.bindings, h id]
  cases s.all[id]? <;> rfl

theorem parent? (h : Renamed r s t) (id : ScopeId) :
    t.parent? (r.scope id) =
      (s.parent? id).map fun p => ⟨r.scope p.1, r.scope_strictMono p.2⟩ := by
  simp only [Scopes.parent?, h id]
  cases s.all[id]? with
  | none => rfl
  | some scope =>
    obtain ⟨parent, fields⟩ := scope
    cases parent with
    | none => rfl
    | some p =>
      -- Only an older scope counts as a parent, and it is still the older one.
      have hlt : r.scope p < r.scope id ↔ p < id := r.scope_strictMono.lt_iff_lt
      by_cases hp : p < id
      · simp [Scope.renamed, hp, hlt.2 hp]
      · simp [Scope.renamed, hp, mt hlt.1 hp]

/-- A name is found in a renamed scope where it was found before. -/
theorem lookup? (h : Renamed r s t) (id : ScopeId) (name : String) :
    t.lookup? (r.scope id) name = (s.lookup? id name).map (Value.renamed r) := by
  fun_induction Scopes.lookup? s id name with
  | case1 id value hvalue =>
    rw [Scopes.lookup?, h.bindings, Value.get?_renamedEntries, hvalue]
    rfl
  | case2 id hnone outer hlt hparent ih =>
    rw [Scopes.lookup?, h.bindings, Value.get?_renamedEntries, hnone, h.parent?, hparent]
    exact ih
  | case3 id hnone hparent =>
    rw [Scopes.lookup?, h.bindings, Value.get?_renamedEntries, hnone, h.parent?, hparent]
    rfl

theorem define (h : Renamed r s t) (scope : ScopeId) (name : String) (value : Value) :
    Renamed r (s.define scope name value) (t.define (r.scope scope) name (value.renamed r)) := by
  intro id
  simp only [Scopes.define, Array.getElem?_modify, r.scope_strictMono.injective.eq_iff, h id]
  split
  · cases s.all[id]? with
    | none => rfl
    | some sc => simp only [Option.map_some, Scope.renamed, Fields.renamedEntries_put]
  · rfl

/-- A new scope on either side: the new ones correspond to each other. -/
theorem child (h : Renamed r s t) (hnext : r.scope s.all.size = t.all.size) (parent : ScopeId) :
    Renamed r (s.child parent).2 (t.child (r.scope parent)).2 := by
  intro id
  simp only [Scopes.child, Array.getElem?_push, ← hnext, r.scope_strictMono.injective.eq_iff, h id]
  split
  · rfl
  · rfl

end Scopes.Renamed
end PageScript
