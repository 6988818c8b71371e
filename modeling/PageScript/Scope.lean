import PageScript.Value

/-!
Scopes as data. Scopes are numbered in the order in which they are made, and each but the outermost
has a parent made before it. A name is looked up outward from a scope along its parents.
-/
namespace PageScript

/-- The names bound in one scope, and the scope around it. -/
structure Scope where
  parent : Option ScopeId
  bindings : Fields Value

/-- All scopes that were ever made, in order. -/
structure Scopes where
  all : Array Scope

namespace Scopes

/-- A single scope without bindings. -/
def initial : Scopes := ⟨#[⟨none, []⟩]⟩

/-- A new scope inside `parent`, and its number. -/
def child (s : Scopes) (parent : ScopeId) : ScopeId × Scopes :=
  (s.all.size, ⟨s.all.push ⟨some parent, []⟩⟩)

/-- Binds a name in one scope, whatever it was bound to before. -/
def define (s : Scopes) (scope : ScopeId) (name : String) (value : Value) : Scopes :=
  ⟨s.all.modify scope fun sc => { sc with bindings := sc.bindings.put name value }⟩

/-- The bindings made in one scope itself. -/
def bindings (s : Scopes) (scope : ScopeId) : Fields Value :=
  match s.all[scope]? with
  | some sc => sc.bindings
  | none => []

/-- The scope around a scope. Parents are older than their children, so going outward ends. -/
def parent? (s : Scopes) (scope : ScopeId) : Option { p : ScopeId // p < scope } :=
  match s.all[scope]? with
  | some ⟨some p, _⟩ => if h : p < scope then some ⟨p, h⟩ else none
  | _ => none

/-- The value of a name in the nearest scope that binds it, going outward. -/
def lookup? (s : Scopes) (scope : ScopeId) (name : String) : Option Value :=
  match (s.bindings scope).get? name with
  | some value => some value
  | none =>
    match s.parent? scope with
    | some ⟨outer, _⟩ => lookup? s outer name
    | none => none
termination_by scope

/-- Whether a name is bound in a scope or around it. -/
def contains (s : Scopes) (scope : ScopeId) (name : String) : Bool :=
  (s.bindings scope).contains name ||
    match s.parent? scope with
    | some ⟨outer, _⟩ => contains s outer name
    | none => false
termination_by scope

/-! ### What each operation does to bindings and parents -/

theorem bindings_define (s : Scopes) (scope : ScopeId) (name : String) (value : Value)
    (other : ScopeId) :
    (s.define scope name value).bindings other =
      if scope = other ∧ other < s.all.size then (s.bindings other).put name value
      else s.bindings other := by
  simp only [bindings, define, Array.getElem?_modify]
  by_cases h : scope = other
  · subst h
    by_cases hs : scope < s.all.size <;> simp [hs]
  · simp [h]

theorem parent?_define (s : Scopes) (scope : ScopeId) (name : String) (value : Value)
    (other : ScopeId) : (s.define scope name value).parent? other = s.parent? other := by
  simp only [parent?, define, Array.getElem?_modify]
  by_cases h : scope = other
  · subst h
    cases hs : s.all[scope]? with
    | none => simp
    | some sc => cases sc with | mk parent _ => cases parent <;> simp
  · simp [h]

theorem bindings_child (s : Scopes) (parent other : ScopeId) :
    (s.child parent).2.bindings other = s.bindings other := by
  by_cases h : other = s.all.size <;> simp [bindings, child, Array.getElem?_push, h]

/-- Every name that is found is also contained. -/
theorem isSome_lookup? (s : Scopes) (scope : ScopeId) (name : String) :
    (s.lookup? scope name).isSome = s.contains scope name := by
  fun_induction lookup? s scope name with
  | case1 scope value h => rw [contains]; simp [Fields.contains, h]
  | case2 scope h outer hlt hp ih => rw [contains]; simp [Fields.contains, h, hp, ih]
  | case3 scope h hp => rw [contains]; simp [Fields.contains, h, hp]

end Scopes
end PageScript
