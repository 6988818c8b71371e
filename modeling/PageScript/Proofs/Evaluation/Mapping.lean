import PageScript.Evaluation

/-!
Changes of functions and states. Of a function a program sees what it is called and whether it is the
same as another. Whatever else of the functions in values is changed, no operation tells the values
from what they were. A change of states goes through all values that are bound, and may give new
names to what is bound as long as no two of them become one.
-/
namespace PageScript

/-- A change of functions that shows in no operation on values: a function keeps its name, and no
two of them become one. -/
structure FunctionMap where
  toFun : Closure → Closure
  name : ∀ f, (toFun f).name = f.name
  id : ∀ f g, (toFun f).id = (toFun g).id ↔ f.id = g.id

namespace Value

mutual

/-- The value with all functions in it changed. -/
def mapped (φ : FunctionMap) : Value → Value
  | null => null
  | bool b => bool b
  | number n => number n
  | string s => string s
  | array items => array (mappedItems φ items)
  | object entries => object (mappedEntries φ entries)
  | closure f => closure (φ.toFun f)
  | builtin b => builtin b

def mappedItems (φ : FunctionMap) : List Value → List Value
  | [] => []
  | item :: rest => mapped φ item :: mappedItems φ rest

def mappedEntries (φ : FunctionMap) : List (String × Value) → List (String × Value)
  | [] => []
  | (key, value) :: rest => (key, mapped φ value) :: mappedEntries φ rest

end

/-- A named value with the value changed. -/
def mappedEntry (φ : FunctionMap) (entry : String × Value) : String × Value :=
  (entry.1, entry.2.mapped φ)

theorem mappedItems_eq_map (φ : FunctionMap) (items : List Value) :
    mappedItems φ items = items.map (mapped φ) := by
  induction items with
  | nil => rfl
  | cons item rest ih => rw [mappedItems, ih, List.map_cons]

theorem mappedEntries_eq_map (φ : FunctionMap) (entries : List (String × Value)) :
    mappedEntries φ entries = entries.map (mappedEntry φ) := by
  induction entries with
  | nil => rfl
  | cons entry rest ih => rw [mappedEntries, ih, List.map_cons, mappedEntry]

end Value

/-- A change of states: of the functions in values, and of the names that values are bound to, so
that no two of them become one. -/
structure StateMap where
  functions : FunctionMap
  name : String → String
  injective : Function.Injective name

/-- A change of functions only. -/
def FunctionMap.states (φ : FunctionMap) : StateMap := ⟨φ, fun name => name, fun _ _ h => h⟩

/-- A named value under its new name, with the value changed. -/
def StateMap.entry (σ : StateMap) (entry : String × Value) : String × Value :=
  (σ.name entry.1, entry.2.mapped σ.functions)

namespace Fields
variable (σ : StateMap) (fields : Fields Value) (name : String)

theorem get?_mapped :
    Fields.get? (fields.map σ.entry) (σ.name name) =
      (fields.get? name).map (Value.mapped σ.functions) := by
  induction fields with
  | nil => rfl
  | cons entry rest ih =>
    simp only [List.map_cons, StateMap.entry, get?, σ.injective.eq_iff]
    split
    · rfl
    · exact ih

theorem put_mapped (value : Value) :
    (fields.put name value).map σ.entry =
      Fields.put (fields.map σ.entry) (σ.name name) (value.mapped σ.functions) := by
  induction fields with
  | nil => rfl
  | cons entry rest ih =>
    simp only [put, List.map_cons, StateMap.entry, σ.injective.eq_iff]
    split
    · rfl
    · rw [List.map_cons, ih]
      rfl

end Fields

/-! ### What can be asked of a value -/

namespace Value

@[simp] theorem kind_mapped (φ : FunctionMap) (v : Value) : (v.mapped φ).kind = v.kind := by
  cases v <;> rfl

@[simp] theorem truthy_mapped (φ : FunctionMap) (v : Value) : (v.mapped φ).truthy = v.truthy := by
  cases v with
  | array items => cases items <;> rfl
  | _ => rfl

mutual

theorem nested?_mapped (φ : FunctionMap) : ∀ v : Value, nested? (v.mapped φ) = nested? v
  | null | number _ | string _ | closure _ | builtin _ => by
    simp only [mapped, nested?, φ.name]
  | bool true | bool false => rfl
  | array items => by simp only [mapped, nested?, nestedItems?_mapped φ items]
  | object entries => by simp only [mapped, nested?, nestedEntries?_mapped φ entries]

theorem nestedItems?_mapped (φ : FunctionMap) :
    ∀ items : List Value, nestedItems? (mappedItems φ items) = nestedItems? items
  | [] => rfl
  | item :: rest => by
    simp only [mappedItems, nestedItems?, nested?_mapped φ item, nestedItems?_mapped φ rest]

theorem nestedEntries?_mapped (φ : FunctionMap) :
    ∀ entries : List (String × Value),
      nestedEntries? (mappedEntries φ entries) = nestedEntries? entries
  | [] => rfl
  | (key, value) :: rest => by
    simp only [mappedEntries, nestedEntries?, nested?_mapped φ value, nestedEntries?_mapped φ rest]

end

@[simp] theorem display?_mapped (φ : FunctionMap) (v : Value) :
    (v.mapped φ).display? = v.display? := by
  cases v with
  | string s => rfl
  | _ => exact nested?_mapped φ _

theorem get?_mappedEntries (φ : FunctionMap) (entries : Fields Value) (name : String) :
    Fields.get? (mappedEntries φ entries) name = (entries.get? name).map (mapped φ) := by
  rw [mappedEntries_eq_map]
  exact Fields.get?_mapped φ.states entries name

mutual

theorem equal_mapped (φ : FunctionMap) :
    ∀ a b : Value, equal (a.mapped φ) (b.mapped φ) = equal a b
  | null, b | bool _, b | number _, b | string _, b | builtin _, b => by cases b <;> rfl
  | array as, b => by
    cases b with
    | array bs => simp only [mapped, equal, itemsEqual_mapped φ as bs]
    | _ => rfl
  | object as, b => by
    cases b with
    | object bs =>
      simp only [mapped, equal, entriesEqual_mapped φ as bs]
      simp only [mappedEntries_eq_map, List.length_map]
    | _ => rfl
  | closure f, b => by
    cases b with
    | closure g => exact decide_eq_decide.2 (φ.id f g)
    | _ => rfl

theorem itemsEqual_mapped (φ : FunctionMap) :
    ∀ as bs : List Value, itemsEqual (mappedItems φ as) (mappedItems φ bs) = itemsEqual as bs
  | [], [] => rfl
  | [], _ :: _ => rfl
  | _ :: _, [] => rfl
  | a :: as, b :: bs => by
    simp only [mappedItems, itemsEqual, equal_mapped φ a b, itemsEqual_mapped φ as bs]

theorem entriesEqual_mapped (φ : FunctionMap) :
    ∀ as others : List (String × Value),
      entriesEqual (mappedEntries φ as) (mappedEntries φ others) = entriesEqual as others
  | [], _ => rfl
  | (key, a) :: rest, others => by
    simp only [mappedEntries, entriesEqual, get?_mappedEntries, entriesEqual_mapped φ rest others]
    cases Fields.get? others key with
    | none => rfl
    | some b => simp only [Option.map_some, equal_mapped φ a b]

end

end Value

/-! ### Operators and calls -/

namespace Operators
open Value

@[simp] theorem display_mapped (φ : FunctionMap) (v : Value) :
    display (v.mapped φ) = display v := by
  simp only [display, display?_mapped]

@[simp] theorem isString_mapped (φ : FunctionMap) (v : Value) :
    isString (v.mapped φ) = isString v := by
  cases v <;> rfl

@[simp] theorem numbers_mapped (φ : FunctionMap) (operator : String) (a b : Value) :
    numbers operator (a.mapped φ) (b.mapped φ) = numbers operator a b := by
  cases a <;> cases b <;> rfl

@[simp] theorem calculate_mapped (φ : FunctionMap) (operator : String) (a b : Value) :
    calculate operator (a.mapped φ) (b.mapped φ) = calculate operator a b := by
  simp only [calculate, numbers_mapped]

@[simp] theorem compare_mapped (φ : FunctionMap) (operator : String) (ordering : Ordering)
    (a b : Value) :
    compare operator ordering (a.mapped φ) (b.mapped φ) = compare operator ordering a b := by
  cases a <;> cases b <;> rfl

theorem binary_mapped (φ : FunctionMap) (operator : String) (a b : Value) :
    binary operator (a.mapped φ) (b.mapped φ) = binary operator a b := by
  simp only [binary, truthy_mapped, equal_mapped, isString_mapped, display_mapped, compare_mapped,
    calculate_mapped]

theorem unary_mapped (φ : FunctionMap) (operator : String) (a : Value) :
    unary operator (a.mapped φ) = unary operator a := by
  simp only [unary, truthy_mapped]
  cases a <;> rfl

end Operators

theorem displayAll_mapped (φ : FunctionMap) (args : List Value) :
    displayAll (args.map (Value.mapped φ)) = displayAll args := by
  induction args with
  | nil => rfl
  | cons arg args ih => simp only [List.map_cons, displayAll, Operators.display_mapped, ih]

theorem callTarget_mapped (φ : FunctionMap) (v : Value) :
    callTarget (v.mapped φ) = (callTarget v).mapped φ := by
  cases v with
  | closure f =>
    simp only [Value.mapped, callTarget, φ.name]
    cases Builtin.ofName? f.name <;> rfl
  | _ => rfl

/-! ### Named values -/

namespace Fields

theorem mappedEntries_put (φ : FunctionMap) (fields : Fields Value) (name : String)
    (value : Value) :
    Value.mappedEntries φ (fields.put name value) =
      Fields.put (Value.mappedEntries φ fields) name (value.mapped φ) := by
  rw [Value.mappedEntries_eq_map, Value.mappedEntries_eq_map]
  exact put_mapped φ.states fields name value

theorem ofList_mapped (φ : FunctionMap) (entries : List (String × Value)) :
    Fields.ofList (entries.map (Value.mappedEntry φ)) =
      Value.mappedEntries φ (Fields.ofList entries) := by
  have hfold (fields : Fields Value) :
      (entries.map (Value.mappedEntry φ)).foldl
          (fun fields entry => Fields.put fields entry.1 entry.2) (Value.mappedEntries φ fields) =
        Value.mappedEntries φ
          (entries.foldl (fun fields entry => Fields.put fields entry.1 entry.2) fields) := by
    induction entries generalizing fields with
    | nil => rfl
    | cons entry rest ih =>
      simp only [List.map_cons, List.foldl_cons, Value.mappedEntry]
      rw [← mappedEntries_put, ih]
  exact hfold []

end Fields

/-! ### States -/

def Scope.mapped (σ : StateMap) (scope : Scope) : Scope :=
  ⟨scope.parent, scope.bindings.map σ.entry⟩

namespace Scopes

def mapped (σ : StateMap) (s : Scopes) : Scopes := ⟨s.all.map (Scope.mapped σ)⟩

variable (σ : StateMap) (s : Scopes)

theorem bindings_mapped (id : ScopeId) :
    (s.mapped σ).bindings id = (s.bindings id).map σ.entry := by
  simp only [bindings, mapped, Array.getElem?_map]
  cases s.all[id]? <;> rfl

theorem parent?_mapped (id : ScopeId) : (s.mapped σ).parent? id = s.parent? id := by
  simp only [parent?, mapped, Array.getElem?_map]
  cases s.all[id]? with
  | none => rfl
  | some scope =>
    obtain ⟨parent, fields⟩ := scope
    cases parent <;> rfl

/-- Under its new name a variable is found where it was found under its old one. -/
theorem lookup?_mapped (id : ScopeId) (name : String) :
    (s.mapped σ).lookup? id (σ.name name) =
      (s.lookup? id name).map (Value.mapped σ.functions) := by
  fun_induction Scopes.lookup? s id name with
  | case1 id value hvalue =>
    rw [lookup?, bindings_mapped, Fields.get?_mapped, hvalue]
    rfl
  | case2 id hnone outer hlt hparent ih =>
    rw [lookup?, bindings_mapped, Fields.get?_mapped, hnone, parent?_mapped, hparent]
    exact ih
  | case3 id hnone hparent =>
    rw [lookup?, bindings_mapped, Fields.get?_mapped, hnone, parent?_mapped, hparent]
    rfl

theorem define_mapped (scope : ScopeId) (name : String) (value : Value) :
    (s.define scope name value).mapped σ =
      (s.mapped σ).define scope (σ.name name) (value.mapped σ.functions) := by
  refine congrArg Scopes.mk (Array.ext_getElem? fun id => ?_)
  simp only [mapped, define, Array.getElem?_map, Array.getElem?_modify]
  split
  · cases s.all[id]? with
    | none => rfl
    | some sc => simp only [Option.map_some, Scope.mapped, Fields.put_mapped]
  · rfl

theorem child_mapped (parent : ScopeId) :
    (s.mapped σ).child parent = ((s.child parent).1, (s.child parent).2.mapped σ) := by
  simp only [mapped, child, Array.size_map, Array.map_push]
  rfl

end Scopes

def Machine.mapped (σ : StateMap) (m : Machine) : Machine :=
  { m with scopes := m.scopes.mapped σ }

/-- How an evaluation concludes: with a result or a reason to stop, and the state it leaves. -/
abbrev Conclusion (α : Type) := EStateM.Result Stop Machine α

/-- How an evaluation concludes, with changes of its result, of the reason to stop and of the
state. -/
def Conclusion.mapped {α β : Type} (σ : StateMap) (stop : Stop → Stop) (g : α → β) :
    Conclusion α → Conclusion β
  | .ok a m => .ok (g a) (m.mapped σ)
  | .error reason m => .error (stop reason) (m.mapped σ)

end PageScript
