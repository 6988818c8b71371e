import PageScript.RuntimeError
import PageScript.Scope

/-!
What a run changes: the scopes, the text printed, and how many functions were made and are being
called. An evaluation either gives a result or stops, and leaves a state in both cases.
-/
namespace PageScript

structure Machine where
  scopes : Scopes
  /-- How many functions have been made. -/
  functions : Nat
  /-- How many calls of functions of the program are going on. -/
  calls : Nat
  /-- The most calls that ever went on at once. -/
  deepest : Nat
  /-- What has been printed. -/
  output : String

/-- Why an evaluation has no result. -/
inductive Stop where
  /-- An error, or what is raised in its place if its text cannot be written: nothing in a program
  handles either of them. -/
  | error (error : RuntimeError)
  /-- More nested steps than are allowed. -/
  | tooDeep
  /-- A function whose body is not a block; no reader builds one. -/
  | bodyNotBlock
  /-- A loop that went on for longer than is waited for. -/
  | unfinished

/-- How far an evaluation may go. -/
structure Limits where
  /-- How many calls of functions of the program may go on at once. -/
  callDepth : Int := 64
  /-- How many steps may be nested in each other. -/
  nesting : Nat := 1000
  /-- How often a loop may repeat before it is given up: longer than anyone waits. -/
  rounds : Nat := Nat.pow 2 62

/-- An evaluation. -/
abbrev Eval := EStateM Stop Machine

namespace Machine

/-- The number of the outermost scope. -/
def globals : ScopeId := 0

/-- Before the first statement: the builtins are defined, and the given names over them. -/
def start (env : List (String × Value)) : Machine :=
  let builtins := Builtin.all.map fun b => (b.name, Value.builtin b)
  let scopes := (builtins ++ env).foldl
    (fun scopes entry => Scopes.define scopes globals entry.1 entry.2) .initial
  ⟨scopes, 0, 0, 0, ""⟩

/-- What holds of a state without bindings and is kept when a builtin or one of the given values is
bound holds before the first statement. -/
theorem start_induction {P : Machine → Prop} {env : List (String × Value)}
    (hinitial : P ⟨.initial, 0, 0, 0, ""⟩)
    (hdefine : ∀ m, P m → ∀ entry, (∃ b, entry.2 = Value.builtin b) ∨ entry ∈ env →
      P { m with scopes := m.scopes.define globals entry.1 entry.2 }) : P (start env) := by
  have hfold (entries : List (String × Value))
      (hentries : ∀ entry ∈ entries, (∃ b, entry.2 = Value.builtin b) ∨ entry ∈ env) (m : Machine)
      (hm : P m) :
      P { m with
        scopes := entries.foldl (fun s entry => s.define globals entry.1 entry.2) m.scopes } := by
    induction entries generalizing m with
    | nil => exact hm
    | cons entry rest ih =>
      have hrest := ih fun e he => hentries e (List.mem_cons_of_mem _ he)
      exact hrest _ (hdefine m hm entry (hentries entry List.mem_cons_self))
  refine hfold _ (fun entry hentry => ?_) _ hinitial
  rcases List.mem_append.1 hentry with hentry | hentry
  · obtain ⟨b, -, rfl⟩ := List.mem_map.1 hentry
    exact .inl ⟨b, rfl⟩
  · exact .inr hentry

/-- The state in which the body of a function runs. -/
def inCall (m : Machine) : Machine :=
  { m with calls := m.calls + 1, deepest := max m.deepest (m.calls + 1) }

end Machine

namespace Eval

/-- Stops with an error under a line. -/
def fail {α : Type} (fault : RuntimeFault) (line : Int) : Eval α := throw (.error ⟨fault, line⟩)

/-- Takes the result of a pure operation, or stops under a line. -/
def lift {α : Type} (line : Int) : Except RuntimeFault α → Eval α
  | .ok value => pure value
  | .error fault => fail fault line

/-- Reading the state leaves it as it is. -/
theorem get_bind_apply {α : Type} (f : Machine → Eval α) (m : Machine) : (get >>= f) m = f m m :=
  rfl

/-- The value of a name. -/
def lookup (scope : ScopeId) (name : String) (line : Int) : Eval Value := do
  match (← get).scopes.lookup? scope name with
  | some value => pure value
  | none => fail (.undefined name) line

/-- Binds a name in a scope. -/
def define (scope : ScopeId) (name : String) (value : Value) : Eval Unit :=
  modify fun m => { m with scopes := m.scopes.define scope name value }

/-- A new scope inside another. -/
def newScope (parent : ScopeId) : Eval ScopeId :=
  modifyGet fun m => let (id, scopes) := m.scopes.child parent; (id, { m with scopes })

/-- A new function, different from all others. -/
def newClosure (name : String) (params : List String) (body : Node) (scope : ScopeId) :
    Eval Closure :=
  modifyGet fun m =>
    (⟨m.functions, name, params, body, scope⟩, { m with functions := m.functions + 1 })

/-- Prints a text. -/
def print (text : String) : Eval Unit := modify fun m => { m with output := m.output ++ text }

/-- Counts a call while it goes on, however it ends. -/
def counted {α : Type} (body : Eval α) : Eval α := fun m =>
  let during := m.calls + 1
  match body { m with calls := during, deepest := max m.deepest during } with
  | .ok value after => .ok value { after with calls := m.calls }
  | .error stop after => .error stop { after with calls := m.calls }

theorem counted_apply {α : Type} (body : Eval α) (m : Machine) :
    counted body m =
      match body m.inCall with
      | .ok value after => .ok value { after with calls := m.calls }
      | .error stop after => .error stop { after with calls := m.calls } :=
  rfl

end Eval
end PageScript
