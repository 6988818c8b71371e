import PageScript.Proofs.Evaluation.Policies
import PageScript.Proofs.Evaluation.Rewritten

/-!
Names of variables. A naming gives other names to the variables of programs, and to what is bound in
a state, so that no two of them become one and none becomes a builtin. Names of functions are not
only names of variables: they are shown. So a naming goes through a tree without them, and does the
tree no harm if it leaves them as they are.
-/
namespace PageScript

/-- New names for variables: different ones for different ones, and the old ones for builtins. -/
structure Naming where
  toFun : String → String
  injective : Function.Injective toFun
  builtin : ∀ b : Builtin, toFun b.name = b.name

instance : CoeFun Naming fun _ => String → String := ⟨Naming.toFun⟩

namespace Naming
variable (ρ : Naming)

@[simp] theorem eq_iff {a b : String} : ρ a = ρ b ↔ a = b := ρ.injective.eq_iff

/-- A name is that of a builtin if and only if its new one is. -/
theorem ofName? (name : String) : Builtin.ofName? (ρ name) = Builtin.ofName? name := by
  have hsome (b : Builtin) :
      Builtin.ofName? (ρ name) = some b ↔ Builtin.ofName? name = some b := by
    constructor
    · intro h
      have hname := Builtin.name_of_ofName? h
      rw [← ρ.builtin b, ρ.eq_iff] at hname
      rw [← hname, Builtin.ofName?_name]
    · intro h
      rw [← Builtin.name_of_ofName? h, ρ.builtin, Builtin.ofName?_name]
  exact Option.ext hsome

end Naming

/-! ### Trees -/

namespace Node

mutual

/-- The tree with new names for its variables: for those bound by statements, parameters and loops,
and for those that expressions ask for. Names of functions and keys of objects stay. -/
def named (ρ : Naming) : Node → Node
  | .program body line => .program (namedAll ρ body) line
  | .binding name value line => .binding (ρ name) (named ρ value) line
  | .function name params body line => .function name (params.map ρ) (named ρ body) line
  | .branch condition thenPart elsePart line =>
    .branch (named ρ condition) (named ρ thenPart) (namedOption ρ elsePart) line
  | .forEach item source body line => .forEach (ρ item) (named ρ source) (named ρ body) line
  | .whileLoop condition body line => .whileLoop (named ρ condition) (named ρ body) line
  | .returning value line => .returning (namedOption ρ value) line
  | .block statements line => .block (namedAll ρ statements) line
  | .binary operator left right line => .binary operator (named ρ left) (named ρ right) line
  | .unary operator operand line => .unary operator (named ρ operand) line
  | .call callee args line => .call (named ρ callee) (namedAll ρ args) line
  | .identifier name line => .identifier (ρ name) line
  | .literal value line => .literal value line
  | .array elements line => .array (namedAll ρ elements) line
  | .object properties line => .object (namedProperties ρ properties) line
  | .template name line => .template (ρ name) line

def namedOption (ρ : Naming) : Option Node → Option Node
  | none => none
  | some node => some (named ρ node)

def namedAll (ρ : Naming) : List Node → List Node
  | [] => []
  | node :: rest => named ρ node :: namedAll ρ rest

def namedProperties (ρ : Naming) : List (String × Node) → List (String × Node)
  | [] => []
  | (key, value) :: rest => (key, named ρ value) :: namedProperties ρ rest

end

variable (ρ : Naming)

theorem namedAll_eq_map (nodes : List Node) : namedAll ρ nodes = nodes.map (named ρ) := by
  induction nodes with
  | nil => rfl
  | cons node rest ih => rw [namedAll, ih, List.map_cons]

theorem namedProperties_eq_map (properties : List (String × Node)) :
    namedProperties ρ properties = properties.map fun entry => (entry.1, entry.2.named ρ) := by
  induction properties with
  | nil => rfl
  | cons entry rest ih => rw [namedProperties, ih, List.map_cons]

@[simp] theorem line_named (node : Node) : (node.named ρ).line = node.line := by
  cases node <;> rfl

theorem reservedCallee?_named (node : Node) :
    reservedCallee? (node.named ρ) = reservedCallee? node := by
  cases node with
  | identifier name line => exact ρ.ofName? name
  | _ => rfl

/-- The name that a function is declared under. -/
def declared? : Node → Option String
  | .function name _ _ _ => some name
  | _ => none

end Node

namespace Naming

/-- All functions declared in a tree keep their names. -/
def Keeps (ρ : Naming) (node : Node) : Prop := ∀ n ∈ node.nodes, ∀ name ∈ n.declared?, ρ name = name

theorem Keeps.of_child {ρ : Naming} {node child : Node} (h : ρ.Keeps node)
    (hchild : child ∈ node.children) : ρ.Keeps child :=
  fun n hn => h n (Node.nodes_subset hchild hn)

end Naming

/-! ### Values -/

def Closure.named (ρ : Naming) (f : Closure) : Closure :=
  { f with params := f.params.map ρ, body := f.body.named ρ }

/-- What the variables of a function are called shows in no operation on values. -/
def Naming.functionMap (ρ : Naming) : FunctionMap where
  toFun := Closure.named ρ
  name _ := rfl
  id _ _ := Iff.rfl

/-- The value with new names for the variables of all functions in it. -/
abbrev Value.named (ρ : Naming) : Value → Value := Value.mapped ρ.functionMap

/-- The change of states that a naming makes. -/
def Naming.states (ρ : Naming) : StateMap := ⟨ρ.functionMap, ρ, ρ.injective⟩

/-- A named value with a new name. -/
abbrev Naming.entry (ρ : Naming) : String × Value → String × Value := ρ.states.entry

/-- Only functions whose bodies keep the names of the functions declared in them. -/
def Naming.policy (ρ : Naming) : Policy := ⟨fun f => ρ.Keeps f.body, fun _ => True⟩

/-! ### States -/

def Machine.named (ρ : Naming) : Machine → Machine := Machine.mapped ρ.states

/-- Before the first statement the builtins have the same names, and what is given has new ones. -/
theorem Machine.start_named (ρ : Naming) (env : List (String × Value)) :
    (start env).named ρ = start (env.map ρ.entry) := by
  have hfold (entries : List (String × Value)) (s : Scopes) :
      (entries.foldl (fun s entry => s.define globals entry.1 entry.2) s).mapped ρ.states =
        (entries.map ρ.entry).foldl (fun s entry => s.define globals entry.1 entry.2)
          (s.mapped ρ.states) := by
    induction entries generalizing s with
    | nil => rfl
    | cons entry rest ih =>
      rw [List.map_cons, List.foldl_cons, List.foldl_cons, ih, Scopes.define_mapped]
      rfl
  have hbuiltins : (Builtin.all.map fun b => (b.name, Value.builtin b)).map ρ.entry =
      Builtin.all.map fun b => (b.name, Value.builtin b) := by
    rw [List.map_map]
    refine List.map_congr_left fun b _ => ?_
    show (ρ b.name, Value.builtin b) = (b.name, Value.builtin b)
    rw [ρ.builtin]
  have hinitial : Scopes.initial.mapped ρ.states = Scopes.initial := by
    simp [Scopes.mapped, Scopes.initial, Scope.mapped]
  simp only [start, named, mapped, hfold, List.map_append, hbuiltins, hinitial]

/-! ### Reasons to stop -/

/-- Of all faults only that of an unknown name tells one. -/
def RuntimeFault.named (ρ : Naming) : RuntimeFault → RuntimeFault
  | undefined name => undefined (ρ name)
  | fault => fault

def Stop.named (ρ : Naming) : Stop → Stop
  | error e => error ⟨e.fault.named ρ, e.line⟩
  | stop => stop

/-- How an evaluation concludes, with new names: in the value, in the state, and in the fault if it
is that of an unknown name. -/
def Conclusion.named {α β : Type} (ρ : Naming) (name : α → β) : Conclusion α → Conclusion β :=
  Conclusion.mapped ρ.states (Stop.named ρ) name

end PageScript
