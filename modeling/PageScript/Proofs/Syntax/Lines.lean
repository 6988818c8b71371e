import PageScript.Node

/-!
Syntax trees apart from their lines: two trees are the same up to lines if they become the same when
all lines are forgotten.
-/
namespace PageScript
namespace Node

mutual

/-- The tree with all its lines set to zero. -/
def unlined : Node → Node
  | .program body _ => .program (unlinedAll body) 0
  | .binding name value _ => .binding name (unlined value) 0
  | .function name params body _ => .function name params (unlined body) 0
  | .branch condition thenPart elsePart _ =>
    .branch (unlined condition) (unlined thenPart) (unlinedOption elsePart) 0
  | .forEach item source body _ => .forEach item (unlined source) (unlined body) 0
  | .whileLoop condition body _ => .whileLoop (unlined condition) (unlined body) 0
  | .returning value _ => .returning (unlinedOption value) 0
  | .block statements _ => .block (unlinedAll statements) 0
  | .binary operator left right _ => .binary operator (unlined left) (unlined right) 0
  | .unary operator operand _ => .unary operator (unlined operand) 0
  | .call callee args _ => .call (unlined callee) (unlinedAll args) 0
  | .identifier name _ => .identifier name 0
  | .literal value _ => .literal value 0
  | .array elements _ => .array (unlinedAll elements) 0
  | .object properties _ => .object (unlinedProperties properties) 0
  | .template name _ => .template name 0

def unlinedOption : Option Node → Option Node
  | none => none
  | some node => some (unlined node)

def unlinedAll : List Node → List Node
  | [] => []
  | node :: rest => unlined node :: unlinedAll rest

def unlinedProperties : List (String × Node) → List (String × Node)
  | [] => []
  | (key, value) :: rest => (key, unlined value) :: unlinedProperties rest

end

theorem unlinedAll_eq_map (nodes : List Node) : unlinedAll nodes = nodes.map unlined := by
  induction nodes with
  | nil => rfl
  | cons node nodes ih => rw [unlinedAll, ih, List.map_cons]

theorem unlinedProperties_eq_map (properties : List (String × Node)) :
    unlinedProperties properties = properties.map fun entry => (entry.1, entry.2.unlined) := by
  induction properties with
  | nil => rfl
  | cons entry rest ih => rw [unlinedProperties, ih, List.map_cons]

@[simp] theorem unlinedAll_reverse (nodes : List Node) :
    unlinedAll nodes.reverse = (unlinedAll nodes).reverse := by
  rw [unlinedAll_eq_map, unlinedAll_eq_map, List.map_reverse]

@[simp] theorem unlinedProperties_reverse (properties : List (String × Node)) :
    unlinedProperties properties.reverse = (unlinedProperties properties).reverse := by
  rw [unlinedProperties_eq_map, unlinedProperties_eq_map, List.map_reverse]

end Node

/-- The program with all its lines set to zero. -/
def Program.unlined (program : Program) : Program := ⟨Node.unlinedAll program.body⟩

end PageScript
