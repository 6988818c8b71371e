import PageScript.Node

/-!
Syntax trees and their parts. Some parts of a node are asked for their values when the node is run,
others are run as statements, and the body of a function is kept for its calls. A node is regular
if each part is of the kind that its place asks for, and a tree is so throughout if all of its nodes
are.
-/
namespace PageScript
namespace Node

/-! ### Forms of nodes -/

/-- Whether a node is run as a statement by itself, and is no expression. -/
def isStatement : Node → Bool
  | .binding .. | .function .. | .branch .. | .forEach .. | .whileLoop .. | .returning ..
  | .block .. => true
  | _ => false

def isExpression : Node → Bool
  | .binary .. | .unary .. | .call .. | .identifier .. | .literal .. | .array .. | .object ..
  | .template .. => true
  | _ => false

def isBlock : Node → Bool
  | .block .. => true
  | _ => false

def isBranch : Node → Bool
  | .branch .. => true
  | _ => false

def isWhileLoop : Node → Bool
  | .whileLoop .. => true
  | _ => false

/-! ### Parts -/

/-- The parts that are asked for their values when a node is run. -/
def operands : Node → List Node
  | .binding _ value _ => [value]
  | .branch condition _ _ _ | .whileLoop condition _ _ => [condition]
  | .forEach _ source _ _ => [source]
  | .returning value _ => value.toList
  | .binary _ left right _ => [left, right]
  | .unary _ operand _ => [operand]
  | .call callee args _ => callee :: args
  | .array elements _ => elements
  | .object properties _ => properties.map (·.2)
  | _ => []

/-- The parts that are run as statements when a node is run. -/
def parts : Node → List Node
  | .program body _ => body
  | .branch _ thenPart elsePart _ => thenPart :: elsePart.toList
  | .forEach _ _ body _ | .whileLoop _ body _ => [body]
  | .block statements _ => statements
  | _ => []

/-- The body of a function. -/
def body? : Node → Option Node
  | .function _ _ body _ => some body
  | _ => none

def children (node : Node) : List Node := node.operands ++ node.parts ++ node.body?.toList

theorem mem_children_of_operand {node child : Node} (h : child ∈ node.operands) :
    child ∈ node.children :=
  List.mem_append_left _ (List.mem_append_left _ h)

theorem mem_children_of_part {node child : Node} (h : child ∈ node.parts) :
    child ∈ node.children :=
  List.mem_append_left _ (List.mem_append_right _ h)

theorem mem_children_of_body {node child : Node} (h : node.body? = some child) :
    child ∈ node.children := by
  apply List.mem_append_right
  rw [h]
  exact List.mem_singleton.2 rfl

/-! ### All nodes of a tree -/

mutual

/-- A node and all nodes below it. -/
def nodes : Node → List Node
  | .program body line => .program body line :: nodesAll body
  | .binding name value line => .binding name value line :: nodes value
  | .function name params body line => .function name params body line :: nodes body
  | .branch condition thenPart elsePart line =>
    .branch condition thenPart elsePart line ::
      (nodes condition ++ (nodes thenPart ++ nodesOption elsePart))
  | .forEach item source body line => .forEach item source body line :: (nodes source ++ nodes body)
  | .whileLoop condition body line =>
    .whileLoop condition body line :: (nodes condition ++ nodes body)
  | .returning value line => .returning value line :: nodesOption value
  | .block statements line => .block statements line :: nodesAll statements
  | .binary operator left right line =>
    .binary operator left right line :: (nodes left ++ nodes right)
  | .unary operator operand line => .unary operator operand line :: nodes operand
  | .call callee args line => .call callee args line :: (nodes callee ++ nodesAll args)
  | .identifier name line => [.identifier name line]
  | .literal value line => [.literal value line]
  | .array elements line => .array elements line :: nodesAll elements
  | .object properties line => .object properties line :: nodesProperties properties
  | .template name line => [.template name line]

def nodesOption : Option Node → List Node
  | none => []
  | some node => nodes node

def nodesAll : List Node → List Node
  | [] => []
  | node :: rest => nodes node ++ nodesAll rest

def nodesProperties : List (String × Node) → List Node
  | [] => []
  | (_, value) :: rest => nodes value ++ nodesProperties rest

end

theorem nodesAll_eq_flatMap (list : List Node) : nodesAll list = list.flatMap nodes := by
  induction list with
  | nil => rfl
  | cons node rest ih => rw [nodesAll, ih, List.flatMap_cons]

/-- The nodes of a tree are its root and the nodes of its parts. -/
theorem nodes_eq (node : Node) : node.nodes = node :: node.children.flatMap nodes := by
  have hproperties (properties : List (String × Node)) :
      nodesProperties properties = (properties.map (·.2)).flatMap nodes := by
    induction properties with
    | nil => rfl
    | cons property rest ih => rw [nodesProperties, ih, List.map_cons, List.flatMap_cons]
  have hoption (value : Option Node) : nodesOption value = value.toList.flatMap nodes := by
    cases value <;> simp [nodesOption]
  cases node <;>
    simp [nodes, children, operands, parts, body?, nodesAll_eq_flatMap, hproperties, hoption]

theorem mem_nodes_self (node : Node) : node ∈ node.nodes := by
  rw [nodes_eq]
  exact List.mem_cons_self

theorem nodes_subset {node child : Node} (h : child ∈ node.children) :
    child.nodes ⊆ node.nodes := by
  intro n hn
  rw [nodes_eq node]
  exact List.mem_cons_of_mem _ (List.mem_flatMap.2 ⟨child, h, hn⟩)

/-- How many nodes a tree has. -/
def size (node : Node) : Nat := node.nodes.length

theorem size_le_of_mem {list : List Node} {node : Node} (h : node ∈ list) :
    node.size ≤ (list.flatMap nodes).length := by
  rw [List.flatMap_def]
  exact (List.sublist_flatten_of_mem (List.mem_map.2 ⟨node, h, rfl⟩)).length_le

/-- A part is smaller than the whole. -/
theorem size_lt_of_mem_children {node child : Node} (h : child ∈ node.children) :
    child.size < node.size := by
  have hle := size_le_of_mem h
  have hsize : node.size = (node.children.flatMap nodes).length + 1 := by
    rw [size, nodes_eq node, List.length_cons]
  omega

end Node

/-- All nodes of a program. -/
def Program.nodes (program : Program) : List Node := Node.nodesAll program.body

theorem Program.nodes_subset {program : Program} {statement : Node} (h : statement ∈ program.body) :
    statement.nodes ⊆ program.nodes := by
  intro n hn
  rw [nodes, Node.nodesAll_eq_flatMap]
  exact List.mem_flatMap.2 ⟨statement, h, hn⟩

theorem Program.size_le_of_mem {program : Program} {statement : Node}
    (h : statement ∈ program.body) : statement.size ≤ program.nodes.length := by
  rw [nodes, Node.nodesAll_eq_flatMap]
  exact Node.size_le_of_mem h

end PageScript
