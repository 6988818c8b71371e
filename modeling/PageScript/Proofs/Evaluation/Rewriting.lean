import PageScript.Evaluation

/-!
Rewriting of programs: of their lines, their lists of statements, and the parameters and bodies of
their functions.
-/
namespace PageScript

/-- A rewriting of syntax trees, from the inside out. What becomes of a function may depend on its
name. -/
structure Rewriting where
  line : Int → Int
  statements : List Node → List Node
  params : String → List String → List String
  body : String → Node → Node

/-! ### Trees -/

namespace Node

mutual

def rewritten (w : Rewriting) : Node → Node
  | .program body line => .program (w.statements (rewrittenAll w body)) (w.line line)
  | .binding name value line => .binding name (rewritten w value) (w.line line)
  | .function name params body line =>
    .function name (w.params name params) (w.body name (rewritten w body)) (w.line line)
  | .branch condition thenPart elsePart line =>
    .branch (rewritten w condition) (rewritten w thenPart) (rewrittenOption w elsePart)
      (w.line line)
  | .forEach item source body line =>
    .forEach item (rewritten w source) (rewritten w body) (w.line line)
  | .whileLoop condition body line =>
    .whileLoop (rewritten w condition) (rewritten w body) (w.line line)
  | .returning value line => .returning (rewrittenOption w value) (w.line line)
  | .block statements line => .block (w.statements (rewrittenAll w statements)) (w.line line)
  | .binary operator left right line =>
    .binary operator (rewritten w left) (rewritten w right) (w.line line)
  | .unary operator operand line => .unary operator (rewritten w operand) (w.line line)
  | .call callee args line => .call (rewritten w callee) (rewrittenAll w args) (w.line line)
  | .identifier name line => .identifier name (w.line line)
  | .literal value line => .literal value (w.line line)
  | .array elements line => .array (rewrittenAll w elements) (w.line line)
  | .object properties line => .object (rewrittenProperties w properties) (w.line line)
  | .template name line => .template name (w.line line)

def rewrittenOption (w : Rewriting) : Option Node → Option Node
  | none => none
  | some node => some (rewritten w node)

def rewrittenAll (w : Rewriting) : List Node → List Node
  | [] => []
  | node :: rest => rewritten w node :: rewrittenAll w rest

def rewrittenProperties (w : Rewriting) : List (String × Node) → List (String × Node)
  | [] => []
  | (key, value) :: rest => (key, rewritten w value) :: rewrittenProperties w rest

end

theorem rewrittenAll_eq_map (w : Rewriting) (nodes : List Node) :
    rewrittenAll w nodes = nodes.map (rewritten w) := by
  induction nodes with
  | nil => rfl
  | cons node rest ih => rw [rewrittenAll, ih, List.map_cons]

theorem rewrittenProperties_eq_map (w : Rewriting) (properties : List (String × Node)) :
    rewrittenProperties w properties =
      properties.map fun entry => (entry.1, entry.2.rewritten w) := by
  induction properties with
  | nil => rfl
  | cons entry rest ih => rw [rewrittenProperties, ih, List.map_cons]

theorem line_rewritten (w : Rewriting) (node : Node) :
    (node.rewritten w).line = w.line node.line := by
  cases node <;> rfl

theorem reservedCallee?_rewritten (w : Rewriting) (node : Node) :
    reservedCallee? (node.rewritten w) = reservedCallee? node := by
  cases node <;> rfl

end Node

def Program.rewritten (w : Rewriting) (program : Program) : Program :=
  ⟨w.statements (Node.rewrittenAll w program.body)⟩

def Stop.rewritten (w : Rewriting) : Stop → Stop
  | error e => error ⟨e.fault, w.line e.line⟩
  | stop => stop

/-! ### Lines -/

/-- Changes lines, and nothing else. -/
def Rewriting.lines (line : Int → Int) : Rewriting where
  line := line
  statements nodes := nodes
  params _ params := params
  body _ body := body

namespace Node

mutual

theorem rewritten_lines_id : ∀ node : Node, node.rewritten (.lines id) = node
  | .program nodes _ | .block nodes _ | .array nodes _ => by
    rw [rewritten, rewrittenAll_lines_id nodes]
    rfl
  | .binding _ node _ | .function _ _ node _ | .unary _ node _ => by
    rw [rewritten, rewritten_lines_id node]
    rfl
  | .branch condition thenPart elsePart _ => by
    rw [rewritten, rewritten_lines_id condition, rewritten_lines_id thenPart,
      rewrittenOption_lines_id elsePart]
    rfl
  | .forEach _ first second _ | .whileLoop first second _ | .binary _ first second _ => by
    rw [rewritten, rewritten_lines_id first, rewritten_lines_id second]
    rfl
  | .returning value _ => by
    rw [rewritten, rewrittenOption_lines_id value]
    rfl
  | .call callee args _ => by
    rw [rewritten, rewritten_lines_id callee, rewrittenAll_lines_id args]
    rfl
  | .object properties _ => by
    rw [rewritten, rewrittenProperties_lines_id properties]
    rfl
  | .identifier .. | .literal .. | .template .. => rfl

theorem rewrittenOption_lines_id :
    ∀ node : Option Node, rewrittenOption (.lines id) node = node
  | none => rfl
  | some node => by rw [rewrittenOption, rewritten_lines_id node]

theorem rewrittenAll_lines_id : ∀ nodes : List Node, rewrittenAll (.lines id) nodes = nodes
  | [] => rfl
  | node :: rest => by
    rw [rewrittenAll, rewritten_lines_id node, rewrittenAll_lines_id rest]

theorem rewrittenProperties_lines_id :
    ∀ properties : List (String × Node), rewrittenProperties (.lines id) properties = properties
  | [] => rfl
  | (key, value) :: rest => by
    rw [rewrittenProperties, rewritten_lines_id value, rewrittenProperties_lines_id rest]

end

end Node

theorem Program.rewritten_lines_id (program : Program) :
    program.rewritten (.lines id) = program :=
  congrArg Program.mk (Node.rewrittenAll_lines_id program.body)

theorem Stop.rewritten_lines_id (stop : Stop) : stop.rewritten (.lines id) = stop := by
  cases stop <;> rfl

end PageScript
