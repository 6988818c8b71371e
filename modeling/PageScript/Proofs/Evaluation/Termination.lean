import PageScript.Proofs.Errors
import PageScript.Proofs.Evaluation.Agreement
import PageScript.Proofs.Evaluation.Faults

/-!
Programs without `while` loops end. A `for` loop has as many rounds as its array has items, and
every other step goes to a smaller part, but for a call, which goes to the body of a function made
by a program of the session. As only so many calls may go on at once, so many nested steps are
enough: twice the size of the node, and for every call that is left twice the size of all programs.
-/
namespace PageScript

/-! ### Trees without `while` loops -/

/-- A tree in which there is no `while` loop, and the body of every function is a block. -/
def Node.WhileFree (node : Node) : Prop :=
  ∀ n ∈ node.nodes, n.isWhileLoop = false ∧ n.body?.all Node.isBlock

namespace Node.WhileFree
variable {node : Node}

theorem child (h : node.WhileFree) {child : Node} (hchild : child ∈ node.children) :
    child.WhileFree :=
  fun n hn => h n (nodes_subset hchild hn)

theorem isWhileLoop (h : node.WhileFree) : node.isWhileLoop = false :=
  (h node node.mem_nodes_self).1

theorem isBlock_body (h : node.WhileFree) {body : Node} (hbody : node.body? = some body) :
    body.isBlock := by
  have hall := (h node node.mem_nodes_self).2
  rw [hbody] at hall
  exact hall

end Node.WhileFree

/-- A function with a body of at most that size, that stands among the nodes and is without `while`
loops. -/
structure Closure.WhileFree (nodes : List Node) (size : Nat) (f : Closure) : Prop where
  isBlock : f.body.isBlock
  size_le : f.body.size ≤ size
  body : f.body.WhileFree
  subset : f.body.nodes ⊆ nodes

/-! ### What errors tell -/

/-- An error under the line of one of the nodes. If it is one of the call depth, it names the
limit. -/
structure RuntimeError.OfNodes (limit : Int) (nodes : List Node) (e : RuntimeError) : Prop where
  exists_line : ∃ node ∈ nodes, node.line = e.line
  limit_eq : ∀ limit' name, e.fault = .callDepth limit' name → limit' = limit

/-- Such an error is raised unless its line is too long, or the limit that it names. -/
theorem RuntimeError.OfNodes.raisedUnless {limit : Int} {nodes : List Node} {e : RuntimeError}
    (h : e.OfNodes limit nodes) :
    RaisedUnless (Number.IsLong e.line ∨
      Number.IsLong limit ∧ ∃ name, e.fault = .callDepth limit name) e.raised? e.report := by
  refine e.raisedUnless.congr (or_congr_right ⟨?_, ?_⟩)
  · rintro ⟨limit', name, hfault, hlong⟩
    obtain rfl := h.limit_eq limit' name hfault
    exact ⟨hlong, name, hfault⟩
  · rintro ⟨hlong, name, hfault⟩
    exact ⟨limit, name, hfault, hlong⟩

/-! ### Enough nested steps -/

/-- How many nested steps are enough for the value of a node if so many more calls may go on, of
functions with bodies of at most that size. -/
def Node.steps (size calls : Nat) (node : Node) : Nat := 2 * node.size + calls * (2 * size + 2)

/-- A tree of the nodes without `while` loops, for which so many nested steps are enough while so
many calls go on, with some to spare, or for which stopping for want of them is allowed. -/
structure Node.Bounded (limit : Int) (nodes : List Node) (deep : Prop) (spare calls depth : Nat)
    (node : Node) : Prop where
  free : node.WhileFree
  subset : node.nodes ⊆ nodes
  size_le : node.size ≤ nodes.length
  steps_lt : ¬ deep → node.steps nodes.length (limit - calls).toNat + spare < depth

namespace Node.Bounded

variable {limit : Int} {nodes : List Node} {deep : Prop} {spare calls depth : Nat} {node : Node}

theorem weaken (h : node.Bounded limit nodes deep 1 calls depth) :
    node.Bounded limit nodes deep 0 calls depth :=
  ⟨h.free, h.subset, h.size_le, fun hdeep => Nat.lt_of_succ_lt (h.steps_lt hdeep)⟩

/-- A child is smaller, so that one nested step less is enough, even with one to spare. -/
theorem child (h : node.Bounded limit nodes deep spare calls (depth + 1)) {child : Node}
    (hchild : child ∈ node.children) : child.Bounded limit nodes deep 1 calls depth := by
  have hlt := Node.size_lt_of_mem_children hchild
  have hsize := h.size_le
  refine ⟨h.free.child hchild, List.Subset.trans (nodes_subset hchild) h.subset, by omega,
    fun hdeep => ?_⟩
  have hsteps := h.steps_lt hdeep
  unfold Node.steps at hsteps ⊢
  omega

/-- A function that is made has its body from the same nodes. -/
theorem function {name : String} {params : List String} {body : Node} {line : Int}
    (h : (Node.function name params body line).Bounded limit nodes deep spare calls depth)
    (id : Nat) (scope : ScopeId) :
    Closure.WhileFree nodes nodes.length ⟨id, name, params, body, scope⟩ := by
  have hchild : body ∈ (Node.function name params body line).children :=
    Node.mem_children_of_body rfl
  have hlt := Node.size_lt_of_mem_children hchild
  exact ⟨h.free.isBlock_body rfl, Nat.le_trans (Nat.le_of_lt hlt) h.size_le, h.free.child hchild,
    List.Subset.trans (nodes_subset hchild) h.subset⟩

end Node.Bounded

/-- How many nested steps are enough for programs without `while` loops. -/
def Session.steps (callDepth : Int) (programs : List Program) : Nat :=
  let size := (programs.flatMap Program.nodes).length
  2 * size + callDepth.toNat * (2 * size + 2) + 2

theorem Session.size_le_of_mem {programs : List Program} {program : Program}
    (hprogram : program ∈ programs) {statement : Node} (h : statement ∈ program.body) :
    statement.size ≤ (programs.flatMap Program.nodes).length := by
  rw [List.flatMap_def]
  have hmem : program.nodes ∈ programs.map Program.nodes :=
    List.mem_map.2 ⟨program, hprogram, rfl⟩
  exact Nat.le_trans (program.size_le_of_mem h) (List.sublist_flatten_of_mem hmem).length_le

end PageScript
