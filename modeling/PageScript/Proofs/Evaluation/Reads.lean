import Mathlib.Logic.Relation
import PageScript.Proofs.Evaluation.Failures
import PageScript.Proofs.Evaluation.Pieces
import PageScript.Proofs.Evaluation.Returning
import PageScript.Proofs.Evaluation.TailReturns
import PageScript.Proofs.Scopes

/-!
Names that are read before they are bound. A run goes from its first statement into the parts of
statements and expressions; on its way other names may be bound, scopes made and functions called.
Where it comes to a name that none of the statements behind it has bound, that name means what it
meant when the run began; and if it meant nothing then, the whole run ends there.
-/
namespace PageScript

/-! ### What one name means -/

namespace Scopes
variable {name : String} {s t u : Scopes}

/-- From `s` to `t` no scope is lost, and one name is bound in each of them to what it was bound
to. -/
structure Keeps (name : String) (s t : Scopes) : Prop where
  size_le : s.all.size ≤ t.all.size
  parent? : ∀ id < s.all.size, t.parent? id = s.parent? id
  binding : ∀ id < s.all.size, (t.bindings id).get? name = (s.bindings id).get? name

namespace Keeps

theorem refl (name : String) (s : Scopes) : Keeps name s s :=
  ⟨le_rfl, fun _ _ => rfl, fun _ _ => rfl⟩

theorem trans (h : Keeps name s t) (h' : Keeps name t u) : Keeps name s u := by
  refine ⟨h.size_le.trans h'.size_le, fun id hid => ?_, fun id hid => ?_⟩
  · rw [h'.parent? id (hid.trans_le h.size_le), h.parent? id hid]
  · rw [h'.binding id (hid.trans_le h.size_le), h.binding id hid]

theorem of_grows (h : Grows (fun _ => False) s t) : Keeps name s t := by
  refine ⟨h.size_le, fun id hid => ?_, fun id hid => ?_⟩
  · rw [Scopes.parent?, Scopes.parent?, h.same id hid not_false]
  · rw [bindings, bindings, h.same id hid not_false]

/-- All names are kept by what binds none. -/
theorem of_ok {α : Type} {x : Eval α} (hx : Eval.Grows (fun _ => False) x) {m m' : Machine} {a : α}
    (h : x m = .ok a m') : Keeps name m.scopes m'.scopes := by
  have hgrows := hx m
  rw [Eval.after_of_ok h] at hgrows
  exact of_grows hgrows

/-- Another name may be bound anywhere. -/
theorem define {other : String} (hother : other ≠ name) (s : Scopes) (scope : ScopeId)
    (value : Value) : Keeps name s (s.define scope other value) := by
  refine ⟨(size_define ..).ge, fun id _ => parent?_define .., fun id _ => ?_⟩
  rw [bindings_define]
  split
  · exact Fields.get?_put_of_ne hother.symm _ _
  · rfl

theorem lookup? (h : Keeps name s t) {scope : ScopeId} (hscope : scope < s.all.size) :
    t.lookup? scope name = s.lookup? scope name := by
  induction scope using Nat.strongRecOn with
  | ind scope ih =>
    rw [Scopes.lookup?, Scopes.lookup?, h.binding scope hscope, h.parent? scope hscope]
    cases (s.bindings scope).get? name with
    | some value => rfl
    | none =>
      cases s.parent? scope with
      | none => rfl
      | some outer => exact ih outer.1 outer.2 (outer.2.trans hscope)

end Keeps

/-- In a new scope a name means what it means around it. -/
theorem lookup?_child {parent : ScopeId} (hparent : parent < s.all.size) (name : String) :
    (s.child parent).2.lookup? s.all.size name = s.lookup? parent name := by
  have hbindings : s.bindings s.all.size = [] := by simp [bindings]
  have houter : (s.child parent).2.parent? s.all.size = some ⟨parent, hparent⟩ := by
    simp [parent?, child, hparent]
  rw [Scopes.lookup?, bindings_child, hbindings, houter]
  exact (Keeps.of_grows (.child _ s parent)).lookup? hparent

end Scopes

namespace Node

/-- The name that a node binds in the scope that it runs in. -/
def boundName? : Node → Option String
  | .binding name _ _ | .function name _ _ _ => some name
  | _ => none

/-- The name that an expression looks up. -/
def readName? : Node → Option String
  | .identifier name _ | .template name _ => some name
  | _ => none

/-- The parts of an expression that are asked for their values, in order. The name of a builtin is
not looked up when it is called. -/
def asked : Node → List Node
  | .call callee args _ => if (reservedCallee? callee).isSome then args else callee :: args
  | node => node.operands

theorem asked_subset_operands (node : Node) : node.asked ⊆ node.operands := by
  cases node with
  | call callee args line =>
    rw [asked, operands]
    split
    · exact List.subset_cons_self callee args
    · exact List.Subset.refl _
  | _ => exact List.Subset.refl _

end Node

section
variable {limits : Limits} {name : String}

theorem evaluate_grows (limits : Limits) (depth : Nat) (scope : ScopeId) (node : Node) :
    Eval.Grows (fun _ => False) (evaluate limits depth scope node) :=
  (evaluate_execute_grows limits depth).1 scope node

theorem evaluate_keeps {depth : Nat} {scope : ScopeId} {node : Node} {m m' : Machine} {v : Value}
    (h : evaluate limits depth scope node m = .ok v m') : Scopes.Keeps name m.scopes m'.scopes :=
  .of_ok (evaluate_grows limits depth scope node) h

/-- A round of a `for` loop binds in its own scope only. -/
theorem forEach_round_grows (limits : Limits) (depth : Nat) (scope : ScopeId) (item : String)
    (body : Node) (value : Value) :
    Eval.Grows (fun _ => False) (do
      let inner ← Eval.newScope scope
      Eval.define inner item value
      execute limits depth inner body) :=
  .inNewScope scope fun inner => (Eval.Grows.define inner item value).bind fun _ =>
    (evaluate_execute_grows limits depth).2 inner body

/-- A statement that binds another name or none keeps this one. -/
theorem execute_keeps {node : Node} (hnode : node.WellFormed) (hname : node.boundName? ≠ some name)
    (depth : Nat) (scope : ScopeId) (m : Machine) :
    Scopes.Keeps name m.scopes ((execute limits depth scope node).after m).scopes := by
  rcases hnode.isDeclaration_or_confined with hdeclaration | hconfined
  · cases depth with
    | zero => exact .refl name m.scopes
    | succ depth =>
      cases node with
      | binding other value line =>
        have hvalue : Scopes.Keeps name m.scopes
            ((evaluate limits depth scope value).after m).scopes :=
          .of_grows (evaluate_grows limits depth scope value m)
        have hother : other ≠ name := fun h => hname (congrArg some h)
        rw [execute]
        cases hrun : evaluate limits depth scope value m with
        | ok v m' =>
          rw [Eval.after_of_ok hrun] at hvalue
          rw [Eval.after_bind_of_ok hrun]
          exact hvalue.trans (.define hother m'.scopes scope v)
        | error stop m' =>
          rw [Eval.after_of_error hrun] at hvalue
          rw [Eval.after_bind_of_error hrun]
          exact hvalue
      | function other params body line =>
        have hother : other ≠ name := fun h => hname (congrArg some h)
        exact .define hother m.scopes scope _
      | _ => cases hdeclaration
  · exact .of_grows (execute_grows_of_confined limits depth scope node hconfined m)

/-- So do statements that complete one after another. -/
theorem each_keeps {run : Node → Eval Completion} {statements : List Node}
    (hrun : ∀ statement ∈ statements, ∀ m : Machine,
      Scopes.Keeps name m.scopes ((run statement).after m).scopes)
    {last value : Value} {m m' : Machine}
    (h : Eval.each run last statements m = .ok (.completed value) m') :
    Scopes.Keeps name m.scopes m'.scopes := by
  induction statements generalizing last m with
  | nil =>
    cases h
    exact .refl name _
  | cons statement rest ih =>
    obtain ⟨hstatement, hrest⟩ := List.forall_mem_cons.1 hrun
    obtain ⟨completion, mid, hfirst, h⟩ := Eval.exists_of_bind_ok h
    have hkeeps := hstatement m
    rw [Eval.after_of_ok hfirst] at hkeeps
    cases completion with
    | completed value' => exact hkeeps.trans (ih hrest h)
    | returned value' => cases h

end

/-! ### Operands -/

namespace Eval

/-- Values are asked for under their keys. -/
theorem mapM_properties (f : Node → Eval Value) (properties : List (String × Node)) :
    (properties.mapM fun property => Prod.mk property.1 <$> f property.2) =
      (properties.map (·.1)).zip <$> (properties.map (·.2)).mapM f := by
  induction properties with
  | nil => simp
  | cons property rest ih =>
    simp only [List.mapM_cons, List.map_cons, ih]
    simp

/-- Where asking for a list of values stops at one of them. -/
theorem mapM_error {f : Node → Eval Value} {before : List Node} {part : Node} {values : List Value}
    {m mid m' : Machine} {stop : Stop} (hbefore : before.mapM f m = .ok values mid)
    (hpart : f part mid = .error stop m') (after : List Node) :
    (before ++ part :: after).mapM f m = .error stop m' := by
  rw [List.mapM_append, bind_apply_of_ok hbefore, List.mapM_cons]
  exact bind_apply_of_error (bind_apply_of_error hpart _) _

end Eval

/-- An expression first asks for the values of its parts. -/
theorem exists_evaluate_eq (limits : Limits) (depth : Nat) (scope : ScopeId) {node : Node}
    (hnode : node.isExpression) : ∃ result : List Value → Eval Value,
      evaluate limits (depth + 1) scope node =
        node.asked.mapM (evaluate limits depth scope) >>= result := by
  by_cases hnone : node.asked = []
  · exact ⟨fun _ => evaluate limits (depth + 1) scope node, by simp [hnone]⟩
  cases node with
  | program | binding | function | branch | forEach | whileLoop | returning | block => cases hnode
  | literal | identifier | template => exact absurd rfl hnone
  | binary operator left right line =>
    refine ⟨fun values => Eval.lift line
      (Operators.binary operator (values.getD 0 .null) (values.getD 1 .null)), ?_⟩
    simp [evaluate, Node.asked, Node.operands, List.mapM_cons]
  | unary operator operand line =>
    refine ⟨fun values => Eval.lift line (Operators.unary operator (values.getD 0 .null)), ?_⟩
    simp [evaluate, Node.asked, Node.operands, List.mapM_cons]
  | call callee args line =>
    cases hreserved : reservedCallee? callee with
    | some b =>
      refine ⟨fun values => (Value.builtin b).call limits (execute limits depth) values line, ?_⟩
      simp [evaluate, Node.asked, calleeValue, hreserved]
    | none =>
      refine ⟨fun values => (callTarget (values.getD 0 .null)).call limits (execute limits depth)
        values.tail line, ?_⟩
      simp [evaluate, Node.asked, calleeValue, hreserved, List.mapM_cons]
  | array elements line =>
    refine ⟨fun values => pure (.array values), ?_⟩
    simp [evaluate, Node.asked, Node.operands]
  | object properties line =>
    refine ⟨fun values =>
      pure (.object (Fields.ofList ((properties.map (·.1)).zip values))), ?_⟩
    simp [evaluate, Node.asked, Node.operands, Eval.mapM_properties]

/-- After some rounds that complete, a loop goes on as it would have begun there. -/
theorem Eval.Rounds.exists_repeatWhile_eq {condition : Eval Value} {body : Eval Completion}
    {n : Nat} {m start : Machine} (h : Rounds condition body n m start) {rounds : Nat}
    (hn : n < rounds) (last : Value) :
    ∃ last' left, repeatWhile condition body last rounds m =
      repeatWhile condition body last' (left + 1) start := by
  induction h generalizing last rounds with
  | none m =>
    obtain ⟨left, rfl⟩ := Nat.exists_eq_add_one_of_ne_zero hn.ne'
    exact ⟨last, left, rfl⟩
  | @more n m mid next start c value hc htruthy hbody h ih =>
    obtain ⟨rounds, rfl⟩ := Nat.exists_eq_add_one_of_ne_zero (Nat.ne_zero_of_lt hn)
    obtain ⟨last', left, hlast⟩ := ih (Nat.succ_lt_succ_iff.1 hn) value
    refine ⟨last', left, ?_⟩
    rw [repeatWhile, bind_apply_of_ok hc, if_pos htruthy, bind_apply_of_ok hbody]
    exact hlast

theorem Eval.Rounds.grows {mayBind : ScopeId → Prop} {condition : Eval Value}
    {body : Eval Completion} {n : Nat} {m start : Machine} (h : Rounds condition body n m start)
    (hcondition : Grows mayBind condition) (hbody : Grows mayBind body) :
    Scopes.Grows mayBind m.scopes start.scopes := by
  induction h with
  | none m => exact .refl mayBind m.scopes
  | @more n m mid next start c value hc htruthy hround h ih =>
    have hfirst := hcondition m
    have hsecond := hbody mid
    rw [after_of_ok hc] at hfirst
    rw [after_of_ok hround] at hsecond
    exact (hfirst.trans hsecond).trans ih

/-- The body of a loop is a block, so no round binds a name that the next one could see. -/
theorem rounds_keep {limits : Limits} {name : String} {depth n : Nat} {scope : ScopeId}
    {condition body : Node} {line : Int} {m start : Machine}
    (h : (Node.whileLoop condition body line).WellFormed)
    (hrounds : Eval.Rounds (evaluate limits depth scope condition)
      (execute limits depth scope body) n m start) : Scopes.Keeps name m.scopes start.scopes := by
  have hbody : body.WellFormed := (h.part (by simp [Node.parts])).2
  have hconfined := hbody.confined (Node.isDeclaration_of_isBlock h.hasBlocks)
  exact .of_grows (hrounds.grows (evaluate_grows limits depth scope condition)
    (execute_grows_of_confined limits depth scope body hconfined))

/-! ### Tasks of a run -/

/-- A task of a run: what is about to be done, in which scope and from which state. -/
inductive Task where
  /-- An expression is asked for its value. -/
  | asking (depth : Nat) (scope : ScopeId) (node : Node) (m : Machine)
  /-- A statement is run. -/
  | running (depth : Nat) (scope : ScopeId) (node : Node) (m : Machine)

namespace Task

def node : Task → Node
  | asking _ _ node _ | running _ _ node _ => node

def scope : Task → ScopeId
  | asking _ scope _ _ | running _ scope _ _ => scope

def state : Task → Machine
  | asking _ _ _ m | running _ _ _ m => m

/-- Whether a task ends in an error. -/
def Stops (limits : Limits) (stop : Stop) (after : Machine) : Task → Prop
  | asking depth scope node m => evaluate limits depth scope node m = .error stop after
  | running depth scope node m => execute limits depth scope node m = .error stop after

/-- One task is a part of another, in the same call, and all that comes before it in the other one
has been done. The name is not bound there in a scope that both are in. -/
inductive Leads (limits : Limits) (name : String) : Task → Task → Prop where
  | part {depth : Nat} {scope : ScopeId} {node part : Node} {before after : List Node}
    {values : List Value} {m mid : Machine} (hnode : node.isExpression)
    (hparts : node.asked = before ++ part :: after)
    (hbefore : before.mapM (evaluate limits depth scope) m = .ok values mid) :
    Leads limits name (.asking (depth + 1) scope node m) (.asking depth scope part mid)
  | expression {depth : Nat} {scope : ScopeId} {node : Node} {m : Machine}
    (hnode : node.isExpression) :
    Leads limits name (.running (depth + 1) scope node m) (.asking depth scope node m)
  | operand {depth : Nat} {scope : ScopeId} {node part : Node} {m : Machine}
    (hnode : node.isStatement) (hloop : node.isWhileLoop = false) (hpart : part ∈ node.operands) :
    Leads limits name (.running (depth + 1) scope node m) (.asking depth scope part m)
  | thenPart {depth : Nat} {scope : ScopeId} {condition thenPart : Node} {elsePart : Option Node}
    {line : Int} {m mid : Machine} {c : Value}
    (hc : evaluate limits depth scope condition m = .ok c mid) (htruthy : c.truthy) :
    Leads limits name (.running (depth + 1) scope (.branch condition thenPart elsePart line) m)
      (.running depth scope thenPart mid)
  | elsePart {depth : Nat} {scope : ScopeId} {condition thenPart part : Node} {line : Int}
    {m mid : Machine} {c : Value} (hc : evaluate limits depth scope condition m = .ok c mid)
    (hfalse : c.truthy = false) :
    Leads limits name (.running (depth + 1) scope (.branch condition thenPart (some part) line) m)
      (.running depth scope part mid)
  | block {depth : Nat} {scope inner : ScopeId} {front rest : List Node} {statement : Node}
    {line : Int} {m start mid : Machine} {last : Value}
    (hscope : Eval.newScope scope m = .ok inner start)
    (hfront : Eval.each (execute limits depth inner) .null front start =
      .ok (.completed last) mid)
    (hname : ∀ other ∈ front, other.boundName? ≠ some name) :
    Leads limits name (.running (depth + 1) scope (.block (front ++ statement :: rest) line) m)
      (.running depth inner statement mid)
  | forEach {depth : Nat} {scope inner : ScopeId} {item : String} {source body : Node}
    {line : Int} {front rest : List Value} {value last : Value} {m start mid mid' next : Machine}
    (hsource : evaluate limits depth scope source m = .ok (.array (front ++ value :: rest)) start)
    (hfront : Eval.each (fun value => do
      let inner ← Eval.newScope scope
      Eval.define inner item value
      execute limits depth inner body) .null front start = .ok (.completed last) mid)
    (hscope : Eval.newScope scope mid = .ok inner mid')
    (hdefine : Eval.define inner item value mid' = .ok () next) (hname : item ≠ name) :
    Leads limits name (.running (depth + 1) scope (.forEach item source body line) m)
      (.running depth inner body next)
  | condition {depth n : Nat} {scope : ScopeId} {condition body : Node} {line : Int}
    {m start : Machine} (hn : n < limits.rounds)
    (hrounds : Eval.Rounds (evaluate limits depth scope condition)
      (execute limits depth scope body) n m start) :
    Leads limits name (.running (depth + 1) scope (.whileLoop condition body line) m)
      (.asking depth scope condition start)
  | body {depth n : Nat} {scope : ScopeId} {condition body : Node} {line : Int}
    {m start mid : Machine} {c : Value} (hn : n < limits.rounds)
    (hrounds : Eval.Rounds (evaluate limits depth scope condition)
      (execute limits depth scope body) n m start)
    (hc : evaluate limits depth scope condition start = .ok c mid) (htruthy : c.truthy) :
    Leads limits name (.running (depth + 1) scope (.whileLoop condition body line) m)
      (.running depth scope body mid)

variable {limits : Limits} {name : String} {p q : Task}

/-- A part that stops ends the task that it is a part of. -/
theorem Leads.stops (h : Leads limits name p q) {stop : Stop} {after : Machine}
    (hstop : q.Stops limits stop after) : p.Stops limits stop after := by
  cases h with
  | @part depth scope node part before rest values m mid hnode hparts hbefore =>
    obtain ⟨result, hresult⟩ := exists_evaluate_eq limits depth scope hnode
    have hmap := Eval.mapM_error hbefore hstop rest
    rw [Stops, hresult, hparts]
    exact Eval.bind_apply_of_error hmap _
  | expression hnode =>
    rw [Stops, execute_of_isExpression hnode, map_eq_pure_bind]
    exact Eval.bind_apply_of_error hstop _
  | @operand depth scope node part m hnode hloop hpart =>
    cases node with
    | binding other value line =>
      obtain rfl := List.mem_singleton.1 hpart
      exact Eval.bind_apply_of_error hstop _
    | branch condition thenPart elsePart line =>
      obtain rfl := List.mem_singleton.1 hpart
      exact Eval.bind_apply_of_error hstop _
    | forEach item source body line =>
      obtain rfl := List.mem_singleton.1 hpart
      exact Eval.bind_apply_of_error hstop _
    | returning value line =>
      obtain rfl := Option.mem_toList.1 hpart
      exact Eval.bind_apply_of_error hstop _
    | whileLoop => cases hloop
    | function | block => cases hpart
    | _ => cases hnode
  | thenPart hc htruthy =>
    simp only [Stops, execute]
    rw [Eval.bind_apply_of_ok hc, if_pos htruthy]
    exact hstop
  | elsePart hc hfalse =>
    rw [Stops, execute, Eval.bind_apply_of_ok hc, if_neg (by simp [hfalse])]
    exact hstop
  | @block depth scope inner front rest statement line m start mid last hscope hfront hname =>
    rw [Stops, execute, Eval.bind_apply_of_ok hscope, Eval.each_append,
      Eval.bind_apply_of_ok hfront]
    exact Eval.bind_apply_of_error hstop _
  | forEach hsource hfront hscope hdefine hname =>
    rw [Stops, execute, Eval.bind_apply_of_ok hsource]
    simp only [Eval.each_append]
    rw [Eval.bind_apply_of_ok hfront]
    refine Eval.bind_apply_of_error ?_ _
    beta_reduce
    rw [Eval.bind_apply_of_ok hscope, Eval.bind_apply_of_ok hdefine]
    exact hstop
  | condition hn hrounds =>
    obtain ⟨last, left, hloop⟩ := hrounds.exists_repeatWhile_eq hn .null
    rw [Stops, execute, hloop]
    exact Eval.bind_apply_of_error hstop _
  | body hn hrounds hc htruthy =>
    obtain ⟨last, left, hloop⟩ := hrounds.exists_repeatWhile_eq hn .null
    rw [Stops, execute, hloop, Eval.repeatWhile, Eval.bind_apply_of_ok hc, if_pos htruthy]
    exact Eval.bind_apply_of_error hstop _

theorem stops_of_leads (h : Relation.ReflTransGen (Leads limits name) p q) {stop : Stop}
    {after : Machine} (hstop : q.Stops limits stop after) : p.Stops limits stop after := by
  induction h using Relation.ReflTransGen.head_induction_on with
  | refl => exact hstop
  | head hfirst _ ih => exact hfirst.stops ih

/-- In the scope of a task a name means this. -/
structure Sees (name : String) (meaning : Option Value) (p : Task) : Prop where
  wellFormed : p.node.WellFormed
  inScope : p.scope < p.state.scopes.all.size
  lookup?_eq : p.state.scopes.lookup? p.scope name = meaning

namespace Sees
variable {meaning : Option Value}

/-- In the same scope it means the same as long as it is not bound. -/
theorem of_keeps (hp : p.Sees name meaning) (hnode : q.node.WellFormed) (hscope : q.scope = p.scope)
    (hkeeps : Scopes.Keeps name p.state.scopes q.state.scopes) : q.Sees name meaning := by
  refine ⟨hnode, ?_, ?_⟩
  · rw [hscope]
    exact hp.inScope.trans_le hkeeps.size_le
  · rw [hscope, hkeeps.lookup? hp.inScope, hp.lookup?_eq]

/-- So it does in a new scope inside. -/
theorem of_keeps_child (hp : p.Sees name meaning) (hnode : q.node.WellFormed) {m : Machine}
    (hgrows : Scopes.Keeps name p.state.scopes m.scopes) (hscope : q.scope = m.scopes.all.size)
    (hkeeps : Scopes.Keeps name (m.scopes.child p.scope).2 q.state.scopes) :
    q.Sees name meaning := by
  have hinside : q.scope < (m.scopes.child p.scope).2.all.size := by simp [hscope, Scopes.child]
  refine ⟨hnode, hinside.trans_le hkeeps.size_le, ?_⟩
  rw [hkeeps.lookup? hinside, hscope,
    Scopes.lookup?_child (hp.inScope.trans_le hgrows.size_le), hgrows.lookup? hp.inScope,
    hp.lookup?_eq]

end Sees

/-- A name means in a part what it meant in the task as it began. -/
theorem Leads.sees (h : Leads limits name p q) {meaning : Option Value}
    (hp : p.Sees name meaning) : q.Sees name meaning := by
  cases h with
  | @part depth scope node part before rest values m mid hnode hparts hbefore =>
    have hmem : part ∈ node.asked := by simp [hparts]
    exact hp.of_keeps (hp.wellFormed.operand (node.asked_subset_operands hmem)).2 rfl
      (.of_ok (.mapM before (evaluate_grows limits depth scope)) hbefore)
  | expression hnode => exact hp.of_keeps hp.wellFormed rfl (.refl name _)
  | operand hnode hloop hpart =>
    exact hp.of_keeps (hp.wellFormed.operand hpart).2 rfl (.refl name _)
  | thenPart hc htruthy =>
    exact hp.of_keeps (hp.wellFormed.part (by simp [node, Node.parts])).2 rfl (evaluate_keeps hc)
  | elsePart hc hfalse =>
    exact hp.of_keeps (hp.wellFormed.part (by simp [node, Node.parts])).2 rfl (evaluate_keeps hc)
  | @block depth scope inner front rest statement line m start mid last hscope hfront hname =>
    cases hscope
    have hwell (other : Node) (hother : other ∈ front ++ statement :: rest) : other.WellFormed :=
      (hp.wellFormed.part hother).2
    refine hp.of_keeps_child (hwell statement (by simp)) (.refl name _) rfl ?_
    refine each_keeps (fun other hother => ?_) hfront
    exact execute_keeps (hwell other (by simp [hother])) (hname other hother) depth _
  | @forEach depth scope inner item source body line front rest value last m start mid mid' next
      hsource hfront hscope hdefine hname =>
    cases hscope
    cases hdefine
    have hrounds : Scopes.Keeps name start.scopes mid.scopes :=
      .of_ok (.each front .null (forEach_round_grows limits depth scope item body)) hfront
    have hbody : body.WellFormed := (hp.wellFormed.part (by simp [node, Node.parts])).2
    exact hp.of_keeps_child hbody ((evaluate_keeps hsource).trans hrounds) rfl
      (.define hname _ _ value)
  | condition hn hrounds =>
    exact hp.of_keeps (hp.wellFormed.operand (by simp [node, Node.operands])).2 rfl
      (rounds_keep hp.wellFormed hrounds)
  | body hn hrounds hc htruthy =>
    exact hp.of_keeps (hp.wellFormed.part (by simp [node, Node.parts])).2 rfl
      ((rounds_keep hp.wellFormed hrounds).trans (evaluate_keeps hc))

theorem sees_of_leads (h : Relation.ReflTransGen (Leads limits name) p q) {meaning : Option Value}
    (hp : p.Sees name meaning) : q.Sees name meaning := by
  induction h with
  | refl => exact hp
  | tail _ hlast ih => exact hlast.sees ih

end Task

/-! ### Programs -/

namespace Program

/-- A run of a program comes to a task outside all functions, after statements at the top level that
complete. The name is not bound before in a scope that the task can see. -/
def ComesTo (limits : Limits) (name : String) (program : Program) (before : Machine) (task : Task) :
    Prop :=
  ∃ front statement rest last mid, program.body = front ++ statement :: rest ∧
    Eval.each (executeTop limits) .null front before = .ok (.completed last) mid ∧
    (∀ other ∈ front, other.boundName? ≠ some name) ∧
    Relation.ReflTransGen (Task.Leads limits name)
      (.running limits.nesting Machine.globals statement mid) task

/-- A run of a program reads a name, by this node in this state, that it has not bound yet. -/
structure ReadsUnbound (limits : Limits) (program : Program) (before : Machine) (depth : Nat)
    (scope : ScopeId) (node : Node) (name : String) (m : Machine) : Prop where
  readName?_eq : node.readName? = some name
  comes : program.ComesTo limits name before (.asking (depth + 1) scope node m)

section
variable {limits : Limits} {name : String} {program : Program} {before m : Machine} {depth : Nat}
  {scope : ScopeId} {node : Node}

/-- A task that stops with an error ends the run with it. -/
theorem ComesTo.run_eq {task : Task} (h : program.ComesTo limits name before task)
    {e : RuntimeError} {after : Machine} (hstop : task.Stops limits (.error e) after) :
    program.run limits before = .error (.error e) after := by
  obtain ⟨front, statement, rest, last, mid, hbody, hfront, -, hleads⟩ := h
  have hstatement : execute limits limits.nesting Machine.globals statement mid =
      .error (.error e) after := Task.stops_of_leads hleads hstop
  rw [run, hbody, Eval.each_append]
  refine Eval.bind_apply_of_error ?_ _
  rw [Eval.bind_apply_of_ok hfront]
  exact Eval.bind_apply_of_error (executeTop_of_error hstatement) _

/-- In a task a name means what it meant before the run. -/
theorem ComesTo.lookup?_eq {task : Task} (h : program.ComesTo limits name before task)
    (hwell : ∀ statement ∈ program.body, statement.WellFormed)
    (hbefore : Machine.globals < before.scopes.all.size) :
    task.state.scopes.lookup? task.scope name = before.scopes.lookup? Machine.globals name := by
  obtain ⟨front, statement, rest, last, mid, hbody, hfront, hnames, hleads⟩ := h
  have hkeeps : Scopes.Keeps name before.scopes mid.scopes := by
    refine each_keeps (fun other hother m => ?_) hfront
    rw [after_executeTop]
    exact execute_keeps (hwell other (by simp [hbody, hother])) (hnames other hother) _ _ m
  have hsees : (Task.running limits.nesting Machine.globals statement mid).Sees name
      (before.scopes.lookup? Machine.globals name) :=
    ⟨hwell statement (by simp [hbody]), hbefore.trans_le hkeeps.size_le, hkeeps.lookup? hbefore⟩
  exact (Task.sees_of_leads hleads hsees).lookup?_eq

/-- A node that reads a name gives what the name means, and stops if it means nothing. -/
theorem evaluate_of_readName? (h : node.readName? = some name) (limits : Limits) (depth : Nat)
    (scope : ScopeId) (m : Machine) :
    evaluate limits (depth + 1) scope node m =
      match m.scopes.lookup? scope name with
      | some value => .ok value m
      | none => .error (.error ⟨.undefined name, node.line⟩) m := by
  cases node with
  | identifier other line | template other line =>
    obtain rfl := Option.some.inj h
    exact Eval.lookup_apply scope other line m
  | _ => cases h

/-- **Names mean what they meant before the run.** Where a program that was read, from any state,
comes to a name outside its functions without having bound it, it reads the value that the name had
in the outermost scope when the run began, and leaves the state as it is. If the name had none, the
whole run ends there with an error under the line of the name. -/
theorem ReadsUnbound.read (h : program.ReadsUnbound limits before depth scope node name m)
    {source : String} (hsource : ofSource source = .ok program)
    (hbefore : Machine.globals < before.scopes.all.size) :
    (∀ value, evaluate limits (depth + 1) scope node m = .ok value m ↔
      before.scopes.lookup? Machine.globals name = some value) ∧
    (before.scopes.lookup? Machine.globals name = none →
      program.run limits before = .error (.error ⟨.undefined name, node.line⟩) m) := by
  have hwell (statement : Node) (hmem : statement ∈ program.body) : statement.WellFormed :=
    (wellFormed_of_ofSource hsource statement hmem).2
  have hmeans : m.scopes.lookup? scope name = before.scopes.lookup? Machine.globals name :=
    h.comes.lookup?_eq hwell hbefore
  have heval := evaluate_of_readName? h.readName?_eq limits depth scope m
  rw [hmeans] at heval
  refine ⟨fun value => ?_, fun hnone => ?_⟩
  · rw [heval]
    cases before.scopes.lookup? Machine.globals name <;> simp
  · rw [hnone] at heval
    exact h.comes.run_eq heval

end

end Program
end PageScript
