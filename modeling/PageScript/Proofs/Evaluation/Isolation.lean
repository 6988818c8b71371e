import PageScript.Evaluation

/-!
Isolation of scopes. Evaluating an expression changes no scope that exists already, and executing a
statement changes at most the scope that it runs in: new names go into that one, and blocks, loop
rounds and calls bind in scopes of their own. This holds in every state, whatever closures share its
scopes, and whether the evaluation succeeds or stops.

The proof is a small logic: `Scopes.Grows` says what may have happened between two stores of scopes,
`Eval.Grows` that an evaluation does no more than that, and each operation of the machine has its
rule.
-/
namespace PageScript

/-! ### Growing stores -/

/-- From `s` to `t` no scope is lost, and those where nothing may be bound are as they were. -/
structure Scopes.Grows (mayBind : ScopeId → Prop) (s t : Scopes) : Prop where
  size_le : s.all.size ≤ t.all.size
  same : ∀ id, id < s.all.size → ¬ mayBind id → t.all[id]? = s.all[id]?

namespace Scopes.Grows
variable {mayBind : ScopeId → Prop} {s t u : Scopes}

theorem refl (mayBind : ScopeId → Prop) (s : Scopes) : Grows mayBind s s :=
  ⟨Nat.le_refl _, fun _ _ _ => rfl⟩

theorem trans (h : Grows mayBind s t) (h' : Grows mayBind t u) : Grows mayBind s u := by
  refine ⟨Nat.le_trans h.size_le h'.size_le, fun id hid hout => ?_⟩
  rw [h'.same id (Nat.lt_of_lt_of_le hid h.size_le) hout, h.same id hid hout]

/-- Scopes made after `s` do not count: they may be bound in freely. -/
theorem mono {other : ScopeId → Prop} (h : Grows other s t)
    (hsub : ∀ id, id < s.all.size → other id → mayBind id) : Grows mayBind s t :=
  ⟨h.size_le, fun id hid hout => h.same id hid fun ho => hout (hsub id hid ho)⟩

theorem define (s : Scopes) (scope : ScopeId) (name : String) (value : Value) :
    Grows (· = scope) s (s.define scope name value) := by
  refine ⟨by simp [Scopes.define], fun id _ hne => ?_⟩
  simp [Scopes.define, Array.getElem?_modify, Ne.symm hne]

theorem child (mayBind : ScopeId → Prop) (s : Scopes) (parent : ScopeId) :
    Grows mayBind s (s.child parent).2 := by
  refine ⟨by simp [Scopes.child], fun id hid _ => ?_⟩
  simp [Scopes.child, Array.getElem?_push, Nat.ne_of_lt hid]

end Scopes.Grows

/-! ### Evaluations that let a store grow -/

/-- The state that an evaluation leaves, whether it gives a result or stops. -/
def Eval.after {α : Type} (x : Eval α) (m : Machine) : Machine :=
  match x m with
  | .ok _ after | .error _ after => after

namespace Eval
variable {α β : Type} {x : Eval α} {m m' : Machine} {a : α}

theorem after_congr {y : Eval α} {n : Machine} (h : x m = y n) : x.after m = y.after n := by
  rw [after, after, h]

theorem after_of_ok (h : x m = .ok a m') : x.after m = m' := by rw [after, h]

theorem after_of_error {stop : Stop} (h : x m = .error stop m') : x.after m = m' := by rw [after, h]

theorem bind_apply_of_ok (h : x m = .ok a m') (f : α → Eval β) : (x >>= f) m = f a m' := by
  simp only [Bind.bind, EStateM.bind, h]

theorem bind_apply_of_error {stop : Stop} (h : x m = .error stop m') (f : α → Eval β) :
    (x >>= f) m = .error stop m' := by
  simp only [Bind.bind, EStateM.bind, h]

theorem exists_of_bind_ok {f : α → Eval β} {b : β} (h : (x >>= f) m = .ok b m') :
    ∃ a mid, x m = .ok a mid ∧ f a mid = .ok b m' := by
  cases hx : x m with
  | ok a mid => exact ⟨a, mid, rfl, by rwa [bind_apply_of_ok hx] at h⟩
  | error stop mid =>
    rw [bind_apply_of_error hx] at h
    cases h

theorem after_bind_of_ok (h : x m = .ok a m') (f : α → Eval β) :
    (x >>= f).after m = (f a).after m' := by
  unfold after
  rw [bind_apply_of_ok h]

theorem after_bind_of_error {stop : Stop} (h : x m = .error stop m') (f : α → Eval β) :
    (x >>= f).after m = m' :=
  after_of_error (bind_apply_of_error h f)

theorem after_bind_pure (x : Eval α) (f : α → β) (m : Machine) :
    (x >>= fun a => pure (f a)).after m = x.after m := by
  simp only [after, Bind.bind, EStateM.bind]
  cases x m <;> rfl

theorem after_counted (x : Eval α) (m : Machine) :
    (counted x).after m = { x.after m.inCall with calls := m.calls } := by
  unfold after
  rw [counted_apply]
  cases x m.inCall <;> rfl

end Eval

/-- From every state, an evaluation binds names at most in the given scopes and in new ones. -/
def Eval.Grows {α : Type} (mayBind : ScopeId → Prop) (x : Eval α) : Prop :=
  ∀ m, Scopes.Grows mayBind m.scopes (x.after m).scopes

namespace Eval.Grows
variable {α β : Type} {mayBind : ScopeId → Prop}

theorem pure (a : α) : Grows mayBind (Pure.pure a : Eval α) := fun m => .refl _ m.scopes

theorem throw (stop : Stop) : Grows mayBind (MonadExcept.throw stop : Eval α) :=
  fun m => .refl _ m.scopes

theorem bind {x : Eval α} {f : α → Eval β} (hx : Grows mayBind x)
    (hf : ∀ a, Grows mayBind (f a)) : Grows mayBind (x >>= f) := by
  intro m
  have hxm := hx m
  cases hr : x m with
  | ok a m' =>
    rw [after_of_ok hr] at hxm
    rw [after_bind_of_ok hr]
    exact hxm.trans (hf a m')
  | error stop m' =>
    rw [after_of_error hr] at hxm
    rw [after_bind_of_error hr]
    exact hxm

theorem map {x : Eval α} (f : α → β) (hx : Grows mayBind x) : Grows mayBind (f <$> x) := by
  rw [map_eq_pure_bind]
  exact hx.bind fun a => pure (f a)

theorem mono {other : ScopeId → Prop} {x : Eval α} (hx : Grows other x)
    (hsub : ∀ id, other id → mayBind id) : Grows mayBind x :=
  fun m => (hx m).mono fun id _ => hsub id

/-- What happens in a new scope stays there: none of the older ones is bound in. -/
theorem inNewScope (parent : ScopeId) {f : ScopeId → Eval β}
    (hf : ∀ scope, Grows (· = scope) (f scope)) : Grows mayBind (newScope parent >>= f) := by
  intro m
  have hnew := Scopes.Grows.child mayBind m.scopes parent
  have hrun := hf m.scopes.all.size { m with scopes := (m.scopes.child parent).2 }
  refine ⟨Nat.le_trans hnew.size_le hrun.size_le, fun id hid hout => ?_⟩
  -- The new scope is numbered by the old size, so it is none of the older ones.
  rw [← hnew.same id hid hout]
  exact hrun.same id (Nat.lt_of_lt_of_le hid hnew.size_le) (Nat.ne_of_lt hid)

theorem fail (fault : RuntimeFault) (line : Int) : Grows mayBind (Eval.fail fault line : Eval α) :=
  throw _

theorem lift (line : Int) (r : Except RuntimeFault α) : Grows mayBind (Eval.lift line r) := by
  cases r with
  | ok a => exact pure a
  | error fault => exact fail fault line

theorem get : Grows mayBind (MonadState.get : Eval Machine) := fun m => .refl _ m.scopes

theorem lookup (scope : ScopeId) (name : String) (line : Int) :
    Grows mayBind (Eval.lookup scope name line) := by
  refine bind get fun m => ?_
  split
  · exact pure _
  · exact fail _ _

theorem define (scope : ScopeId) (name : String) (value : Value) :
    Grows (· = scope) (Eval.define scope name value) :=
  fun m => .define m.scopes scope name value

theorem newClosure (name : String) (params : List String) (body : Node) (scope : ScopeId) :
    Grows mayBind (Eval.newClosure name params body scope) := fun m => .refl _ m.scopes

theorem print (text : String) : Grows mayBind (Eval.print text) := fun m => .refl _ m.scopes

theorem counted {body : Eval α} (h : Grows mayBind body) : Grows mayBind (Eval.counted body) := by
  intro m
  rw [after_counted]
  exact h m.inCall

theorem mapM {f : α → Eval β} (items : List α) (hf : ∀ a, Grows mayBind (f a)) :
    Grows mayBind (items.mapM f) := by
  induction items with
  | nil => exact pure []
  | cons a rest ih =>
    rw [List.mapM_cons]
    exact (hf a).bind fun b => ih.bind fun bs => pure (b :: bs)

theorem each {f : α → Eval Completion} (items : List α) (last : Value)
    (hf : ∀ a, Grows mayBind (f a)) : Grows mayBind (Eval.each f last items) := by
  induction items generalizing last with
  | nil => exact pure _
  | cons a rest ih =>
    refine (hf a).bind fun c => ?_
    cases c with
    | completed value => exact ih value
    | returned value => exact pure _

theorem repeatWhile {condition : Eval Value} {body : Eval Completion} (last : Value) (rounds : Nat)
    (hc : Grows mayBind condition) (hb : Grows mayBind body) :
    Grows mayBind (Eval.repeatWhile condition body last rounds) := by
  induction rounds generalizing last with
  | zero => exact throw _
  | succ rounds ih =>
    refine hc.bind fun v => ?_
    split
    · refine hb.bind fun c => ?_
      cases c with
      | completed value => exact ih value
      | returned value => exact pure _
    · exact pure _

theorem bindAll (scope : ScopeId) (params : List String) (args : List Value) :
    Grows (· = scope) (Eval.bindAll scope params args) := by
  induction params generalizing args with
  | nil => exact pure _
  | cons param params ih => exact (define scope param _).bind fun _ => ih args.tail

/-! ### Calls -/

theorem callBuiltin (b : Builtin) (args : List Value) (line : Int) :
    Grows mayBind (b.call args line) := by
  cases b with
  | print => exact (lift line _).bind fun texts => (print _).bind fun _ => pure _
  | len =>
    simp only [Builtin.call]
    split
    · exact pure _
    · exact pure _
    · exact fail _ _
  | str => exact (lift line _).bind fun text => pure _
  | type => exact pure _

/-- A call binds its parameters, and all that the body binds, in a scope of its own. -/
theorem enter {run : ScopeId → Node → Eval Completion}
    (hrun : ∀ scope node, Grows (· = scope) (run scope node)) (f : Closure) (args : List Value) :
    Grows mayBind (f.enter run args) := by
  refine inNewScope f.scope fun scope => (bindAll scope _ _).bind fun _ => ?_
  refine (counted ?_).bind fun c => pure _
  split
  · exact each _ _ (hrun scope)
  · exact throw _

theorem callClosure (limits : Limits) {run : ScopeId → Node → Eval Completion}
    (hrun : ∀ scope node, Grows (· = scope) (run scope node)) (f : Closure) (args : List Value)
    (line : Int) : Grows mayBind (f.call limits run args line) := by
  refine get.bind fun m => ?_
  split
  · exact fail _ _
  · exact enter hrun f args

theorem callValue (limits : Limits) {run : ScopeId → Node → Eval Completion}
    (hrun : ∀ scope node, Grows (· = scope) (run scope node)) (args : List Value) (line : Int)
    (target : Value) : Grows mayBind (target.call limits run args line) := by
  cases target with
  | builtin b => exact callBuiltin b args line
  | closure f => exact callClosure limits hrun f args line
  | _ => exact fail _ line

theorem calleeValue {value : Node → Eval Value} (hvalue : ∀ node, Grows mayBind (value node))
    (callee : Node) : Grows mayBind (PageScript.calleeValue value callee) := by
  simp only [PageScript.calleeValue]
  split
  · exact pure _
  · exact (hvalue callee).map callTarget

end Eval.Grows

/-! ### Expressions and statements -/

mutual

/-- Whether no declaration stands where it would bind in the scope that the node runs in. Blocks
have a scope of their own, and so have the rounds of a `for` loop; the parts of a branch and the
body of a `while` loop have none unless they are blocks, as the reader always makes them. -/
def Node.confined : Node → Bool
  | .binding .. | .function .. => false
  | .branch _ thenPart elsePart _ => thenPart.confined && elseConfined elsePart
  | .whileLoop _ body _ => body.confined
  | _ => true

def Node.elseConfined : Option Node → Bool
  | none => true
  | some part => part.confined

end

namespace Eval.Grows

section
variable {limits : Limits} {depth : Nat}
  (heval : ∀ scope node, Grows (fun _ => False) (evaluate limits depth scope node))
  (hexec : ∀ scope node, Grows (· = scope) (execute limits depth scope node))

include heval hexec in
/-- An expression binds nothing if its parts bind nothing, and the bodies of the functions that it
calls only bind in their own scopes. -/
theorem evaluate_succ (scope : ScopeId) (node : Node) :
    Grows (fun _ => False) (evaluate limits (depth + 1) scope node) := by
  cases node with
  | literal value line => exact pure _
  | identifier name line => exact lookup scope name line
  | template name line => exact lookup scope name line
  | binary operator left right line =>
    exact (heval scope left).bind fun a => (heval scope right).bind fun b => lift line _
  | unary operator operand line => exact (heval scope operand).bind fun a => lift line _
  | call callee args line =>
    exact (calleeValue (heval scope) callee).bind fun target =>
      (mapM args (heval scope)).bind fun values => callValue limits hexec values line target
  | array elements line => exact (mapM elements (heval scope)).bind fun items => pure _
  | object properties line =>
    exact (mapM properties fun entry => (heval scope entry.2).bind fun v => pure _).bind
      fun entries => pure _
  | program | binding | function | branch | forEach | whileLoop | returning | block =>
    exact fail _ _

include hexec in
/-- A block binds in its own scope only. -/
theorem execute_block_succ (scope : ScopeId) (statements : List Node) (line : Int) :
    Grows (fun _ => False) (execute limits (depth + 1) scope (.block statements line)) :=
  inNewScope scope fun inner => each statements _ (hexec inner)

include hexec in
theorem execute_forEach_succ {mayBind : ScopeId → Prop} (scope : ScopeId) (item : String)
    (source body : Node) (line : Int)
    (hsource : Grows mayBind (evaluate limits depth scope source)) :
    Grows mayBind (execute limits (depth + 1) scope (.forEach item source body line)) := by
  refine hsource.bind fun v => ?_
  cases v with
  | array items =>
    exact each items _ fun value => inNewScope scope fun inner =>
      (define inner item value).bind fun _ => hexec inner body
  | _ => exact fail _ line

include heval hexec in
theorem execute_succ (scope : ScopeId) (node : Node) :
    Grows (· = scope) (execute limits (depth + 1) scope node) := by
  have heval' (node : Node) : Grows (· = scope) (evaluate limits depth scope node) :=
    (heval scope node).mono fun _ => False.elim
  cases node with
  | binding name value line =>
    exact (heval' value).bind fun v => (define scope name v).bind fun _ => pure _
  | function name params body line =>
    exact (newClosure name params body scope).bind fun f => (define scope name _).bind fun _ => pure _
  | branch condition thenPart elsePart line =>
    refine (heval' condition).bind fun v => ?_
    split
    · exact hexec scope thenPart
    · cases elsePart with
      | some part => exact hexec scope part
      | none => exact pure _
  | forEach item source body line =>
    exact execute_forEach_succ hexec scope item source body line (heval' source)
  | whileLoop condition body line =>
    exact repeatWhile _ _ (heval' condition) (hexec scope body)
  | returning value line =>
    cases value with
    | some part => exact (heval' part).bind fun v => pure _
    | none => exact pure _
  | block statements line =>
    exact (execute_block_succ hexec scope statements line).mono fun _ => False.elim
  | _ => exact (heval' _).bind fun v => pure _

end

end Eval.Grows

/-- Expressions bind nothing, and statements only in their own scope, at every depth. -/
theorem evaluate_execute_grows (limits : Limits) (depth : Nat) :
    (∀ scope node, Eval.Grows (fun _ => False) (evaluate limits depth scope node)) ∧
      ∀ scope node, Eval.Grows (· = scope) (execute limits depth scope node) := by
  induction depth with
  | zero => exact ⟨fun _ _ => .throw _, fun _ _ => .throw _⟩
  | succ depth ih => exact ⟨.evaluate_succ ih.1 ih.2, .execute_succ ih.1 ih.2⟩

/-- Confined statements bind nothing at all. -/
theorem execute_grows_of_confined (limits : Limits) (depth : Nat) (scope : ScopeId) (node : Node)
    (h : node.confined) : Eval.Grows (fun _ => False) (execute limits depth scope node) := by
  induction depth generalizing node with
  | zero => exact .throw _
  | succ depth ih =>
    obtain ⟨heval, hexec⟩ := evaluate_execute_grows limits depth
    cases node with
    | binding | function => simp [Node.confined] at h
    | branch condition thenPart elsePart line =>
      simp only [Node.confined, Bool.and_eq_true] at h
      refine (heval scope condition).bind fun v => ?_
      split
      · exact ih thenPart h.1
      · cases elsePart with
        | some part => exact ih part h.2
        | none => exact .pure _
    | forEach item source body line =>
      exact .execute_forEach_succ hexec scope item source body line (heval scope source)
    | whileLoop condition body line =>
      exact .repeatWhile _ _ (heval scope condition) (ih body h)
    | returning value line =>
      cases value with
      | some part => exact (heval scope part).bind fun v => .pure _
      | none => exact .pure _
    | block statements line => exact .execute_block_succ hexec scope statements line
    | _ => exact (heval scope _).bind fun v => .pure _

/-- **Isolation of scopes.** Whatever the state, and whether the evaluation succeeds or stops: an
expression leaves every existing scope as it was, so no call changes a binding of its caller or of
the scope that a closure was made in. A statement leaves every existing scope but its own as it was,
and a block, or anything else that is confined, leaves its own too. -/
theorem scopes_isolated (limits : Limits) (depth : Nat) (scope : ScopeId) (node : Node)
    (m : Machine) (id : ScopeId) (hid : id < m.scopes.all.size) :
    ((evaluate limits depth scope node).after m).scopes.all[id]? = m.scopes.all[id]? ∧
      (id ≠ scope →
        ((execute limits depth scope node).after m).scopes.all[id]? = m.scopes.all[id]?) ∧
      (∀ statements line,
        ((execute limits depth scope (.block statements line)).after m).scopes.all[id]? =
          m.scopes.all[id]?) ∧
      (node.confined →
        ((execute limits depth scope node).after m).scopes.all[id]? = m.scopes.all[id]?) := by
  obtain ⟨heval, hexec⟩ := evaluate_execute_grows limits depth
  refine ⟨(heval scope node m).same id hid not_false, (hexec scope node m).same id hid, ?_, ?_⟩
  · intro statements line
    exact (execute_grows_of_confined limits depth scope _ rfl m).same id hid not_false
  · intro h
    exact (execute_grows_of_confined limits depth scope node h m).same id hid not_false

/-- A function that binds `x` again, called where `x` is bound: the outermost scope, which both the
caller and the function see, keeps its binding. -/
theorem scopes_isolated_call :
    let double : Node := .block [.binding "x" (.identifier "n" 2) 2] 1
    let m := Machine.start [("x", .int 1), ("f", .closure ⟨0, "f", ["n"], double, 0⟩)]
    0 < m.scopes.all.size ∧
      ((evaluate {} 9 0 (.call (.identifier "f" 3) [.identifier "x" 3] 3)).after m).scopes.all[0]? =
        m.scopes.all[0]? :=
  ⟨by decide, (scopes_isolated {} 9 0 _ _ 0 (by decide)).1⟩

end PageScript
