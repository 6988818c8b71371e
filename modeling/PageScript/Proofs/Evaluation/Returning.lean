import PageScript.Proofs.Evaluation.Agreement
import PageScript.Proofs.Evaluation.Loops
import PageScript.Proofs.Evaluation.Simulation
import PageScript.Proofs.Syntax.Trees

/-!
How far a `return` goes. A statement returns exactly if the run of it reaches a `return` that stands
in it, outside the functions that it declares. All blocks, branches and loops around end there, and
so does the call, whose value it gives; what has called goes on.
-/
namespace PageScript

/-! ### Lists and loops -/

namespace Eval
variable {v : Value} {m m' : Machine}

/-- Doing something for each of a list returns if it returns for one of the items, and has completed
for those before. -/
theorem each_returned_iff {α : Type} {f : α → Eval Completion} {last : Value} {items : List α} :
    each f last items m = .ok (.returned v) m' ↔
      ∃ front item rest value mid, items = front ++ item :: rest ∧
        each f last front m = .ok (.completed value) mid ∧ f item mid = .ok (.returned v) m' := by
  induction items generalizing last m with
  | nil =>
    constructor
    · intro h
      cases h
    · rintro ⟨front, item, rest, -, -, hitems, -⟩
      simp at hitems
  | cons a items ih =>
    constructor
    · intro h
      obtain ⟨completion, mid, ha, h⟩ := exists_of_bind_ok h
      cases completion with
      | returned value =>
        cases h
        exact ⟨[], a, items, last, m, rfl, rfl, ha⟩
      | completed value =>
        obtain ⟨front, item, rest, value', mid', rfl, hfront, hitem⟩ := ih.1 h
        refine ⟨a :: front, item, rest, value', mid', rfl, ?_, hitem⟩
        rw [each, bind_apply_of_ok ha]
        exact hfront
    · rintro ⟨front, item, rest, value, mid, hitems, hfront, hitem⟩
      cases front with
      | nil =>
        cases hfront
        obtain ⟨rfl, rfl⟩ := List.cons.inj hitems
        rw [each, bind_apply_of_ok hitem]
        rfl
      | cons b front =>
        obtain ⟨rfl, rfl⟩ := List.cons.inj hitems
        obtain ⟨completion, mid', ha, hfront⟩ := exists_of_bind_ok hfront
        cases completion with
        | returned value => cases hfront
        | completed value' =>
          rw [each, bind_apply_of_ok ha]
          exact ih.2 ⟨front, item, rest, value, mid, rfl, hfront, hitem⟩

/-- A number of rounds in which the condition holds and the body completes, from one state to
another. -/
inductive Rounds (condition : Eval Value) (body : Eval Completion) : Nat → Machine → Machine → Prop
  | none (m : Machine) : Rounds condition body 0 m m
  | more {n : Nat} {m mid next m' : Machine} {c value : Value} (hc : condition m = .ok c mid)
    (htruthy : c.truthy) (hbody : body mid = .ok (.completed value) next)
    (h : Rounds condition body n next m') : Rounds condition body (n + 1) m m'

/-- A loop returns if its body returns in one of the rounds, and has completed in those before. -/
theorem repeatWhile_returned_iff {condition : Eval Value} {body : Eval Completion} {last : Value}
    {rounds : Nat} :
    repeatWhile condition body last rounds m = .ok (.returned v) m' ↔
      ∃ n start c mid, n < rounds ∧ Rounds condition body n m start ∧
        condition start = .ok c mid ∧ c.truthy ∧ body mid = .ok (.returned v) m' := by
  induction rounds generalizing last m with
  | zero =>
    constructor
    · intro h
      cases h
    · rintro ⟨n, -, -, -, hn, -⟩
      omega
  | succ rounds ih =>
    constructor
    · intro h
      obtain ⟨c, mid, hc, h⟩ := exists_of_bind_ok h
      cases htruthy : c.truthy with
      | false =>
        rw [htruthy] at h
        cases h
      | true =>
        rw [htruthy] at h
        obtain ⟨completion, next, hbody, h⟩ := exists_of_bind_ok h
        cases completion with
        | returned value =>
          cases h
          exact ⟨0, m, c, mid, by omega, .none m, hc, htruthy, hbody⟩
        | completed value =>
          obtain ⟨n, start, c', mid', hn, hrounds, hc', htruthy', hbody'⟩ := ih.1 h
          exact ⟨n + 1, start, c', mid', by omega, .more hc htruthy hbody hrounds, hc', htruthy',
            hbody'⟩
    · rintro ⟨n, start, c, mid, hn, hrounds, hc, htruthy, hbody⟩
      cases hrounds with
      | none =>
        rw [repeatWhile, bind_apply_of_ok hc, if_pos htruthy, bind_apply_of_ok hbody]
        rfl
      | more hc' htruthy' hbody' hrounds =>
        rw [repeatWhile, bind_apply_of_ok hc', if_pos htruthy', bind_apply_of_ok hbody']
        exact ih.2 ⟨_, start, c, mid, by omega, hrounds, hc, htruthy, hbody⟩

end Eval

/-! ### Statements -/

/-- The run of a statement reaches a `return` in it: what comes before completes, and the value of
the `return` is found in the last state. There is no rule for expressions, bindings and functions,
so the `return` is never one of another call. -/
inductive Reaches (limits : Limits) :
    (depth : Nat) → ScopeId → Node → Machine → Value → Machine → Prop
  | nothing {depth : Nat} {scope : ScopeId} {line : Int} {m : Machine} :
    Reaches limits (depth + 1) scope (.returning none line) m .null m
  | value {depth : Nat} {scope : ScopeId} {part : Node} {line : Int} {m m' : Machine} {v : Value}
    (hpart : evaluate limits depth scope part m = .ok v m') :
    Reaches limits (depth + 1) scope (.returning (some part) line) m v m'
  | thenPart {depth : Nat} {scope : ScopeId} {condition thenPart : Node} {elsePart : Option Node}
    {line : Int} {m mid m' : Machine} {c v : Value}
    (hc : evaluate limits depth scope condition m = .ok c mid) (htruthy : c.truthy)
    (h : Reaches limits depth scope thenPart mid v m') :
    Reaches limits (depth + 1) scope (.branch condition thenPart elsePart line) m v m'
  | elsePart {depth : Nat} {scope : ScopeId} {condition thenPart part : Node} {line : Int}
    {m mid m' : Machine} {c v : Value} (hc : evaluate limits depth scope condition m = .ok c mid)
    (hfalse : c.truthy = false) (h : Reaches limits depth scope part mid v m') :
    Reaches limits (depth + 1) scope (.branch condition thenPart (some part) line) m v m'
  | block {depth : Nat} {scope inner : ScopeId} {front rest : List Node} {statement : Node}
    {line : Int} {m start mid m' : Machine} {last v : Value}
    (hscope : Eval.newScope scope m = .ok inner start)
    (hfront : Eval.each (execute limits depth inner) .null front start =
      .ok (.completed last) mid)
    (h : Reaches limits depth inner statement mid v m') :
    Reaches limits (depth + 1) scope (.block (front ++ statement :: rest) line) m v m'
  | forEach {depth : Nat} {scope inner : ScopeId} {item : String} {source body : Node}
    {line : Int} {front rest : List Value} {value last v : Value}
    {m start mid mid' next m' : Machine}
    (hsource : evaluate limits depth scope source m = .ok (.array (front ++ value :: rest)) start)
    (hfront : Eval.each (fun value => do
      let inner ← Eval.newScope scope
      Eval.define inner item value
      execute limits depth inner body) .null front start = .ok (.completed last) mid)
    (hscope : Eval.newScope scope mid = .ok inner mid')
    (hdefine : Eval.define inner item value mid' = .ok () next)
    (h : Reaches limits depth inner body next v m') :
    Reaches limits (depth + 1) scope (.forEach item source body line) m v m'
  | whileLoop {depth n : Nat} {scope : ScopeId} {condition body : Node} {line : Int}
    {m start mid m' : Machine} {c v : Value} (hn : n < limits.rounds)
    (hrounds : Eval.Rounds (evaluate limits depth scope condition)
      (execute limits depth scope body) n m start)
    (hc : evaluate limits depth scope condition start = .ok c mid) (htruthy : c.truthy)
    (h : Reaches limits depth scope body mid v m') :
    Reaches limits (depth + 1) scope (.whileLoop condition body line) m v m'

variable {limits : Limits} {depth : Nat} {scope : ScopeId} {node : Node} {m m' : Machine}
  {v : Value}

/-- A `return` ends all that is around it in its own call. -/
theorem Reaches.execute (h : Reaches limits depth scope node m v m') :
    execute limits depth scope node m = .ok (.returned v) m' := by
  induction h with
  | nothing => rfl
  | value hpart =>
    rw [PageScript.execute, Eval.bind_apply_of_ok hpart]
    rfl
  | thenPart hc htruthy h ih =>
    simp only [PageScript.execute]
    rw [Eval.bind_apply_of_ok hc, if_pos htruthy]
    exact ih
  | elsePart hc hfalse h ih =>
    rw [PageScript.execute, Eval.bind_apply_of_ok hc, if_neg (by simp [hfalse])]
    exact ih
  | @block depth scope inner front rest statement line m start mid m' last v hscope hfront h ih =>
    rw [PageScript.execute, Eval.bind_apply_of_ok hscope]
    exact Eval.each_returned_iff.2 ⟨front, statement, rest, last, mid, rfl, hfront, ih⟩
  | @forEach depth scope inner item source body line front rest value last v m start mid mid' next
      m' hsource hfront hscope hdefine h ih =>
    rw [PageScript.execute, Eval.bind_apply_of_ok hsource]
    refine Eval.each_returned_iff.2 ⟨front, value, rest, last, mid, rfl, hfront, ?_⟩
    rw [Eval.bind_apply_of_ok hscope, Eval.bind_apply_of_ok hdefine]
    exact ih
  | @whileLoop depth n scope condition body line m start mid m' c v hn hrounds hc htruthy h ih =>
    exact Eval.repeatWhile_returned_iff.2 ⟨n, start, c, mid, hn, hrounds, hc, htruthy, ih⟩

/-- A statement that returns has reached a `return` in it. -/
theorem reaches_of_execute (h : execute limits depth scope node m = .ok (.returned v) m') :
    Reaches limits depth scope node m v m' := by
  induction depth generalizing scope node m v m' with
  | zero => cases h
  | succ depth ih =>
    cases node with
    | returning value line =>
      cases value with
      | none =>
        cases h
        exact .nothing
      | some part =>
        obtain ⟨value, mid, hpart, h⟩ := Eval.exists_of_bind_ok h
        cases h
        exact .value hpart
    | branch condition thenPart elsePart line =>
      obtain ⟨c, mid, hc, h⟩ := Eval.exists_of_bind_ok h
      cases htruthy : c.truthy with
      | true =>
        rw [htruthy] at h
        exact .thenPart hc htruthy (ih h)
      | false =>
        rw [htruthy] at h
        cases elsePart with
        | none => cases h
        | some part => exact .elsePart hc htruthy (ih h)
    | block statements line =>
      obtain ⟨inner, start, hscope, h⟩ := Eval.exists_of_bind_ok h
      obtain ⟨front, statement, rest, last, mid, rfl, hfront, hstatement⟩ :=
        Eval.each_returned_iff.1 h
      exact .block hscope hfront (ih hstatement)
    | forEach item source body line =>
      obtain ⟨items, start, hsource, h⟩ := Eval.exists_of_bind_ok h
      cases items with
      | array items =>
        obtain ⟨front, value, rest, last, mid, rfl, hfront, hvalue⟩ := Eval.each_returned_iff.1 h
        obtain ⟨inner, mid', hscope, hvalue⟩ := Eval.exists_of_bind_ok hvalue
        obtain ⟨⟨⟩, next, hdefine, hbody⟩ := Eval.exists_of_bind_ok hvalue
        exact .forEach hsource hfront hscope hdefine (ih hbody)
      | _ => cases h
    | whileLoop condition body line =>
      obtain ⟨n, start, c, mid, hn, hrounds, hc, htruthy, hbody⟩ :=
        Eval.repeatWhile_returned_iff.1 h
      exact .whileLoop hn hrounds hc htruthy (ih hbody)
    | binding name value line =>
      obtain ⟨value, mid, -, h⟩ := Eval.exists_of_bind_ok h
      obtain ⟨-, mid', -, h⟩ := Eval.exists_of_bind_ok h
      cases h
    | function name params body line =>
      obtain ⟨f, mid, -, h⟩ := Eval.exists_of_bind_ok h
      obtain ⟨-, mid', -, h⟩ := Eval.exists_of_bind_ok h
      cases h
    | _ =>
      obtain ⟨value, mid, -, h⟩ := Eval.exists_of_bind_ok h
      cases h

/-- **Statements return where a `return` in them is reached**, and nowhere else. -/
theorem execute_returned_iff :
    execute limits depth scope node m = .ok (.returned v) m' ↔
      Reaches limits depth scope node m v m' :=
  ⟨reaches_of_execute, Reaches.execute⟩

/-- An expression returns from nothing, whatever is called in it. -/
theorem execute_ne_returned (h : node.isExpression) :
    execute limits depth scope node m ≠ .ok (.returned v) m' := by
  rw [Ne, execute_returned_iff]
  intro hreaches
  cases hreaches <;> cases h

/-! ### Calls and programs -/

/-- The run of a list of statements reaches a `return` in one of them. -/
def ReachesAmong (limits : Limits) (depth : Nat) (scope : ScopeId) (statements : List Node)
    (m : Machine) (v : Value) (m' : Machine) : Prop :=
  ∃ front statement rest last mid, statements = front ++ statement :: rest ∧
    Eval.each (execute limits depth scope) .null front m = .ok (.completed last) mid ∧
    Reaches limits depth scope statement mid v m'

/-- The state in which the body of a function begins to run: in the next scope, with the parameters
bound. -/
def Closure.entered (f : Closure) (args : List Value) (m : Machine) : Machine :=
  ((Eval.newScope f.scope >>= fun scope => Eval.bindAll scope f.params args).after m).inCall

/-- The `return` that is reached gives a call its value, and nothing else of the body is run. -/
theorem Closure.call_of_reaches {f : Closure} {statements : List Node} {bodyLine : Int}
    (hbody : f.body = .block statements bodyLine) {args : List Value}
    (h : ReachesAmong limits depth m.scopes.all.size statements (f.entered args m) v m')
    (hfree : m.calls < limits.callDepth) (line : Int) :
    f.call limits (execute limits depth) args line m = .ok v { m' with calls := m.calls } := by
  obtain ⟨front, statement, rest, last, mid, rfl, hfront, hreaches⟩ := h
  have hnew : Eval.newScope f.scope m =
      .ok m.scopes.all.size { m with scopes := (m.scopes.child f.scope).2 } := rfl
  obtain ⟨scopes, hbound⟩ := Eval.exists_bindAll_apply m.scopes.all.size f.params args
    { m with scopes := (m.scopes.child f.scope).2 }
  have hentered : f.entered args m = Machine.inCall { m with scopes } := by
    rw [Closure.entered, Eval.after_bind_of_ok hnew, Eval.after_of_ok hbound]
  rw [hentered] at hfront
  have hreturned : Eval.each (execute limits depth m.scopes.all.size) .null
      (front ++ statement :: rest) (Machine.inCall { m with scopes }) = .ok (.returned v) m' :=
    Eval.each_returned_iff.2 ⟨front, statement, rest, last, mid, rfl, hfront, hreaches.execute⟩
  rw [Closure.call_apply, if_neg (by omega), Closure.enter_eq, Eval.bind_apply_of_ok hnew,
    Eval.bind_apply_of_ok hbound, Eval.counted_apply, hbody, Node.runBody, map_eq_pure_bind,
    Eval.bind_apply_of_ok hreturned]
  rfl

/-- The `return` that is reached at the top level gives a program its value, and ends it. -/
theorem Program.run_of_reaches {front rest : List Node} {statement : Node} {last : Value}
    {mid : Machine}
    (hfront : Eval.each (executeTop limits) .null front m = .ok (.completed last) mid)
    (h : Reaches limits limits.nesting Machine.globals statement mid v m') :
    run limits ⟨front ++ statement :: rest⟩ m = .ok v m' := by
  have hreturned : Eval.each (executeTop limits) .null (front ++ statement :: rest) m =
      .ok (.returned v) m' :=
    Eval.each_returned_iff.2
      ⟨front, statement, rest, last, mid, rfl, hfront, executeTop_of_ok h.execute⟩
  rw [run, Eval.bind_apply_of_ok hreturned]
  rfl

end PageScript
