import PageScript.Evaluation.Machine
import PageScript.Evaluation.Operators

/-!
Running programs. Expressions give values; statements complete with a value or return one from the
function that they are in. There is no assignment: a name is only ever bound in the scope of its own
statement, and blocks, loops and calls bind in scopes of their own.

Every nested step takes one from `depth`, so that evaluation ends; when none is left it stops, and
the statement at the top level is reported as nested too deeply.
-/
namespace PageScript

/-- How a statement ends. -/
inductive Completion where
  | completed (value : Value)
  | returned (value : Value)

def Completion.value : Completion → Value
  | completed value | returned value => value

namespace Eval

/-- Does something for each item until one returns, and completes with the value of the last. -/
def each {α : Type} (f : α → Eval Completion) (last : Value) : List α → Eval Completion
  | [] => pure (.completed last)
  | item :: rest => do
    match ← f item with
    | .completed value => each f value rest
    | .returned value => pure (.returned value)

/-- Repeats a body as long as a condition holds. -/
def repeatWhile (condition : Eval Value) (body : Eval Completion) (last : Value) :
    (rounds : Nat) → Eval Completion
  | 0 => throw .unfinished
  | rounds + 1 => do
    if (← condition).truthy then
      match ← body with
      | .completed value => repeatWhile condition body value rounds
      | .returned value => pure (.returned value)
    else pure (.completed last)

/-- Gives each of the values to a name; the last one stands if a name comes twice. -/
def bindAll (scope : ScopeId) : List String → List Value → Eval Unit
  | [], _ => pure ()
  | param :: params, args => do
    define scope param (args.head?.getD .null)
    bindAll scope params args.tail

end Eval

/-! ### Calls -/

/-- The builtin that a call by a plain name always means. -/
def reservedCallee? : Node → Option Builtin
  | .identifier name _ => Builtin.ofName? name
  | _ => none

/-- What is called when a value is called: a function that took the name of a builtin gives way to
it. -/
def callTarget : Value → Value
  | .closure f => match Builtin.ofName? f.name with | some b => .builtin b | none => .closure f
  | v => v

/-- The texts of values, or the fault of the first that has none. -/
def displayAll : List Value → Except RuntimeFault (List String)
  | [] => .ok []
  | v :: rest => do
    let text ← Operators.display v
    return text :: (← displayAll rest)

/-- Calls a builtin. Arguments beyond those it takes are ignored, and a missing one is null. -/
def Builtin.call (b : Builtin) (args : List Value) (line : Int) : Eval Value := do
  let first := args.head?.getD .null
  match b with
  | .print =>
    let texts ← Eval.lift line (displayAll args)
    Eval.print (" ".intercalate texts ++ "\n")
    return .null
  | .len =>
    match first with
    | .string s => return .int s.length
    | .array items => return .int items.length
    | v => Eval.fail (.noLength v.kind) line
  | .str => return .string (← Eval.lift line (Operators.display first))
  | .type => return .string first.kind.name

/-- Runs the body of a function in a scope of its own, with the parameters bound in it; `run` runs a
statement in a scope. -/
def Closure.enter (run : ScopeId → Node → Eval Completion) (f : Closure) (args : List Value) :
    Eval Value := do
  let scope ← Eval.newScope f.scope
  Eval.bindAll scope f.params args
  let completion ← Eval.counted <|
    match f.body with
    | .block statements _ => Eval.each (run scope) .null statements
    | _ => throw .bodyNotBlock
  return completion.value

/-- Calls a function of the program, if not too many calls are going on already. -/
def Closure.call (limits : Limits) (run : ScopeId → Node → Eval Completion) (f : Closure)
    (args : List Value) (line : Int) : Eval Value := do
  if limits.callDepth ≤ (← get).calls then Eval.fail (.callDepth limits.callDepth f.name) line
  else f.enter run args

/-- Whether a call goes on is settled by the number of calls that go on already. -/
theorem Closure.call_apply (limits : Limits) (run : ScopeId → Node → Eval Completion) (f : Closure)
    (args : List Value) (line : Int) (m : Machine) :
    f.call limits run args line m =
      if limits.callDepth ≤ m.calls then
        Eval.fail (.callDepth limits.callDepth f.name) line m
      else f.enter run args m := by
  rw [Closure.call, Eval.get_bind_apply]
  split <;> rfl

/-- Calls a value with arguments; only functions can be called. -/
def Value.call (limits : Limits) (run : ScopeId → Node → Eval Completion) (args : List Value)
    (line : Int) : Value → Eval Value
  | .builtin b => b.call args line
  | .closure f => f.call limits run args line
  | v => Eval.fail (.notCallable v.kind) line

/-- What a call with the given callee calls; `value` gives the value of an expression. -/
def calleeValue (value : Node → Eval Value) (callee : Node) : Eval Value :=
  match reservedCallee? callee with
  | some b => pure (.builtin b)
  | none => callTarget <$> value callee

/-! ### Expressions and statements -/

mutual

/-- The value of an expression in a scope. -/
def evaluate (limits : Limits) : (depth : Nat) → ScopeId → Node → Eval Value
  | 0, _, _ => throw .tooDeep
  | depth + 1, scope, node =>
    match node with
    | .literal value _ => pure value.toValue
    | .identifier name line | .template name line => Eval.lookup scope name line
    | .binary operator left right line => do
      let a ← evaluate limits depth scope left
      let b ← evaluate limits depth scope right
      Eval.lift line (Operators.binary operator a b)
    | .unary operator operand line => do
      let a ← evaluate limits depth scope operand
      Eval.lift line (Operators.unary operator a)
    | .call callee args line => do
      let target ← calleeValue (fun callee => evaluate limits depth scope callee) callee
      let values ← args.mapM fun arg => evaluate limits depth scope arg
      target.call limits (fun scope node => execute limits depth scope node) values line
    | .array elements _ => do
      return .array (← elements.mapM fun element => evaluate limits depth scope element)
    | .object properties _ => do
      let entries ← properties.mapM fun (key, value) => do
        return (key, ← evaluate limits depth scope value)
      return .object (Fields.ofList entries)
    | .program .. | .binding .. | .function .. | .branch .. | .forEach .. | .whileLoop ..
    | .returning .. | .block .. => Eval.fail (.notAnExpression node.kind) node.line

/-- Runs a statement in a scope. -/
def execute (limits : Limits) : (depth : Nat) → ScopeId → Node → Eval Completion
  | 0, _, _ => throw .tooDeep
  | depth + 1, scope, node =>
    match node with
    | .binding name value _ => do
      let v ← evaluate limits depth scope value
      Eval.define scope name v
      return .completed v
    | .function name params body _ => do
      let f ← Eval.newClosure name params body scope
      Eval.define scope name (.closure f)
      return .completed (.closure f)
    | .branch condition thenPart elsePart _ => do
      if (← evaluate limits depth scope condition).truthy then execute limits depth scope thenPart
      else
        match elsePart with
        | some part => execute limits depth scope part
        | none => return .completed .null
    | .forEach item source body line => do
      match ← evaluate limits depth scope source with
      | .array items =>
        Eval.each (fun value => do
          let inner ← Eval.newScope scope
          Eval.define inner item value
          execute limits depth inner body) .null items
      | v => Eval.fail (.notIterable v.kind) line
    | .whileLoop condition body _ =>
      Eval.repeatWhile (evaluate limits depth scope condition) (execute limits depth scope body)
        .null limits.rounds
    | .returning value _ =>
      match value with
      | some part => do return .returned (← evaluate limits depth scope part)
      | none => return .returned .null
    | .block statements _ => do
      let inner ← Eval.newScope scope
      Eval.each (fun statement => execute limits depth inner statement) .null statements
    | _ => do return .completed (← evaluate limits depth scope node)

end

/-! ### Programs -/

/-- Runs a statement at the top level. -/
def executeTop (limits : Limits) (statement : Node) : Eval Completion := fun m =>
  match execute limits limits.nesting Machine.globals statement m with
  | .error .tooDeep after => .error (.error ⟨.nestingTooDeep, statement.line⟩) after
  | result => result

/-- Runs a program: its statements in order, up to a `return` at the top level. The value is that of
the last statement. -/
def Program.run (limits : Limits) (program : Program) : Eval Value := do
  return (← Eval.each (executeTop limits) .null program.body).value

end PageScript
