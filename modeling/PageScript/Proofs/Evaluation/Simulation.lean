import PageScript.Proofs.Evaluation.Isolation
import PageScript.Proofs.Evaluation.Renaming
import PageScript.Proofs.Evaluation.Rewriting

/-!
Simulations. A rewritten program follows the program itself, in states that have to do with each
other in some way. What that way is like does not matter: if the operations of the machine follow
each other, and lists of statements and calls of functions do, then all evaluations do, at every
depth, and whole programs.
-/
namespace PageScript

def Completion.mapped (φ : FunctionMap) : Completion → Completion
  | completed value => completed (value.mapped φ)
  | returned value => returned (value.mapped φ)

theorem Completion.value_mapped (φ : FunctionMap) (completion : Completion) :
    (completion.mapped φ).value = completion.value.mapped φ := by
  cases completion <;> rfl

/-! ### Statements at the top level -/

/-- The reason for which a program stops if a statement at its top level does. -/
def Stop.atTop (line : Int) : Stop → Stop
  | tooDeep => .error ⟨.nestingTooDeep, line⟩
  | stop => stop

section
variable {limits : Limits} {statement : Node} {m m' : Machine}

theorem executeTop_of_ok {completion : Completion}
    (h : execute limits limits.nesting Machine.globals statement m = .ok completion m') :
    executeTop limits statement m = .ok completion m' := by
  rw [executeTop, h]

theorem executeTop_of_error {stop : Stop}
    (h : execute limits limits.nesting Machine.globals statement m = .error stop m') :
    executeTop limits statement m = .error (stop.atTop statement.line) m' := by
  rw [executeTop, h]
  cases stop <;> rfl

end

/-- An evaluation that is reported under a line if its steps are nested too deeply. -/
def Eval.reported {α : Type} (line : Int) (x : Eval α) : Eval α := fun m =>
  match x m with
  | .ok a after => .ok a after
  | .error stop after => .error (stop.atTop line) after

theorem executeTop_eq_reported (limits : Limits) (statement : Node) :
    executeTop limits statement =
      Eval.reported statement.line
        (execute limits limits.nesting Machine.globals statement) := by
  funext m
  cases h : execute limits limits.nesting Machine.globals statement m with
  | ok completion m' => rw [executeTop_of_ok h, Eval.reported, h]
  | error stop m' => rw [executeTop_of_error h, Eval.reported, h]

/-- A way to run statements in which no `return` completes. -/
def Eval.KeepsReturns (run : Node → Eval Completion) : Prop :=
  ∀ value line m v m', run (.returning value line) m ≠ .ok (.completed v) m'

theorem execute_keepsReturns (limits : Limits) (depth : Nat) (scope : ScopeId) :
    Eval.KeepsReturns (execute limits depth scope) := by
  intro value line m v m' h
  cases depth with
  | zero => cases h
  | succ depth =>
    cases value with
    | none => cases h
    | some part =>
      obtain ⟨value, mid, -, h⟩ := Eval.exists_of_bind_ok h
      cases h

theorem executeTop_keepsReturns (limits : Limits) : Eval.KeepsReturns (executeTop limits) := by
  intro value line m v m' h
  cases hrun : execute limits limits.nesting Machine.globals (.returning value line) m with
  | ok completion mid =>
    rw [executeTop_of_ok hrun] at h
    cases h
    exact execute_keepsReturns limits _ _ value line m v m' hrun
  | error stop mid =>
    rw [executeTop_of_error hrun] at h
    cases h

/-- Does one thing if a number of calls goes on already, and another if not. -/
def Eval.limited {α : Type} (limit : Int) (reached free : Eval α) : Eval α := fun m =>
  if limit ≤ m.calls then reached m else free m

theorem Closure.call_eq_limited (limits : Limits) (run : ScopeId → Node → Eval Completion)
    (f : Closure) (args : List Value) (line : Int) :
    f.call limits run args line =
      Eval.limited limits.callDepth (Eval.fail (.callDepth limits.callDepth f.name) line)
        (f.enter run args) :=
  funext (Closure.call_apply limits run f args line)

/-! ### Evaluations that follow others -/

/-- A way in which evaluations follow others. `Follows g x y` says that `y` does what `x` does, from
the states that have to do with those of `x`, and gives `g a` where `x` gives `a`. Scopes may have
other numbers there, and functions are other ones, with rewritten parameters and bodies. -/
structure Simulation where
  rewriting : Rewriting
  functions : FunctionMap
  scope : ScopeId → ScopeId
  Follows : {α β : Type} → (α → β) → Eval α → Eval β → Prop
  params_eq : ∀ f, (functions.toFun f).params = rewriting.params f.name f.params
  body_eq : ∀ f, (functions.toFun f).body = rewriting.body f.name (f.body.rewritten rewriting)
  scope_eq : ∀ f, (functions.toFun f).scope = scope f.scope
  pure : ∀ {α β : Type} {g : α → β} (a : α), Follows g (Pure.pure a) (Pure.pure (g a))
  throw : ∀ {α β : Type} {g : α → β} (stop : Stop),
    Follows g (MonadExcept.throw stop) (MonadExcept.throw (stop.rewritten rewriting))
  bind_of_ok : ∀ {α α' β β' : Type} {g : α → α'} {h : β → β'} {x : Eval α} {y : Eval α'}
    {next : α → Eval β} {next' : α' → Eval β'}, Follows g x y →
    (∀ a m m', x m = .ok a m' → Follows h (next a) (next' (g a))) →
    Follows h (x >>= next) (y >>= next')
  print : ∀ text, Follows id (Eval.print text) (Eval.print text)
  lookup : ∀ inner name line, Follows (Value.mapped functions) (Eval.lookup inner name line)
    (Eval.lookup (scope inner) name (rewriting.line line))
  define : ∀ inner name value, Follows id (Eval.define inner name value)
    (Eval.define (scope inner) name (value.mapped functions))
  newScope : ∀ parent, Follows scope (Eval.newScope parent) (Eval.newScope (scope parent))
  newClosure : ∀ name params body inner,
    Follows functions.toFun (Eval.newClosure name params body inner)
      (Eval.newClosure name (rewriting.params name params)
        (rewriting.body name (body.rewritten rewriting)) (scope inner))
  limited : ∀ {α β : Type} {g : α → β} {x free : Eval α} {y free' : Eval β} (limit : Int),
    Follows g x y → Follows g free free' →
    Follows g (Eval.limited limit x free) (Eval.limited limit y free')
  counted : ∀ {α β : Type} {g : α → β} {x : Eval α} {y : Eval β}, Follows g x y →
    Follows g (Eval.counted x) (Eval.counted y)
  reported : ∀ {α β : Type} {g : α → β} {x : Eval α} {y : Eval β} (line : Int), Follows g x y →
    Follows g (Eval.reported line x) (Eval.reported (rewriting.line line) y)

namespace Simulation
variable (S : Simulation) {α α' β β' : Type} {g : α → α'} {h : β → β'}

theorem bind {x : Eval α} {y : Eval α'} {next : α → Eval β} {next' : α' → Eval β'}
    (hx : S.Follows g x y) (hnext : ∀ a, S.Follows h (next a) (next' (g a))) :
    S.Follows h (x >>= next) (y >>= next') :=
  S.bind_of_ok hx fun a _ _ _ => hnext a

theorem map {x : Eval α} {y : Eval α'} {f : α → β} {f' : α' → β'} (hx : S.Follows g x y)
    (hf : ∀ a, f' (g a) = h (f a)) : S.Follows h (f <$> x) (f' <$> y) := by
  rw [map_eq_pure_bind, map_eq_pure_bind]
  refine S.bind hx fun a => ?_
  rw [hf]
  exact S.pure (f a)

/-- What a statement gives is followed if the statement is. -/
theorem value {x y : Eval Completion} (hx : S.Follows (Completion.mapped S.functions) x y) :
    S.Follows (Value.mapped S.functions) (Completion.value <$> x) (Completion.value <$> y) :=
  S.map hx (Completion.value_mapped S.functions)

theorem fail (fault : RuntimeFault) (line : Int) :
    S.Follows g (Eval.fail fault line) (Eval.fail fault (S.rewriting.line line)) :=
  S.throw _

/-- A pure operation that has the same result on both sides. -/
theorem lift (line : Int) {result : Except RuntimeFault α} {g : α → α}
    (h : ∀ a, result = .ok a → g a = a) :
    S.Follows g (Eval.lift line result) (Eval.lift (S.rewriting.line line) result) := by
  cases result with
  | ok a =>
    have hpure : S.Follows g (Pure.pure a : Eval α) (Pure.pure (g a)) := S.pure a
    rw [h a rfl] at hpure
    exact hpure
  | error fault => exact S.fail fault line

theorem mapM {x : α → Eval β} {y : α' → Eval β'} (items : List α)
    (hx : ∀ a, S.Follows h (x a) (y (g a))) :
    S.Follows (List.map h) (items.mapM x) ((items.map g).mapM y) := by
  induction items with
  | nil => exact S.pure []
  | cons a rest ih =>
    rw [List.map_cons, List.mapM_cons, List.mapM_cons]
    exact S.bind (hx a) fun b => S.bind ih fun bs => S.pure (b :: bs)

theorem each {x : α → Eval Completion} {y : α' → Eval Completion} (items : List α) (last : Value)
    (hx : ∀ a, S.Follows (Completion.mapped S.functions) (x a) (y (g a))) :
    S.Follows (Completion.mapped S.functions) (Eval.each x last items)
      (Eval.each y (last.mapped S.functions) (items.map g)) := by
  induction items generalizing last with
  | nil => exact S.pure (Completion.completed last)
  | cons a rest ih =>
    refine S.bind (hx a) fun completion => ?_
    cases completion with
    | completed value => exact ih value
    | returned value => exact S.pure (Completion.returned value)

theorem repeatWhile {condition condition' : Eval Value} {body body' : Eval Completion}
    (last : Value) (rounds : Nat)
    (hcondition : S.Follows (Value.mapped S.functions) condition condition')
    (hbody : S.Follows (Completion.mapped S.functions) body body') :
    S.Follows (Completion.mapped S.functions) (Eval.repeatWhile condition body last rounds)
      (Eval.repeatWhile condition' body' (last.mapped S.functions) rounds) := by
  induction rounds generalizing last with
  | zero => exact S.throw .unfinished
  | succ rounds ih =>
    refine S.bind hcondition fun v => ?_
    rw [Value.truthy_mapped]
    split
    · refine S.bind hbody fun completion => ?_
      cases completion with
      | completed value => exact ih value
      | returned value => exact S.pure (Completion.returned value)
    · exact S.pure (Completion.completed last)

theorem bindAll (scope : ScopeId) (params : List String) (args : List Value) :
    S.Follows id (Eval.bindAll scope params args)
      (Eval.bindAll (S.scope scope) params (args.map (Value.mapped S.functions))) := by
  induction params generalizing args with
  | nil => exact S.pure ()
  | cons param params ih =>
    cases args with
    | nil => exact S.bind (S.define scope param .null) fun _ => ih []
    | cons arg args => exact S.bind (S.define scope param arg) fun _ => ih args

theorem callBuiltin (b : Builtin) (args : List Value) (line : Int) :
    S.Follows (Value.mapped S.functions) (b.call args line)
      (b.call (args.map (Value.mapped S.functions)) (S.rewriting.line line)) := by
  have hfirst : (args.map (Value.mapped S.functions)).head?.getD .null =
      (args.head?.getD .null).mapped S.functions := by
    cases args <;> rfl
  simp only [Builtin.call, hfirst]
  cases b with
  | print =>
    simp only [displayAll_mapped]
    exact S.bind (S.lift line fun _ _ => rfl) fun texts =>
      S.bind (S.print _) fun _ => S.pure Value.null
  | len =>
    cases args.head?.getD .null with
    | string s => exact S.pure (Value.int s.length)
    | array items =>
      simp only [Value.mapped, Value.mappedItems_eq_map, List.length_map]
      exact S.pure (Value.int items.length)
    | _ => exact S.fail _ line
  | str =>
    simp only [Operators.display_mapped]
    exact S.bind (S.lift line fun _ _ => rfl) fun text => S.pure (Value.string text)
  | type =>
    rw [Value.kind_mapped]
    exact S.pure (Value.string _)

/-! ### Calls of functions -/

/-- What a run of a statement has to do for calls to follow. -/
abbrev Runs (run run' : ScopeId → Node → Eval Completion) : Prop :=
  ∀ scope node, S.Follows (Completion.mapped S.functions) (run scope node)
    (run' (S.scope scope) (node.rewritten S.rewriting))

/-- At some depth, expressions and statements are followed by the rewritten ones. -/
structure Keeps (limits : Limits) (depth : Nat) : Prop where
  evaluate : ∀ scope node, S.Follows (Value.mapped S.functions)
    (PageScript.evaluate limits depth scope node)
    (PageScript.evaluate limits depth (S.scope scope) (node.rewritten S.rewriting))
  execute : S.Runs (PageScript.execute limits depth) (PageScript.execute limits depth)

/-- The rewriting keeps what lists of statements do, if it keeps what single statements do. -/
def KeepsLists : Prop :=
  ∀ (run run' : Node → Eval Completion) (statements : List Node), Eval.KeepsReturns run →
    (∀ node, S.Follows (Completion.mapped S.functions) (run node)
      (run' (node.rewritten S.rewriting))) →
    S.Follows (Completion.mapped S.functions) (Eval.each run .null statements)
      (Eval.each run' .null
        (S.rewriting.statements (Node.rewrittenAll S.rewriting statements)))

/-- The rewriting keeps what lists of statements do, and what calls of functions do if it keeps what
expressions and statements do up to the depth of the call. A function with the name of a builtin is
never called. -/
structure Sound : Prop where
  each : S.KeepsLists
  enter : ∀ (limits : Limits) (depth : Nat), (∀ d ≤ depth, S.Keeps limits d) →
    ∀ f : Closure, Builtin.ofName? f.name = none → ∀ args,
      S.Follows (Value.mapped S.functions) (f.enter (PageScript.execute limits depth) args)
        ((S.functions.toFun f).enter (PageScript.execute limits depth)
          (args.map (Value.mapped S.functions)))

end Simulation

/-- Runs the body of a function in the scope of a call. -/
def Node.runBody (run : Node → Eval Completion) : Node → Eval Completion
  | .block statements _ => Eval.each run .null statements
  | _ => throw .bodyNotBlock

theorem Eval.counted_map {α β : Type} (f : α → β) (x : Eval α) :
    Eval.counted (f <$> x) = f <$> Eval.counted x := by
  funext m
  simp only [Functor.map, EStateM.map, Eval.counted_apply]
  cases x m.inCall <;> rfl

/-- A call gives what the body gives, whether that is the value of a `return` or the last one. -/
theorem Closure.enter_eq (run : ScopeId → Node → Eval Completion) (f : Closure)
    (args : List Value) :
    f.enter run args = (do
      let scope ← Eval.newScope f.scope
      Eval.bindAll scope f.params args
      Eval.counted (Completion.value <$> f.body.runBody (run scope))) := by
  simp only [Eval.counted_map]
  simp only [map_eq_pure_bind]
  rfl

/-- What can be called: no function with the name of a builtin. -/
def Value.IsTarget : Value → Prop
  | closure f => Builtin.ofName? f.name = none
  | _ => True

theorem isTarget_callTarget (v : Value) : (callTarget v).IsTarget := by
  cases v with
  | closure f =>
    cases hname : Builtin.ofName? f.name with
    | none =>
      simp only [callTarget, hname]
      exact hname
    | some b =>
      simp only [callTarget, hname]
      trivial
  | _ => trivial

theorem isTarget_of_calleeValue {value : Node → Eval Value} {callee : Node} {m m' : Machine}
    {target : Value} (h : calleeValue value callee m = .ok target m') : target.IsTarget := by
  cases hreserved : reservedCallee? callee with
  | some b =>
    simp only [calleeValue, hreserved] at h
    cases h
    trivial
  | none =>
    simp only [calleeValue, hreserved, map_eq_pure_bind] at h
    obtain ⟨v, mid, -, h⟩ := Eval.exists_of_bind_ok h
    cases h
    exact isTarget_callTarget v

namespace Simulation
variable {S : Simulation} {limits : Limits}

theorem KeepsLists.of_statements (h : ∀ nodes, S.rewriting.statements nodes = nodes) :
    S.KeepsLists := by
  intro run run' statements _ hrun
  rw [h, Node.rewrittenAll_eq_map]
  exact S.each statements .null hrun

/-- A rewriting is sound if it leaves parameters alone, and keeps what lists of statements do and
what bodies of functions give. What it makes of functions with the names of builtins is all the
same. -/
theorem Sound.of_bodies
    (hparams : ∀ name params, Builtin.ofName? name = none → S.rewriting.params name params = params)
    (heach : S.KeepsLists)
    (hbody : ∀ (limits : Limits) (depth : Nat), (∀ d ≤ depth, S.Keeps limits d) →
      ∀ (scope : ScopeId) (name : String) (body : Node), Builtin.ofName? name = none →
        S.Follows (Value.mapped S.functions)
          (Completion.value <$> body.runBody (execute limits depth scope))
          (Completion.value <$> (S.rewriting.body name (body.rewritten S.rewriting)).runBody
            (execute limits depth (S.scope scope)))) : S.Sound := by
  refine ⟨heach, fun limits depth hkeeps f hf args => ?_⟩
  rw [Closure.enter_eq, Closure.enter_eq, S.scope_eq, S.params_eq, S.body_eq, hparams _ _ hf]
  exact S.bind (S.newScope f.scope) fun scope => S.bind (S.bindAll scope f.params args) fun _ =>
    S.counted (hbody limits depth hkeeps scope f.name f.body hf)

/-- A rewriting that leaves functions alone, but for what it rewrites inside their bodies, is sound
if it keeps what lists of statements do. Functions with the names of builtins it may change. -/
theorem Sound.of_each
    (hparams : ∀ name params, Builtin.ofName? name = none → S.rewriting.params name params = params)
    (hbody : ∀ name body, Builtin.ofName? name = none → S.rewriting.body name body = body)
    (heach : S.KeepsLists) : S.Sound := by
  refine .of_bodies hparams heach fun limits depth hkeeps scope name body hname => ?_
  rw [hbody _ _ hname]
  cases body with
  | block statements line =>
    exact S.value (heach _ _ statements (execute_keepsReturns limits depth scope)
      ((hkeeps depth le_rfl).execute scope))
  | _ => exact S.value (S.throw .bodyNotBlock)

/-- A rewriting of lines alone is sound. -/
theorem Sound.of_lines {line : Int → Int} (h : S.rewriting = .lines line) : S.Sound :=
  .of_each (fun _ _ _ => by rw [h]; rfl) (fun _ _ _ => by rw [h]; rfl)
    (.of_statements fun _ => by rw [h]; rfl)

theorem callee {value value' : Node → Eval Value}
    (hvalue : ∀ node, S.Follows (Value.mapped S.functions) (value node)
      (value' (node.rewritten S.rewriting))) (callee : Node) :
    S.Follows (Value.mapped S.functions) (calleeValue value callee)
      (calleeValue value' (callee.rewritten S.rewriting)) := by
  simp only [calleeValue, Node.reservedCallee?_rewritten]
  split
  · next b _ => exact S.pure (Value.builtin b)
  · exact S.map (hvalue callee) (callTarget_mapped S.functions)

namespace Sound

theorem callValue (hS : S.Sound) {depth : Nat} (hkeeps : ∀ d ≤ depth, S.Keeps limits d)
    {target : Value} (htarget : target.IsTarget) (args : List Value) (line : Int) :
    S.Follows (Value.mapped S.functions) (target.call limits (execute limits depth) args line)
      ((target.mapped S.functions).call limits (execute limits depth)
        (args.map (Value.mapped S.functions)) (S.rewriting.line line)) := by
  cases target with
  | builtin b => exact S.callBuiltin b args line
  | closure f =>
    simp only [Value.mapped, Value.call, Closure.call_eq_limited, S.functions.name]
    exact S.limited limits.callDepth (S.fail _ line) (hS.enter limits depth hkeeps f htarget args)
  | _ => exact S.fail _ line

/-! ### Expressions and statements -/

section
variable {depth : Nat} (hS : S.Sound) (hkeeps : ∀ d ≤ depth, S.Keeps limits d)

include hS hkeeps in
theorem evaluate_succ (scope : ScopeId) (node : Node) :
    S.Follows (Value.mapped S.functions) (evaluate limits (depth + 1) scope node)
      (evaluate limits (depth + 1) (S.scope scope) (node.rewritten S.rewriting)) := by
  obtain ⟨heval, -⟩ := hkeeps depth le_rfl
  cases node with
  | literal value line => cases value <;> exact S.pure _
  | identifier name line => exact S.lookup scope name line
  | template name line => exact S.lookup scope name line
  | binary operator left right line =>
    refine S.bind (heval scope left) fun a => S.bind (heval scope right) fun b => ?_
    rw [Operators.binary_mapped]
    exact S.lift line fun v hv => Value.mapped_of_plain _ (Operators.within_of_binary hv)
  | unary operator operand line =>
    refine S.bind (heval scope operand) fun a => ?_
    rw [Operators.unary_mapped]
    exact S.lift line fun v hv => Value.mapped_of_plain _ (Operators.within_of_unary hv)
  | call callee args line =>
    -- What is called has come out of `calleeValue`, so it is no function named like a builtin.
    refine S.bind_of_ok (S.callee (heval scope) callee) fun target m m' htarget => ?_
    rw [Node.rewrittenAll_eq_map]
    exact S.bind (S.mapM args (heval scope)) fun values =>
      hS.callValue hkeeps (isTarget_of_calleeValue htarget) values line
  | array elements line =>
    rw [Node.rewritten, Node.rewrittenAll_eq_map]
    refine S.bind (S.mapM elements (heval scope)) fun items => ?_
    rw [← Value.mappedItems_eq_map]
    exact S.pure (Value.array items)
  | object properties line =>
    rw [Node.rewritten, Node.rewrittenProperties_eq_map]
    refine S.bind (?_ : S.Follows (List.map (Value.mappedEntry S.functions)) _ _)
      fun entries => ?_
    · exact S.mapM properties fun entry =>
        S.bind (heval scope entry.2) fun v => S.pure (entry.1, v)
    · -- Of two entries with one name the later one counts, before and after.
      rw [Fields.ofList_mapped]
      exact S.pure (Value.object (Fields.ofList entries))
  | program | binding | function | branch | forEach | whileLoop | returning | block =>
    exact S.fail _ _

include hS hkeeps in
theorem execute_succ : S.Runs (execute limits (depth + 1)) (execute limits (depth + 1)) := by
  obtain ⟨heval, hexec⟩ := hkeeps depth le_rfl
  intro scope node
  cases node with
  | binding name value line =>
    exact S.bind (heval scope value) fun v => S.bind (S.define scope name v) fun _ =>
      S.pure (Completion.completed v)
  | function name params body line =>
    exact S.bind (S.newClosure name params body scope) fun f =>
      S.bind (S.define scope name (.closure f)) fun _ =>
        S.pure (Completion.completed (.closure f))
  | branch condition thenPart elsePart line =>
    refine S.bind (heval scope condition) fun v => ?_
    rw [Value.truthy_mapped]
    split
    · exact hexec scope thenPart
    · cases elsePart with
      | some part => exact hexec scope part
      | none => exact S.pure (Completion.completed .null)
  | forEach item source body line =>
    refine S.bind (heval scope source) fun v => ?_
    cases v with
    | array items =>
      simp only [Value.mapped, Value.mappedItems_eq_map]
      exact S.each items .null fun value => S.bind (S.newScope scope) fun inner =>
        S.bind (S.define inner item value) fun _ => hexec inner body
    | _ => exact S.fail _ line
  | whileLoop condition body line =>
    exact S.repeatWhile .null limits.rounds (heval scope condition) (hexec scope body)
  | returning value line =>
    cases value with
    | some part => exact S.bind (heval scope part) fun v => S.pure (Completion.returned v)
    | none => exact S.pure (Completion.returned .null)
  | block statements line =>
    exact S.bind (S.newScope scope) fun inner =>
      hS.each _ _ statements (execute_keepsReturns limits depth inner) (hexec inner)
  | _ => exact S.bind (heval scope _) fun v => S.pure (Completion.completed v)

end

/-! ### Whole runs -/

/-- **Rewritten programs follow.** In a sound simulation, expressions and statements at every depth
are followed by the rewritten ones. -/
theorem evaluate_execute (hS : S.Sound) (limits : Limits) (depth : Nat) :
    S.Keeps limits depth := by
  -- A call may ask for what its body does at any depth below its own.
  induction depth using Nat.strongRecOn with
  | ind depth ih =>
    cases depth with
    | zero => exact ⟨fun _ _ => S.throw .tooDeep, fun _ _ => S.throw .tooDeep⟩
    | succ depth =>
      have hkeeps : ∀ d ≤ depth, S.Keeps limits d := fun d hd => ih d (Nat.lt_succ_of_le hd)
      exact ⟨hS.evaluate_succ hkeeps, hS.execute_succ hkeeps⟩

theorem executeTop (hS : S.Sound) (hglobals : S.scope Machine.globals = Machine.globals)
    (limits : Limits) (statement : Node) :
    S.Follows (Completion.mapped S.functions) (PageScript.executeTop limits statement)
      (PageScript.executeTop limits (statement.rewritten S.rewriting)) := by
  have hrun := (hS.evaluate_execute limits limits.nesting).execute Machine.globals statement
  rw [hglobals] at hrun
  rw [executeTop_eq_reported, executeTop_eq_reported, Node.line_rewritten]
  exact S.reported statement.line hrun

theorem run (hS : S.Sound) (hglobals : S.scope Machine.globals = Machine.globals)
    (limits : Limits) (program : Program) :
    S.Follows (Value.mapped S.functions) (program.run limits)
      ((program.rewritten S.rewriting).run limits) := by
  refine S.bind (hS.each _ _ program.body (executeTop_keepsReturns limits)
    (hS.executeTop hglobals limits)) fun completion => ?_
  rw [Completion.value_mapped]
  exact S.pure completion.value

end Sound
end Simulation
end PageScript
