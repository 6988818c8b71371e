import Mathlib.Logic.Equiv.Basic
import PageScript.Proofs.Evaluation.Faults
import PageScript.Proofs.Evaluation.Naming

/-!
Named runs. With new names in the program and in the state, an evaluation does what it does with the
old ones. Names of functions stay, so a function is found under its name only if the naming keeps
that; which functions there are is settled while the program runs, and what is known of them is
carried along from state to state as a policy.
-/
namespace PageScript

/-- No fault of an operator tells a name. -/
theorem RuntimeFault.OfOperator.named_eq (ρ : Naming) {operator : String} {known : Bool}
    {fault : RuntimeFault} (h : fault.OfOperator operator known) : fault.named ρ = fault := by
  cases h <;> rfl

/-! ### Evaluations with new names -/

/-- From every state whose functions keep the names of functions, the first evaluation leads to such
a state and a good result, and the second one, with new names in the state, does what the first one
does, with new names in what it leads to. -/
def Eval.Named {α β : Type} (ρ : Naming) (good : α → Prop) (name : α → β) (x : Eval α)
    (y : Eval β) : Prop :=
  ∀ m, ρ.policy.Holds m →
    MapsAt ρ.states (Stop.named ρ) name x y m ∧
      ρ.policy.Holds (x.after m) ∧ ρ.policy.Ends good (x m)

theorem Stop.atTop_named (ρ : Naming) (line : Int) (stop : Stop) :
    (stop.named ρ).atTop line = (stop.atTop line).named ρ := by
  cases stop <;> rfl

namespace Eval.Named
variable {α α' β β' : Type} {ρ : Naming} {good : α → Prop} {good' : β → Prop} {g : α → α'}
  {h : β → β'}

theorem of_upholds {x : Eval α} {y : Eval α'}
    (hx : ∀ calls, Upholds ρ.policy 0 calls good x)
    (hmaps : ∀ m, MapsAt ρ.states (Stop.named ρ) g x y m) : Named ρ good g x y :=
  fun m hm => ⟨hmaps m, (hx m.calls m hm rfl).2⟩

theorem pure {a : α} (ha : good a) : Named ρ good g (Pure.pure a) (Pure.pure (g a)) :=
  of_upholds (fun _ => .pure ha) fun _ => rfl

theorem throw (stop : Stop) :
    Named ρ good g (MonadExcept.throw stop) (MonadExcept.throw (stop.named ρ)) :=
  of_upholds (fun _ => .throw trivial) fun _ => rfl

theorem bind {x : Eval α} {y : Eval α'} {next : α → Eval β} {next' : α' → Eval β'}
    (hx : Named ρ good g x y) (hnext : ∀ a, good a → Named ρ good' h (next a) (next' (g a))) :
    Named ρ good' h (x >>= next) (y >>= next') := by
  intro m hm
  obtain ⟨hmaps, hholds, hends⟩ := hx m hm
  cases hr : x m with
  | ok a m' =>
    rw [hr] at hends
    rw [after_of_ok hr] at hholds
    obtain ⟨hmore, hafter⟩ := hnext a hends m' hholds
    rw [after_bind_of_ok hr, bind_apply_of_ok hr]
    refine ⟨hmaps.bind fun _ _ hok => ?_, hafter⟩
    cases hr.symm.trans hok
    exact hmore
  | error stop m' =>
    rw [after_of_error hr] at hholds
    rw [after_bind_of_error hr, bind_apply_of_error hr]
    refine ⟨hmaps.bind fun _ _ hok => ?_, hholds, trivial⟩
    cases hr.symm.trans hok

theorem map {x : Eval α} {y : Eval α'} {f : α → β} {f' : α' → β'} (hx : Named ρ good g x y)
    (hgood : ∀ a, good a → good' (f a)) (hf : ∀ a, f' (g a) = h (f a)) :
    Named ρ good' h (f <$> x) (f' <$> y) := by
  rw [map_eq_pure_bind, map_eq_pure_bind]
  refine hx.bind fun a ha => ?_
  rw [hf]
  exact pure (hgood a ha)

theorem fail {fault : RuntimeFault} (hfault : fault.named ρ = fault) (line : Int) :
    Named ρ good g (Eval.fail fault line) (Eval.fail fault line) := by
  have hthrow : Named ρ good g (Eval.fail fault line) (Eval.fail (fault.named ρ) line) := throw _
  rwa [hfault] at hthrow

/-- A pure operation whose result is the same with new names, and tells none if it is a fault. -/
theorem lift (line : Int) {result : Except RuntimeFault α} {g : α → α}
    (hok : ∀ a, result = .ok a → good a ∧ g a = a)
    (herror : ∀ fault, result = .error fault → fault.named ρ = fault) :
    Named ρ good g (Eval.lift line result) (Eval.lift line result) := by
  cases result with
  | ok a =>
    obtain ⟨ha, hsame⟩ := hok a rfl
    have hpure : Named ρ good g (Pure.pure a : Eval α) (Pure.pure (g a)) := pure ha
    rwa [hsame] at hpure
  | error fault => exact fail (herror fault rfl) line

theorem lookup (scope : ScopeId) (name : String) (line : Int) :
    Named ρ ρ.policy.Allows (Value.named ρ) (Eval.lookup scope name line)
      (Eval.lookup scope (ρ name) line) :=
  of_upholds (fun _ => .lookup trivial) fun _ => .lookup scope name rfl

theorem define (scope : ScopeId) (name : String) {value : Value} (hvalue : ρ.policy.Allows value) :
    Named ρ (fun _ => True) id (Eval.define scope name value)
      (Eval.define scope (ρ name) (value.named ρ)) :=
  of_upholds (fun _ => .define scope name hvalue) fun _ => .define scope name value

theorem newScope (parent : ScopeId) :
    Named ρ (fun _ => True) id (Eval.newScope parent) (Eval.newScope parent) :=
  of_upholds (fun _ => .newScope parent) fun _ => .newScope parent

theorem newClosure (name : String) (params : List String) {body : Node} (hbody : ρ.Keeps body)
    (scope : ScopeId) :
    Named ρ ρ.policy.function (Closure.named ρ) (Eval.newClosure name params body scope)
      (Eval.newClosure name (params.map ρ) (body.named ρ) scope) :=
  of_upholds (fun _ => .newClosure fun _ => hbody) fun _ => rfl

theorem print (text : String) :
    Named ρ (fun _ => True) id (Eval.print text) (Eval.print text) :=
  of_upholds (fun _ => .print text) fun _ => rfl

theorem counted {x : Eval α} {y : Eval α'} (hx : Named ρ good g x y) :
    Named ρ good g (Eval.counted x) (Eval.counted y) := by
  intro m hm
  obtain ⟨hmaps, hholds, hends⟩ := hx m.inCall hm
  rw [after_counted]
  refine ⟨hmaps.counted, hholds, ?_⟩
  rw [counted_apply]
  cases hr : x m.inCall with
  | ok a m' | error stop m' =>
    rw [hr] at hends
    exact hends

theorem limited {x free : Eval α} {y free' : Eval α'} (limit : Int) (hx : Named ρ good g x y)
    (hfree : Named ρ good g free free') :
    Named ρ good g (Eval.limited limit x free) (Eval.limited limit y free') := by
  intro m hm
  obtain ⟨hmaps, hends⟩ := hx m hm
  obtain ⟨hmaps', hends'⟩ := hfree m hm
  refine ⟨hmaps.limited limit hmaps', ?_⟩
  by_cases hcalls : limit ≤ m.calls
  · simpa only [Eval.limited, after, if_pos hcalls] using hends
  · simpa only [Eval.limited, after, if_neg hcalls] using hends'

theorem reported {x : Eval α} {y : Eval α'} (line : Int) (hx : Named ρ good g x y) :
    Named ρ good g (Eval.reported line x) (Eval.reported line y) := by
  intro m hm
  obtain ⟨hmaps, hholds, hends⟩ := hx m hm
  refine ⟨hmaps.reported (Stop.atTop_named ρ line), ?_⟩
  rw [after] at hholds
  rw [after, Eval.reported]
  cases hr : x m with
  | ok a m' =>
    rw [hr] at hholds hends
    exact ⟨hholds, hends⟩
  | error stop m' =>
    rw [hr] at hholds
    exact ⟨hholds, trivial⟩

/-! ### Lists and loops -/

theorem mapM {x : α → Eval β} {y : α' → Eval β'} {items : List α}
    (hx : ∀ a ∈ items, Named ρ good' h (x a) (y (g a))) :
    Named ρ (fun bs => ∀ b ∈ bs, good' b) (List.map h) (items.mapM x)
      ((items.map g).mapM y) := by
  induction items with
  | nil => exact pure fun _ hb => nomatch hb
  | cons a rest ih =>
    rw [List.map_cons, List.mapM_cons, List.mapM_cons]
    refine (hx a List.mem_cons_self).bind fun b hb => ?_
    refine (ih fun a ha => hx a (List.mem_cons_of_mem _ ha)).bind fun bs hbs => ?_
    exact pure (List.forall_mem_cons.2 ⟨hb, hbs⟩)

/-- What a statement comes to, with new names in its value. -/
abbrev Completes (ρ : Naming) (x y : Eval Completion) : Prop :=
  Named ρ ρ.policy.AllowsCompletion (Completion.mapped ρ.functionMap) x y

/-- What an expression comes to, with new names in its value. -/
abbrev Gives (ρ : Naming) (x y : Eval Value) : Prop :=
  Named ρ ρ.policy.Allows (Value.named ρ) x y

theorem each {x : α → Eval Completion} {y : α' → Eval Completion} {items : List α} {last : Value}
    (hlast : ρ.policy.Allows last) (hx : ∀ a ∈ items, Completes ρ (x a) (y (g a))) :
    Completes ρ (Eval.each x last items) (Eval.each y (last.named ρ) (items.map g)) := by
  induction items generalizing last with
  | nil => exact pure (a := Completion.completed last) hlast
  | cons a rest ih =>
    refine (hx a List.mem_cons_self).bind fun completion hcompletion => ?_
    cases completion with
    | completed value => exact ih hcompletion fun a ha => hx a (List.mem_cons_of_mem _ ha)
    | returned value => exact pure (a := Completion.returned value) hcompletion

theorem repeatWhile {condition condition' : Eval Value} {body body' : Eval Completion}
    {last : Value} (hlast : ρ.policy.Allows last) (rounds : Nat)
    (hcondition : Gives ρ condition condition') (hbody : Completes ρ body body') :
    Completes ρ (Eval.repeatWhile condition body last rounds)
      (Eval.repeatWhile condition' body' (last.named ρ) rounds) := by
  induction rounds generalizing last with
  | zero => exact throw .unfinished
  | succ rounds ih =>
    refine hcondition.bind fun v _ => ?_
    rw [Value.truthy_mapped]
    split
    · refine hbody.bind fun completion hcompletion => ?_
      cases completion with
      | completed value => exact ih hcompletion
      | returned value => exact pure (a := Completion.returned value) hcompletion
    · exact pure (a := Completion.completed last) hlast

/-! ### Calls -/

theorem bindAll (scope : ScopeId) (params : List String) {args : List Value}
    (hargs : ∀ arg ∈ args, ρ.policy.Allows arg) :
    Named ρ (fun _ => True) id (Eval.bindAll scope params args)
      (Eval.bindAll scope (params.map ρ) (args.map (Value.named ρ))) := by
  have hnull : ρ.policy.Allows .null := Policy.allows_of_plain rfl
  induction params generalizing args with
  | nil => exact pure (a := ()) trivial
  | cons param params ih =>
    cases args with
    | nil => exact (define scope param hnull).bind fun _ _ => ih hargs
    | cons arg args =>
      refine (define scope param (hargs arg List.mem_cons_self)).bind fun _ _ => ?_
      exact ih fun arg harg => hargs arg (List.mem_cons_of_mem _ harg)

theorem callBuiltin (b : Builtin) (args : List Value) (line : Int) :
    Gives ρ (b.call args line) (b.call (args.map (Value.named ρ)) line) := by
  have hfirst : (args.map (Value.named ρ)).head?.getD .null =
      (args.head?.getD .null).named ρ := by
    cases args <;> rfl
  have hplain {v : Value} (hv : v.functions = []) : ρ.policy.Allows v := Policy.allows_of_plain hv
  simp only [Builtin.call, hfirst]
  cases b with
  | print =>
    simp only [displayAll_mapped]
    have htexts : Named ρ (fun _ => True) id (Eval.lift line (displayAll args))
        (Eval.lift line (displayAll args)) :=
      lift line (fun _ _ => ⟨trivial, rfl⟩) fun fault hfault => by
        rw [displayAll_error hfault]
        rfl
    exact htexts.bind fun texts _ => (print _).bind fun _ _ => pure (a := Value.null) (hplain rfl)
  | len =>
    cases args.head?.getD .null with
    | string s => exact pure (a := Value.int s.length) (hplain rfl)
    | array items =>
      simp only [Value.mapped, Value.mappedItems_eq_map, List.length_map]
      exact pure (a := Value.int items.length) (hplain rfl)
    | _ => exact fail rfl line
  | str =>
    simp only [Operators.display_mapped]
    have htext : Named ρ (fun _ => True) id
        (Eval.lift line (Operators.display (args.head?.getD .null)))
        (Eval.lift line (Operators.display (args.head?.getD .null))) :=
      lift line (fun _ _ => ⟨trivial, rfl⟩) fun fault hfault => by
        rw [Operators.display_error hfault]
        rfl
    exact htext.bind fun text _ => pure (a := Value.string text) (hplain rfl)
  | type =>
    rw [Value.kind_mapped]
    exact pure (a := Value.string _) (hplain rfl)

/-- At some depth, expressions and statements do the same with new names, if the functions declared
in them keep theirs. -/
structure Alike (ρ : Naming) (limits : Limits) (depth : Nat) : Prop where
  evaluate : ∀ scope node, ρ.Keeps node →
    Gives ρ (PageScript.evaluate limits depth scope node)
      (PageScript.evaluate limits depth scope (node.named ρ))
  execute : ∀ scope node, ρ.Keeps node →
    Completes ρ (PageScript.execute limits depth scope node)
      (PageScript.execute limits depth scope (node.named ρ))

variable {limits : Limits} {depth : Nat}

theorem runBody (halike : Alike ρ limits depth) {body : Node} (hbody : ρ.Keeps body)
    (scope : ScopeId) :
    Completes ρ (body.runBody (execute limits depth scope))
      ((body.named ρ).runBody (execute limits depth scope)) := by
  cases body with
  | block statements line =>
    rw [Node.named, Node.namedAll_eq_map]
    refine each (Policy.allows_of_plain rfl) fun statement hstatement => ?_
    exact halike.execute scope statement
      (hbody.of_child (Node.mem_children_of_part hstatement))
  | _ => exact throw .bodyNotBlock

theorem enter (halike : Alike ρ limits depth) {f : Closure} (hf : ρ.policy.function f)
    {args : List Value} (hargs : ∀ arg ∈ args, ρ.policy.Allows arg) :
    Gives ρ (f.enter (execute limits depth) args)
      ((f.named ρ).enter (execute limits depth) (args.map (Value.named ρ))) := by
  rw [Closure.enter_eq, Closure.enter_eq]
  refine (newScope f.scope).bind fun scope _ => (bindAll scope f.params hargs).bind fun _ _ => ?_
  exact counted ((runBody halike hf scope).map (fun _ hcompletion => hcompletion)
    (Completion.value_mapped ρ.functionMap))

theorem callValue (halike : Alike ρ limits depth) {target : Value}
    (htarget : ρ.policy.Allows target) {args : List Value}
    (hargs : ∀ arg ∈ args, ρ.policy.Allows arg) (line : Int) :
    Gives ρ (target.call limits (execute limits depth) args line)
      ((target.named ρ).call limits (execute limits depth) (args.map (Value.named ρ)) line) := by
  cases target with
  | builtin b => exact callBuiltin b args line
  | closure f =>
    simp only [Value.mapped, Value.call, Closure.call_eq_limited]
    exact limited limits.callDepth (fail rfl line)
      (enter halike (Policy.allows_closure.1 htarget) hargs)
  | _ => exact fail rfl line

theorem calleeValue {value value' : Node → Eval Value} {callee : Node}
    (hvalue : Gives ρ (value callee) (value' (callee.named ρ))) :
    Gives ρ (PageScript.calleeValue value callee)
      (PageScript.calleeValue value' (callee.named ρ)) := by
  simp only [PageScript.calleeValue, Node.reservedCallee?_named]
  split
  · next b _ => exact pure (a := Value.builtin b) (Policy.allows_of_plain rfl)
  · refine hvalue.map (fun v hv => ?_) (callTarget_mapped ρ.functionMap)
    exact Policy.allows_callTarget hv

/-! ### Expressions and statements -/

theorem evaluate_succ (halike : Alike ρ limits depth) (scope : ScopeId) {node : Node}
    (hnode : ρ.Keeps node) :
    Gives ρ (evaluate limits (depth + 1) scope node)
      (evaluate limits (depth + 1) scope (node.named ρ)) := by
  have heval (operand : Node) (hoperand : operand ∈ node.operands) :=
    halike.evaluate scope operand (hnode.of_child (Node.mem_children_of_operand hoperand))
  cases node with
  | literal value line =>
    cases value <;> exact pure (a := Literal.toValue _) (Policy.allows_of_plain rfl)
  | identifier name line => exact lookup scope name line
  | template name line => exact lookup scope name line
  | binary operator left right line =>
    refine (heval left (by simp [Node.operands])).bind fun a _ => ?_
    refine (heval right (by simp [Node.operands])).bind fun b _ => ?_
    rw [Operators.binary_mapped]
    refine lift line (fun v hv => ?_) fun fault hfault => (Operators.binary_error hfault).named_eq ρ
    have hplain := Operators.within_of_binary hv
    exact ⟨Policy.allows_of_plain (Value.functions_of_within hplain),
      Value.mapped_of_plain _ hplain⟩
  | unary operator operand line =>
    refine (heval operand (by simp [Node.operands])).bind fun a _ => ?_
    rw [Operators.unary_mapped]
    refine lift line (fun v hv => ?_) fun fault hfault => (Operators.unary_error hfault).named_eq ρ
    have hplain := Operators.within_of_unary hv
    exact ⟨Policy.allows_of_plain (Value.functions_of_within hplain),
      Value.mapped_of_plain _ hplain⟩
  | call callee args line =>
    refine (calleeValue (heval callee (by simp [Node.operands]))).bind fun target htarget => ?_
    rw [Node.namedAll_eq_map]
    refine (mapM fun arg harg => heval arg (by simp [Node.operands, harg])).bind ?_
    exact fun values hvalues => callValue halike htarget hvalues line
  | array elements line =>
    rw [Node.named, Node.namedAll_eq_map]
    refine (mapM heval).bind fun items hitems => ?_
    rw [← Value.mappedItems_eq_map]
    exact pure (a := Value.array items) (Policy.allows_array.2 hitems)
  | object properties line =>
    rw [Node.named, Node.namedProperties_eq_map]
    refine bind (?_ : Named ρ (fun entries => ∀ entry ∈ entries, ρ.policy.Allows entry.2)
      (List.map (Value.mappedEntry ρ.functionMap)) _ _) fun entries hentries => ?_
    · refine mapM fun property hproperty => (heval property.2 ?_).bind fun v hv => ?_
      · exact List.mem_map.2 ⟨property, hproperty, rfl⟩
      · exact pure (a := (property.1, v)) hv
    · rw [Fields.ofList_mapped]
      refine pure (a := Value.object (Fields.ofList entries)) ?_
      refine Policy.allows_object.2 fun entry hentry => ?_
      obtain ⟨e, he, heq⟩ := Fields.mem_ofList hentry
      rw [← heq]
      exact hentries e he
  | program | binding | function | branch | forEach | whileLoop | returning | block =>
    exact fail rfl _

theorem execute_succ (halike : Alike ρ limits depth) (scope : ScopeId) {node : Node}
    (hnode : ρ.Keeps node) :
    Completes ρ (execute limits (depth + 1) scope node)
      (execute limits (depth + 1) scope (node.named ρ)) := by
  have hself := halike.evaluate scope node hnode
  have heval (operand : Node) (hoperand : operand ∈ node.operands) :=
    halike.evaluate scope operand (hnode.of_child (Node.mem_children_of_operand hoperand))
  have hexec (part : Node) (hpart : part ∈ node.parts) (scope : ScopeId) :=
    halike.execute scope part (hnode.of_child (Node.mem_children_of_part hpart))
  have hnull : ρ.policy.Allows .null := Policy.allows_of_plain rfl
  cases node with
  | binding name value line =>
    refine (heval value (by simp [Node.operands])).bind fun v hv => ?_
    exact (define scope name hv).bind fun _ _ => pure (a := Completion.completed v) hv
  | function name params body line =>
    -- The function is bound under the name that it has, which is its new name as well.
    have hname : ρ name = name := hnode _ (Node.mem_nodes_self _) name rfl
    have hbody : ρ.Keeps body := hnode.of_child (Node.mem_children_of_body rfl)
    refine (newClosure name params hbody scope).bind fun f hf => ?_
    have hf : ρ.policy.Allows (.closure f) := Policy.allows_closure.2 hf
    have hdefine := define scope name hf
    rw [hname] at hdefine
    exact hdefine.bind fun _ _ => pure (a := Completion.completed (.closure f)) hf
  | branch condition thenPart elsePart line =>
    refine (heval condition (by simp [Node.operands])).bind fun v _ => ?_
    rw [Value.truthy_mapped]
    split
    · exact hexec thenPart (by simp [Node.parts]) scope
    · cases elsePart with
      | some part => exact hexec part (by simp [Node.parts]) scope
      | none => exact pure (a := Completion.completed .null) hnull
  | forEach item source body line =>
    refine (heval source (by simp [Node.operands])).bind fun v hv => ?_
    cases v with
    | array items =>
      simp only [Value.mapped, Value.mappedItems_eq_map]
      refine each hnull fun value hvalue => (newScope scope).bind fun inner _ => ?_
      refine (define inner item (Policy.allows_array.1 hv value hvalue)).bind fun _ _ => ?_
      exact hexec body (by simp [Node.parts]) inner
    | _ => exact fail rfl line
  | whileLoop condition body line =>
    exact repeatWhile hnull limits.rounds (heval condition (by simp [Node.operands]))
      (hexec body (by simp [Node.parts]) scope)
  | returning value line =>
    cases value with
    | some part =>
      refine (heval part (by simp [Node.operands])).bind fun v hv => ?_
      exact pure (a := Completion.returned v) hv
    | none => exact pure (a := Completion.returned .null) hnull
  | block statements line =>
    refine (newScope scope).bind fun inner _ => ?_
    rw [Node.namedAll_eq_map]
    exact each hnull fun statement hstatement => hexec statement hstatement inner
  | _ => exact hself.bind fun v hv => pure (a := Completion.completed v) hv

/-- Expressions and statements at every depth do the same with new names. -/
theorem evaluate_execute (ρ : Naming) (limits : Limits) (depth : Nat) : Alike ρ limits depth := by
  induction depth with
  | zero => exact ⟨fun _ _ _ => throw .tooDeep, fun _ _ _ => throw .tooDeep⟩
  | succ depth ih =>
    exact ⟨fun scope _ hnode => evaluate_succ ih scope hnode,
      fun scope _ hnode => execute_succ ih scope hnode⟩

theorem executeTop (limits : Limits) {statement : Node} (hstatement : ρ.Keeps statement) :
    Completes ρ (PageScript.executeTop limits statement)
      (PageScript.executeTop limits (statement.named ρ)) := by
  rw [executeTop_eq_reported, executeTop_eq_reported, Node.line_named]
  exact reported _ ((evaluate_execute ρ limits limits.nesting).execute _ _ hstatement)

end Eval.Named

/-! ### Programs -/

def Program.named (ρ : Naming) (program : Program) : Program := ⟨Node.namedAll ρ program.body⟩

/-- **Names of variables do not matter.** Under new names for all variables, of the program and of
what is predefined, that keep those of the functions declared, a program prints the same and gives
the same value, up to the new names in its functions, or stops for the same reason, up to the new
name where that is an unknown one. -/
theorem Program.run_named (ρ : Naming) {program : Program}
    (hprogram : ∀ n ∈ program.nodes, ∀ name ∈ n.declared?, ρ name = name)
    {env : List (String × Value)} (henv : ∀ entry ∈ env, ∀ f ∈ entry.2.functions, ρ.Keeps f.body)
    (limits : Limits) :
    (program.named ρ).run limits (Machine.start (env.map ρ.entry)) =
      Conclusion.named ρ (Value.named ρ) (program.run limits (Machine.start env)) := by
  have hstatements (statement : Node) (hmem : statement ∈ program.body) : ρ.Keeps statement :=
    fun n hn => hprogram n (program.nodes_subset hmem hn)
  have hnull : ρ.policy.Allows .null := Policy.allows_of_plain rfl
  have hrun : Eval.Named.Gives ρ (program.run limits) ((program.named ρ).run limits) := by
    rw [Program.run, Program.run, Program.named, Node.namedAll_eq_map]
    refine (Eval.Named.each hnull fun statement hmem =>
      Eval.Named.executeTop limits (hstatements statement hmem)).bind fun completion hvalue => ?_
    rw [Completion.value_mapped]
    exact Eval.Named.pure hvalue
  rw [← Machine.start_named]
  exact (hrun _ (Policy.Holds.start_of_allows henv)).1

/-- Two names exchanged, neither of them that of a builtin. -/
def Naming.swap (a b : String) (ha : Builtin.ofName? a = none) (hb : Builtin.ofName? b = none) :
    Naming where
  toFun := Equiv.swap a b
  injective := (Equiv.swap a b).injective
  builtin c := by
    have hne {name : String} (h : Builtin.ofName? name = none) : c.name ≠ name := by
      rintro rfl
      rw [Builtin.ofName?_name] at h
      cases h
    exact Equiv.swap_apply_of_ne_of_ne (hne ha) (hne hb)

/-- A predefined name, a parameter, a variable in a function and one of a loop that hides another,
a template, and a name that is bound nowhere where it is asked for. -/
theorem Program.run_named_swap :
    let name (s : String) : Node := .identifier s 1
    let program : Program := ⟨[
      .function "f" ["x"] (.block [.binding "y" (name "x") 1, .template "y" 1] 1) 1,
      .forEach "y" (name "x") (.block [.binding "x" (name "y") 2,
        .call (name "print") [.call (name "f") [name "x"] 2, name "y"] 2] 2) 2,
      name "y"]⟩
    let env := [("x", Value.array [.int 1, .string "x"])]
    let ρ := Naming.swap "x" "y" rfl rfl
    (∀ n ∈ program.nodes, ∀ name ∈ n.declared?, ρ name = name) ∧
      (∀ entry ∈ env, ∀ f ∈ entry.2.functions, ρ.Keeps f.body) ∧
      (program.named ρ).run {} (Machine.start (env.map ρ.entry)) =
        Conclusion.named ρ (Value.named ρ) (program.run {} (Machine.start env)) := by
  intro name program env ρ
  have hprogram : ∀ n ∈ program.nodes, ∀ name ∈ n.declared?, ρ name = name := by
    have hf : ρ "f" = "f" := by decide
    simp [program, name, Program.nodes, Node.nodesAll, Node.nodes, Node.declared?, hf]
  have henv : ∀ entry ∈ env, ∀ f ∈ entry.2.functions, ρ.Keeps f.body := by
    intro entry hentry f hf
    obtain rfl := List.mem_singleton.1 hentry
    cases hf
  exact ⟨hprogram, henv, run_named ρ hprogram henv {}⟩

end PageScript
