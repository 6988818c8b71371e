import PageScript.Proofs.Evaluation.Isolation
import PageScript.Proofs.Evaluation.Renaming
import PageScript.Proofs.Fields
import PageScript.Proofs.Syntax.Trees

/-!
Policies. A policy says which functions a program may make and for what reasons a run may stop. A
state keeps to it if all functions in its scopes do, and an evaluation upholds it if it leads from
such states to such states, gives values with such functions only and stops for such reasons only.

There is a rule for each operation of the machine, and one for each form of node: what a node
upholds follows from what its parts and the bodies of functions uphold, and from the faults that the
node may find by itself. What every evaluation does to the counts of calls and to the text printed
is carried along, as the body of a function runs under one more call.
-/
namespace PageScript

/-! ### Functions in values and states -/

namespace Value

mutual

/-- The functions of programs that occur in a value. -/
def functions : Value → List Closure
  | array items => functionsItems items
  | object entries => functionsEntries entries
  | closure f => [f]
  | _ => []

def functionsItems : List Value → List Closure
  | [] => []
  | item :: rest => functions item ++ functionsItems rest

def functionsEntries : List (String × Value) → List Closure
  | [] => []
  | (_, value) :: rest => functions value ++ functionsEntries rest

end

theorem functionsItems_eq_flatMap (items : List Value) :
    functionsItems items = items.flatMap functions := by
  induction items with
  | nil => rfl
  | cons item rest ih => rw [functionsItems, ih, List.flatMap_cons]

theorem functionsEntries_eq_flatMap (entries : List (String × Value)) :
    functionsEntries entries = entries.flatMap (·.2.functions) := by
  induction entries with
  | nil => rfl
  | cons entry rest ih => rw [functionsEntries, ih, List.flatMap_cons]

mutual

theorem within_of_mem_functions {w : Extent} {f : Closure} :
    ∀ v : Value, v.within w → f ∈ v.functions → f.within w
  | null, _, hf | bool _, _, hf | number _, _, hf | string _, _, hf | builtin _, _, hf => nomatch hf
  | array items, h, hf => within_of_mem_functionsItems items h hf
  | object entries, h, hf => within_of_mem_functionsEntries entries h hf
  | closure g, h, hf => by
    obtain rfl := List.mem_singleton.1 hf
    exact h

theorem within_of_mem_functionsItems {w : Extent} {f : Closure} :
    ∀ items : List Value, itemsWithin w items → f ∈ functionsItems items → f.within w
  | [], _, hf => nomatch hf
  | item :: rest, h, hf => by
    simp only [itemsWithin, Bool.and_eq_true] at h
    exact (List.mem_append.1 hf).elim (within_of_mem_functions item h.1)
      (within_of_mem_functionsItems rest h.2)

theorem within_of_mem_functionsEntries {w : Extent} {f : Closure} :
    ∀ entries : List (String × Value), entriesWithin w entries → f ∈ functionsEntries entries →
      f.within w
  | [], _, hf => nomatch hf
  | (_, value) :: rest, h, hf => by
    simp only [entriesWithin, Bool.and_eq_true] at h
    exact (List.mem_append.1 hf).elim (within_of_mem_functions value h.1)
      (within_of_mem_functionsEntries rest h.2)

end

/-- What can be said without a function or a scope holds none. -/
theorem functions_of_within {v : Value} (h : v.within ⟨0, 0⟩) : v.functions = [] := by
  apply List.eq_nil_iff_forall_not_mem.2
  intro f hf
  have hwithin := within_of_mem_functions v h hf
  simp [Closure.within] at hwithin

end Value

/-- What is bound in a scope after a name was bound was so before, or is its new value. -/
theorem Scopes.mem_bindings_define {s : Scopes} {scope id : ScopeId} {name : String} {value : Value}
    {entry : String × Value} (h : entry ∈ (s.define scope name value).bindings id) :
    entry ∈ s.bindings id ∨ entry.2 = value := by
  rw [bindings_define] at h
  split at h
  · exact Fields.mem_put h
  · exact .inl h

/-- The functions that there may be, and the reasons for which an evaluation may stop. -/
structure Policy where
  function : Closure → Prop
  stop : Stop → Prop

namespace Policy
variable {p : Policy}

def Allows (p : Policy) (v : Value) : Prop := ∀ f ∈ v.functions, p.function f

/-- A state in which only functions that there may be are bound. -/
def Holds (p : Policy) (m : Machine) : Prop :=
  ∀ id, ∀ entry ∈ m.scopes.bindings id, p.Allows entry.2

theorem allows_of_plain {v : Value} (h : v.functions = []) : p.Allows v := by
  intro f hf
  rw [h] at hf
  cases hf

theorem allows_array {items : List Value} : p.Allows (.array items) ↔ ∀ v ∈ items, p.Allows v := by
  simp only [Allows, Value.functions, Value.functionsItems_eq_flatMap, List.mem_flatMap]
  constructor
  · intro h v hv f hf
    exact h f ⟨v, hv, hf⟩
  · rintro h f ⟨v, hv, hf⟩
    exact h v hv f hf

theorem allows_object {entries : List (String × Value)} :
    p.Allows (.object entries) ↔ ∀ entry ∈ entries, p.Allows entry.2 := by
  simp only [Allows, Value.functions, Value.functionsEntries_eq_flatMap, List.mem_flatMap]
  constructor
  · intro h entry hentry f hf
    exact h f ⟨entry, hentry, hf⟩
  · rintro h f ⟨entry, hentry, hf⟩
    exact h entry hentry f hf

theorem allows_closure {f : Closure} : p.Allows (.closure f) ↔ p.function f := by
  simp [Allows, Value.functions]

/-- What is called in place of a value is the value itself or a builtin. -/
theorem allows_callTarget {v : Value} (h : p.Allows v) : p.Allows (callTarget v) := by
  cases v with
  | closure f =>
    simp only [callTarget]
    split
    · exact allows_of_plain rfl
    · exact h
  | _ => exact h

end Policy

namespace Policy.Holds
variable {p : Policy} {m : Machine}

theorem lookup? (h : p.Holds m) {id : ScopeId} {name : String} {value : Value}
    (hvalue : m.scopes.lookup? id name = some value) : p.Allows value := by
  obtain ⟨scope, hget⟩ := Scopes.exists_get?_of_lookup? hvalue
  exact h scope _ (Fields.mem_of_get? hget)

theorem define (h : p.Holds m) (scope : ScopeId) (name : String) {value : Value}
    (hvalue : p.Allows value) : p.Holds { m with scopes := m.scopes.define scope name value } := by
  intro id entry hentry
  rcases Scopes.mem_bindings_define hentry with hentry | heq
  · exact h id entry hentry
  · rw [heq]
    exact hvalue

theorem child (h : p.Holds m) (parent : ScopeId) :
    p.Holds { m with scopes := (m.scopes.child parent).2 } := by
  intro id entry hentry
  rw [Scopes.bindings_child] at hentry
  exact h id entry hentry

/-- A policy holds in the first state of a session that begins with functions that there may be. -/
theorem start_of_allows {env : List (String × Value)} (h : ∀ entry ∈ env, p.Allows entry.2) :
    p.Holds (Machine.start env) := by
  apply Machine.start_induction
  · intro id entry hentry
    cases id with
    | zero => cases hentry
    | succ id => cases hentry
  · intro m hm entry hentry
    apply hm.define
    rcases hentry with ⟨b, hb⟩ | hentry
    · rw [hb]
      exact allows_of_plain rfl
    · exact h entry hentry

/-- Every policy holds in the first state of a session, if it begins without functions. -/
theorem start (p : Policy) {env : List (String × Value)}
    (h : ∀ entry ∈ env, entry.2.functions = []) : p.Holds (Machine.start env) :=
  start_of_allows fun entry hentry => allows_of_plain (h entry hentry)

end Policy.Holds

/-! ### What every evaluation does to the counts and the text -/

/-- From `m` to `m'` no call is left over, at most as many calls as the limit allows went on at
once, and nothing that was printed is lost. -/
structure Machine.Precedes (limit : Int) (m m' : Machine) : Prop where
  calls : m'.calls = m.calls
  deepest : m.deepest ≤ m'.deepest
  deepest_le : m'.deepest ≤ max m.deepest limit.toNat
  printed : ∃ text, m'.output = m.output ++ text

namespace Machine.Precedes
variable {limit : Int} {m m' m'' : Machine}

theorem quiet (hcalls : m'.calls = m.calls) (hdeepest : m'.deepest = m.deepest)
    (houtput : m'.output = m.output) : Precedes limit m m' := by
  refine ⟨hcalls, Nat.le_of_eq hdeepest.symm, ?_, "", ?_⟩
  · rw [hdeepest]
    exact Nat.le_max_left _ _
  · rw [houtput, String.append_empty]

theorem refl (m : Machine) : Precedes limit m m := quiet rfl rfl rfl

theorem trans (h : Precedes limit m m') (h' : Precedes limit m' m'') : Precedes limit m m'' := by
  obtain ⟨text, hm⟩ := h.printed
  obtain ⟨text', hm'⟩ := h'.printed
  refine ⟨h'.calls.trans h.calls, Nat.le_trans h.deepest h'.deepest, ?_, text ++ text', ?_⟩
  · have hle := h.deepest_le
    have hle' := h'.deepest_le
    omega
  · rw [hm', hm, String.append_assoc]

/-- A call that is within the limit is over when its body is. -/
theorem counted (hcalls : m.calls + 1 ≤ limit.toNat) (h : Precedes limit m.inCall m') :
    Precedes limit m { m' with calls := m.calls } := by
  have hdeepest : max m.deepest (m.calls + 1) ≤ m'.deepest := h.deepest
  have hle : m'.deepest ≤ max (max m.deepest (m.calls + 1)) limit.toNat := h.deepest_le
  refine ⟨rfl, ?_, ?_, h.printed⟩
  · show m.deepest ≤ m'.deepest
    omega
  · show m'.deepest ≤ max m.deepest limit.toNat
    omega

end Machine.Precedes

/-! ### Faults -/

theorem Operators.display_error {v : Value} {fault : RuntimeFault} (h : display v = .error fault) :
    fault = .tooLargeToDisplay := by
  unfold display at h
  split at h
  · cases h
  · cases h
    rfl

theorem displayAll_error {args : List Value} {fault : RuntimeFault}
    (h : displayAll args = .error fault) : fault = .tooLargeToDisplay := by
  induction args with
  | nil => cases h
  | cons v rest ih =>
    simp only [displayAll, bind, Except.bind] at h
    cases hv : Operators.display v with
    | error fault' =>
      rw [hv] at h
      cases h
      exact Operators.display_error hv
    | ok text =>
      rw [hv] at h
      cases hrest : displayAll rest with
      | error fault' =>
        rw [hrest] at h
        cases h
        exact ih hrest
      | ok texts =>
        rw [hrest] at h
        cases h

/-- The faults that a call finds by itself. -/
inductive RuntimeFault.OfCall (limit : Int) : RuntimeFault → Prop where
  | display : OfCall limit .tooLargeToDisplay
  | length (kind : ValueKind) : OfCall limit (.noLength kind)
  | notCallable (kind : ValueKind) : OfCall limit (.notCallable kind)
  | depth (function : String) : OfCall limit (.callDepth limit function)

/-- The faults that a node finds by itself, apart from those of its parts and of the functions that
it calls. -/
def Node.Raises (limit : Int) (fault : RuntimeFault) : Node → Prop
  | .identifier name _ | .template name _ => fault = .undefined name
  | .binary operator _ _ _ => ∃ a b, Operators.binary operator a b = .error fault
  | .unary operator _ _ => ∃ a, Operators.unary operator a = .error fault
  | .call _ _ _ => fault.OfCall limit
  | .forEach _ _ _ _ => ∃ kind, fault = .notIterable kind
  | _ => False

/-! ### Evaluations that uphold a policy -/

/-- What an evaluation comes to: a result that is good, or a stop for a reason that is allowed. -/
def Policy.Ends {α : Type} (p : Policy) (good : α → Prop) : EStateM.Result Stop Machine α → Prop
  | .ok a _ => good a
  | .error stop _ => p.stop stop

/-- From every state in which the policy holds and so many calls go on, an evaluation leads to
another, and its result is good or it stops for an allowed reason. -/
def Eval.Upholds {α : Type} (p : Policy) (limit : Int) (calls : Nat) (good : α → Prop)
    (x : Eval α) : Prop :=
  ∀ m : Machine, p.Holds m → m.calls = calls →
    m.Precedes limit (x.after m) ∧ p.Holds (x.after m) ∧ p.Ends good (x m)

/-- Only functions that there may be are in the value. -/
abbrev Policy.AllowsCompletion (p : Policy) (completion : Completion) : Prop :=
  p.Allows completion.value

namespace Eval.Upholds
variable {α β : Type} {p : Policy} {limit : Int} {calls : Nat} {good : α → Prop} {good' : β → Prop}

theorem pure {a : α} (h : good a) : Upholds p limit calls good (Pure.pure a) :=
  fun m hm _ => ⟨.refl m, hm, h⟩

theorem throw {stop : Stop} (h : p.stop stop) :
    Upholds p limit calls good (MonadExcept.throw stop) :=
  fun m hm _ => ⟨.refl m, hm, h⟩

theorem bind {x : Eval α} {f : α → Eval β} (hx : Upholds p limit calls good x)
    (hf : ∀ a, good a → Upholds p limit calls good' (f a)) :
    Upholds p limit calls good' (x >>= f) := by
  intro m hm hcalls
  obtain ⟨hprecedes, hholds, hends⟩ := hx m hm hcalls
  cases hr : x m with
  | ok a m' =>
    rw [hr] at hends
    rw [after_of_ok hr] at hprecedes hholds
    rw [after_bind_of_ok hr, bind_apply_of_ok hr]
    obtain ⟨hprecedes', hrest⟩ := hf a hends m' hholds (hprecedes.calls.trans hcalls)
    exact ⟨hprecedes.trans hprecedes', hrest⟩
  | error stop m' =>
    rw [hr] at hends
    rw [after_of_error hr] at hprecedes hholds
    rw [after_bind_of_error hr, bind_apply_of_error hr]
    exact ⟨hprecedes, hholds, hends⟩

theorem map {x : Eval α} {f : α → β} (hx : Upholds p limit calls good x)
    (hf : ∀ a, good a → good' (f a)) : Upholds p limit calls good' (f <$> x) := by
  rw [map_eq_pure_bind]
  exact hx.bind fun a ha => pure (hf a ha)

theorem fail {fault : RuntimeFault} {line : Int} (h : p.stop (.error ⟨fault, line⟩)) :
    Upholds p limit calls good (Eval.fail fault line) :=
  throw h

theorem lift {line : Int} {result : Except RuntimeFault α} (hok : ∀ a, result = .ok a → good a)
    (herror : ∀ fault, result = .error fault → p.stop (.error ⟨fault, line⟩)) :
    Upholds p limit calls good (Eval.lift line result) := by
  cases result with
  | ok a => exact pure (hok a rfl)
  | error fault => exact fail (herror fault rfl)

theorem lookup {scope : ScopeId} {name : String} {line : Int}
    (h : p.stop (.error ⟨.undefined name, line⟩)) :
    Upholds p limit calls p.Allows (Eval.lookup scope name line) := by
  intro m hm hcalls
  simp only [Eval.lookup, Eval.get_bind_apply, after]
  cases hvalue : m.scopes.lookup? scope name with
  | none => exact ⟨.refl m, hm, h⟩
  | some value => exact ⟨.refl m, hm, hm.lookup? hvalue⟩

theorem define (scope : ScopeId) (name : String) {value : Value} (h : p.Allows value) :
    Upholds p limit calls (fun _ => True) (Eval.define scope name value) :=
  fun _ hm _ => ⟨.quiet rfl rfl rfl, hm.define scope name h, trivial⟩

theorem newScope (parent : ScopeId) :
    Upholds p limit calls (fun _ => True) (Eval.newScope parent) :=
  fun _ hm _ => ⟨.quiet rfl rfl rfl, hm.child parent, trivial⟩

theorem newClosure {name : String} {params : List String} {body : Node} {scope : ScopeId}
    (h : ∀ id, p.function ⟨id, name, params, body, scope⟩) :
    Upholds p limit calls p.function (Eval.newClosure name params body scope) :=
  fun m hm _ => ⟨.quiet rfl rfl rfl, hm, h m.functions⟩

theorem print (text : String) : Upholds p limit calls (fun _ => True) (Eval.print text) :=
  fun _ hm _ => ⟨⟨rfl, Nat.le_refl _, Nat.le_max_left _ _, text, rfl⟩, hm, trivial⟩

/-- A call that is within the limit is counted while it goes on. -/
theorem counted {x : Eval α} (hcalls : calls + 1 ≤ limit.toNat)
    (hx : Upholds p limit (calls + 1) good x) : Upholds p limit calls good (Eval.counted x) := by
  intro m hm hm'
  obtain ⟨hprecedes, hholds, hends⟩ := hx m.inCall hm (by rw [Machine.inCall, hm'])
  rw [after_counted]
  refine ⟨hprecedes.counted (by omega), hholds, ?_⟩
  rw [Eval.counted_apply]
  cases hrun : x m.inCall with
  | ok a m' | error stop m' =>
    rw [hrun] at hends
    exact hends

theorem mapM {x : α → Eval β} {items : List α}
    (hx : ∀ a ∈ items, Upholds p limit calls good' (x a)) :
    Upholds p limit calls (fun bs => ∀ b ∈ bs, good' b) (items.mapM x) := by
  induction items with
  | nil => exact pure fun _ h => nomatch h
  | cons a rest ih =>
    rw [List.mapM_cons]
    refine (hx a List.mem_cons_self).bind fun b hb => ?_
    refine (ih fun a ha => hx a (List.mem_cons_of_mem _ ha)).bind fun bs hbs => ?_
    exact pure (List.forall_mem_cons.2 ⟨hb, hbs⟩)

theorem each {x : α → Eval Completion} {items : List α} {last : Value} (hlast : p.Allows last)
    (hx : ∀ a ∈ items, Upholds p limit calls p.AllowsCompletion (x a)) :
    Upholds p limit calls p.AllowsCompletion (Eval.each x last items) := by
  induction items generalizing last with
  | nil => exact pure hlast
  | cons a rest ih =>
    refine (hx a List.mem_cons_self).bind fun completion hcompletion => ?_
    cases completion with
    | completed value => exact ih hcompletion fun a ha => hx a (List.mem_cons_of_mem _ ha)
    | returned value => exact pure hcompletion

theorem repeatWhile {condition : Eval Value} {body : Eval Completion} {last : Value}
    (hlast : p.Allows last) (hstop : p.stop .unfinished) (rounds : Nat)
    (hc : Upholds p limit calls p.Allows condition)
    (hb : Upholds p limit calls p.AllowsCompletion body) :
    Upholds p limit calls p.AllowsCompletion (Eval.repeatWhile condition body last rounds) := by
  induction rounds generalizing last with
  | zero => exact throw hstop
  | succ rounds ih =>
    refine hc.bind fun v hv => ?_
    split
    · refine hb.bind fun completion hcompletion => ?_
      cases completion with
      | completed value => exact ih hcompletion
      | returned value => exact pure hcompletion
    · exact pure hlast

theorem bindAll (scope : ScopeId) (params : List String) {args : List Value}
    (h : ∀ arg ∈ args, p.Allows arg) :
    Upholds p limit calls (fun _ => True) (Eval.bindAll scope params args) := by
  induction params generalizing args with
  | nil => exact pure trivial
  | cons param params ih =>
    have hfirst : p.Allows (args.head?.getD .null) := by
      cases args with
      | nil => exact Policy.allows_of_plain rfl
      | cons arg args => exact h arg List.mem_cons_self
    refine (define scope param hfirst).bind fun _ _ => ?_
    exact ih fun arg harg => h arg (List.mem_of_mem_tail harg)

/-! ### Calls -/

/-- A builtin fails only if a value has no text or no length. -/
theorem callBuiltin (b : Builtin) (args : List Value) {line : Int}
    (hdisplay : p.stop (.error ⟨.tooLargeToDisplay, line⟩))
    (hlength : ∀ kind, p.stop (.error ⟨.noLength kind, line⟩)) :
    Upholds p limit calls p.Allows (b.call args line) := by
  cases b with
  | print =>
    have htexts : Upholds p limit calls (fun _ => True) (Eval.lift line (displayAll args)) := by
      refine lift (fun _ _ => trivial) fun fault h => ?_
      rw [displayAll_error h]
      exact hdisplay
    exact htexts.bind fun texts _ => (print _).bind fun _ _ => pure (Policy.allows_of_plain rfl)
  | len =>
    simp only [Builtin.call]
    split
    · exact pure (Policy.allows_of_plain rfl)
    · exact pure (Policy.allows_of_plain rfl)
    · exact fail (hlength _)
  | str =>
    have htext : Upholds p limit calls (fun _ => True)
        (Eval.lift line (Operators.display (args.head?.getD .null))) := by
      refine lift (fun _ _ => trivial) fun fault h => ?_
      rw [Operators.display_error h]
      exact hdisplay
    exact htext.bind fun text _ => pure (Policy.allows_of_plain rfl)
  | type => exact pure (Policy.allows_of_plain rfl)

end Eval.Upholds

/-- What the body of a function upholds when `run` runs the statements in it. -/
def Eval.BodyUpholds (p : Policy) (limit : Int) (calls : Nat)
    (run : ScopeId → Node → Eval Completion) : Node → Prop
  | .block statements _ => ∀ statement ∈ statements, ∀ scope,
    Upholds p limit calls p.AllowsCompletion (run scope statement)
  | _ => p.stop .bodyNotBlock

namespace Eval.Upholds
variable {α β : Type} {p : Policy} {limit : Int} {calls : Nat} {limits : Limits}
  {run : ScopeId → Node → Eval Completion}

theorem enter {f : Closure} (hcalls : calls + 1 ≤ limit.toNat)
    (hbody : BodyUpholds p limit (calls + 1) run f.body) {args : List Value}
    (hargs : ∀ arg ∈ args, p.Allows arg) : Upholds p limit calls p.Allows (f.enter run args) := by
  refine (newScope f.scope).bind fun scope _ => (bindAll scope f.params hargs).bind fun _ _ => ?_
  refine bind (counted hcalls ?_) fun completion hcompletion => pure hcompletion
  split
  · next statements line heq =>
    rw [heq] at hbody
    refine each (Policy.allows_of_plain rfl) ?_
    exact fun statement hstatement => hbody statement hstatement scope
  · next hne =>
    refine throw ?_
    unfold BodyUpholds at hbody
    split at hbody
    · next heq => exact absurd heq (hne _ _)
    · exact hbody

/-- A call needs of a function what its body does under one more call, if that call is allowed. -/
theorem callValue {target : Value} (htarget : p.Allows target)
    (hbodies : calls < limits.callDepth → ∀ f, p.function f →
      BodyUpholds p limits.callDepth (calls + 1) run f.body)
    {args : List Value} (hargs : ∀ arg ∈ args, p.Allows arg) {line : Int}
    (hstop : ∀ fault, RuntimeFault.OfCall limits.callDepth fault → p.stop (.error ⟨fault, line⟩)) :
    Upholds p limits.callDepth calls p.Allows (target.call limits run args line) := by
  cases target with
  | builtin b => exact callBuiltin b args (hstop _ .display) fun kind => hstop _ (.length kind)
  | closure f =>
    intro m hm hcalls
    have hcall := Closure.call_apply limits run f args line m
    unfold after
    by_cases hdepth : limits.callDepth ≤ m.calls
    · rw [if_pos hdepth] at hcall
      rw [Value.call, hcall]
      exact fail (hstop _ (.depth f.name)) m hm hcalls
    · rw [if_neg hdepth] at hcall
      rw [Value.call, hcall]
      have hlt : calls < limits.callDepth := by omega
      exact enter (by omega) (hbodies hlt f (Policy.allows_closure.1 htarget)) hargs m hm hcalls
  | null | bool | number | string | array | object => exact fail (hstop _ (.notCallable _))

theorem calleeValue {value : Node → Eval Value} {callee : Node}
    (hvalue : Upholds p limit calls p.Allows (value callee)) :
    Upholds p limit calls p.Allows (PageScript.calleeValue value callee) := by
  simp only [PageScript.calleeValue]
  split
  · exact pure (Policy.allows_of_plain rfl)
  · exact hvalue.map fun v hv => Policy.allows_callTarget hv

/-! ### Expressions and statements -/

section
variable {depth : Nat} {scope : ScopeId} {node : Node}

/-- An expression upholds what its operands and the functions that it may call uphold. -/
theorem evaluate_succ
    (hform : node.isExpression ∨ p.stop (.error ⟨.notAnExpression node.kind, node.line⟩))
    (hraises : ∀ fault, node.Raises limits.callDepth fault → p.stop (.error ⟨fault, node.line⟩))
    (hbodies : calls < limits.callDepth → ∀ f, p.function f →
      BodyUpholds p limits.callDepth (calls + 1) (execute limits depth) f.body)
    (hoperands : ∀ operand ∈ node.operands,
      Upholds p limits.callDepth calls p.Allows (evaluate limits depth scope operand)) :
    Upholds p limits.callDepth calls p.Allows (evaluate limits (depth + 1) scope node) := by
  cases node with
  | literal value line => cases value <;> exact pure (Policy.allows_of_plain rfl)
  | identifier name line => exact lookup (hraises _ rfl)
  | template name line => exact lookup (hraises _ rfl)
  | binary operator left right line =>
    refine (hoperands left (by simp [Node.operands])).bind fun a _ => ?_
    refine (hoperands right (by simp [Node.operands])).bind fun b _ => ?_
    refine lift (fun v hv => ?_) fun fault hfault => hraises fault ⟨a, b, hfault⟩
    exact Policy.allows_of_plain (Value.functions_of_within (Operators.within_of_binary hv))
  | unary operator operand line =>
    refine (hoperands operand (by simp [Node.operands])).bind fun a _ => ?_
    refine lift (fun v hv => ?_) fun fault hfault => hraises fault ⟨a, hfault⟩
    exact Policy.allows_of_plain (Value.functions_of_within (Operators.within_of_unary hv))
  | call callee args line =>
    have hcallee := calleeValue (hoperands callee (by simp [Node.operands]))
    refine hcallee.bind fun target htarget => ?_
    refine (mapM fun arg harg => hoperands arg (by simp [Node.operands, harg])).bind ?_
    intro values hvalues
    exact callValue htarget hbodies hvalues hraises
  | array elements line =>
    refine (mapM hoperands).bind fun items hitems => ?_
    exact pure (Policy.allows_array.2 hitems)
  | object properties line =>
    refine bind (?_ : Upholds p limits.callDepth calls
      (fun entries => ∀ entry ∈ entries, p.Allows entry.2) _) fun entries hentries => ?_
    · refine mapM fun property hproperty => (hoperands property.2 ?_).bind fun v hv => pure hv
      exact List.mem_map.2 ⟨property, hproperty, rfl⟩
    · refine pure (Policy.allows_object.2 fun entry hentry => ?_)
      obtain ⟨e, he, heq⟩ := Fields.mem_ofList hentry
      rw [← heq]
      exact hentries e he
  | program | binding | function | branch | forEach | whileLoop | returning | block =>
    exact fail (hform.resolve_left Bool.false_ne_true)

/-- A statement upholds what its parts uphold, and any other node what its value upholds. -/
theorem execute_succ
    (hself : node.isStatement = false →
      Upholds p limits.callDepth calls p.Allows (evaluate limits depth scope node))
    (hloop : node.isWhileLoop → p.stop .unfinished)
    (hfunction : ∀ name params body line id, node = .function name params body line →
      p.function ⟨id, name, params, body, scope⟩)
    (hraises : ∀ fault, node.Raises limits.callDepth fault → p.stop (.error ⟨fault, node.line⟩))
    (hoperands : ∀ operand ∈ node.operands,
      Upholds p limits.callDepth calls p.Allows (evaluate limits depth scope operand))
    (hparts : ∀ part ∈ node.parts, ∀ scope,
      Upholds p limits.callDepth calls p.AllowsCompletion (execute limits depth scope part)) :
    Upholds p limits.callDepth calls p.AllowsCompletion
      (execute limits (depth + 1) scope node) := by
  have hnull : p.Allows .null := Policy.allows_of_plain rfl
  cases node with
  | binding name value line =>
    refine (hoperands value (by simp [Node.operands])).bind fun v hv => ?_
    exact (define scope name hv).bind fun _ _ => pure hv
  | function name params body line =>
    refine (newClosure fun id => hfunction name params body line id rfl).bind fun f hf => ?_
    have hf := Policy.allows_closure.2 hf
    exact (define scope name hf).bind fun _ _ => pure hf
  | branch condition thenPart elsePart line =>
    refine (hoperands condition (by simp [Node.operands])).bind fun v _ => ?_
    split
    · exact hparts thenPart (by simp [Node.parts]) scope
    · cases elsePart with
      | some part => exact hparts part (by simp [Node.parts]) scope
      | none => exact pure hnull
  | forEach item source body line =>
    refine (hoperands source (by simp [Node.operands])).bind fun v hv => ?_
    cases v with
    | array items =>
      refine each hnull fun value hvalue => (newScope scope).bind fun inner _ => ?_
      refine (define inner item (Policy.allows_array.1 hv value hvalue)).bind fun _ _ => ?_
      exact hparts body (by simp [Node.parts]) inner
    | null | bool | number | string | object | closure | builtin => exact fail (hraises _ ⟨_, rfl⟩)
  | whileLoop condition body line =>
    exact repeatWhile hnull (hloop rfl) limits.rounds
      (hoperands condition (by simp [Node.operands])) (hparts body (by simp [Node.parts]) scope)
  | returning value line =>
    cases value with
    | some part => exact (hoperands part (by simp [Node.operands])).bind fun v hv => pure hv
    | none => exact pure hnull
  | block statements line =>
    refine (newScope scope).bind fun inner _ => ?_
    exact each hnull fun statement hstatement => hparts statement hstatement inner
  | _ => exact (hself rfl).bind fun v hv => pure hv

end

end Eval.Upholds

/-! ### The policy that allows everything -/

/-- Every function may be made, and every reason to stop will do. -/
def Policy.any : Policy := ⟨fun _ => True, fun _ => True⟩

/-- If every function may be made, every state will do to begin with. -/
theorem Eval.Upholds.precedes {α : Type} {p : Policy} {limit : Int} {good : α → Prop} {x : Eval α}
    (hp : ∀ f, p.function f) (h : ∀ calls, Upholds p limit calls good x) (m : Machine) :
    m.Precedes limit (x.after m) :=
  (h m.calls m (fun _ _ _ f _ => hp f) rfl).1

theorem evaluate_execute_uphold_any (limits : Limits) (depth : Nat) :
    (∀ calls scope node, Eval.Upholds .any limits.callDepth calls Policy.any.Allows
      (evaluate limits depth scope node)) ∧
    ∀ calls scope node, Eval.Upholds .any limits.callDepth calls Policy.any.AllowsCompletion
      (execute limits depth scope node) := by
  induction depth with
  | zero => exact ⟨fun _ _ _ => .throw trivial, fun _ _ _ => .throw trivial⟩
  | succ depth ih =>
    obtain ⟨heval, hexec⟩ := ih
    constructor
    · intro calls scope node
      apply Eval.Upholds.evaluate_succ (.inr trivial) (fun _ _ => trivial)
      · intro _ f _
        cases f.body with
        | block statements line => exact fun statement _ scope => hexec (calls + 1) scope statement
        | _ => trivial
      · exact fun operand _ => heval calls scope operand
    · intro calls scope node
      apply Eval.Upholds.execute_succ
      · exact fun _ => heval calls scope node
      · exact fun _ => trivial
      · exact fun _ _ _ _ _ _ => trivial
      · exact fun _ _ => trivial
      · exact fun operand _ => heval calls scope operand
      · exact fun part _ scope => hexec calls scope part

/-- No evaluation leaves a call over, exceeds the limit of calls or takes back what was printed. -/
theorem evaluate_execute_precedes (limits : Limits) (depth : Nat) :
    (∀ scope node (m : Machine),
      m.Precedes limits.callDepth ((evaluate limits depth scope node).after m)) ∧
    ∀ scope node (m : Machine),
      m.Precedes limits.callDepth ((execute limits depth scope node).after m) := by
  obtain ⟨heval, hexec⟩ := evaluate_execute_uphold_any limits depth
  constructor
  · intro scope node
    exact Eval.Upholds.precedes (fun _ => trivial) fun calls => heval calls scope node
  · intro scope node
    exact Eval.Upholds.precedes (fun _ => trivial) fun calls => hexec calls scope node

end PageScript
