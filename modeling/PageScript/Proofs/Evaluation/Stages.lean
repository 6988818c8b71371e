import PageScript.Proofs.Evaluation.Isolation
import PageScript.Proofs.Evaluation.Renaming

/-!
Stages of a session. What a session makes is never unmade, so what is known of its values and scopes
at one stage holds at all later ones. If each operation of the machine leads from a state of one
stage to a state of a later one, so does every evaluation, and what it gives is a value of that
stage.
-/
namespace PageScript

/-- Stages of what a session has made, with what is known at each of them, and why it is kept. -/
structure Stages (Stage : Type) where
  /-- The second stage is the first one or comes after it. -/
  le : Stage → Stage → Prop
  state : Stage → Machine → Prop
  value : Stage → Value → Prop
  scope : Stage → ScopeId → Prop
  refl (w : Stage) : le w w
  trans {u v w : Stage} : le u v → le v w → le u w
  value_mono {w w' : Stage} {v : Value} : le w w' → value w v → value w' v
  scope_mono {w w' : Stage} {id : ScopeId} : le w w' → scope w id → scope w' id
  plain (w : Stage) {v : Value} : v.isPlain → value w v
  array {w : Stage} {items : List Value} : value w (.array items) ↔ ∀ v ∈ items, value w v
  object {w : Stage} {entries : List (String × Value)} :
    (∀ entry ∈ entries, value w entry.2) → value w (.object (Fields.ofList entries))
  closure {w : Stage} {f : Closure} : value w (.closure f) → scope w f.scope
  /-- What is printed and which calls go on does not matter. -/
  quiet {w : Stage} {m m' : Machine} :
    state w m → m'.scopes = m.scopes → m'.functions = m.functions → state w m'
  lookup {w : Stage} {m : Machine} {id : ScopeId} {name : String} {v : Value} :
    state w m → m.scopes.lookup? id name = some v → value w v
  define {w : Stage} {m : Machine} (id : ScopeId) (name : String) {v : Value} :
    state w m → value w v → state w { m with scopes := m.scopes.define id name v }
  child {w : Stage} {m : Machine} {parent : ScopeId} : state w m → scope w parent →
    ∃ w', le w w' ∧ state w' { m with scopes := (m.scopes.child parent).2 } ∧
      scope w' (m.scopes.child parent).1
  make {w : Stage} {m : Machine} (name : String) (params : List String) (body : Node)
    {id : ScopeId} : state w m → scope w id →
    ∃ w', le w w' ∧ state w' { m with functions := m.functions + 1 } ∧
      value w' (.closure ⟨m.functions, name, params, body, id⟩)

/-- What is known of how a statement ends. -/
abbrev Stages.completion {Stage : Type} (S : Stages Stage) (w : Stage) (c : Completion) : Prop :=
  S.value w c.value

/-- From every state of a stage, an evaluation leads to a state of a later one, and what it gives is
as `good` asks for at that stage. -/
def Eval.Advances {Stage α : Type} (S : Stages Stage) (w : Stage) (good : Stage → α → Prop)
    (x : Eval α) : Prop :=
  ∀ m, S.state w m → ∃ w', S.le w w' ∧ S.state w' (x.after m) ∧
    ∀ a m', x m = .ok a m' → good w' a

namespace Eval.Advances
variable {Stage α β : Type} {S : Stages Stage} {w : Stage} {good : Stage → α → Prop}
  {good' : Stage → β → Prop}

theorem pure {a : α} (h : good w a) : Advances S w good (Pure.pure a) := by
  refine fun m hm => ⟨w, S.refl w, hm, fun b m' hb => ?_⟩
  cases hb
  exact h

theorem throw (stop : Stop) : Advances S w good (MonadExcept.throw stop) :=
  fun _ hm => ⟨w, S.refl w, hm, nofun⟩

/-- What comes next may rely on all that is known by then. -/
theorem bind {x : Eval α} {f : α → Eval β} (hx : Advances S w good x)
    (hf : ∀ w' a, S.le w w' → good w' a → Advances S w' good' (f a)) :
    Advances S w good' (x >>= f) := by
  intro m hm
  obtain ⟨w', hw, hstate, hgood⟩ := hx m hm
  cases hr : x m with
  | ok a m' =>
    rw [after_of_ok hr] at hstate
    rw [after_bind_of_ok hr, bind_apply_of_ok hr]
    obtain ⟨w'', hw', hrest⟩ := hf w' a hw (hgood a m' hr) m' hstate
    exact ⟨w'', S.trans hw hw', hrest⟩
  | error stop m' =>
    rw [after_of_error hr] at hstate
    rw [after_bind_of_error hr, bind_apply_of_error hr]
    exact ⟨w', hw, hstate, nofun⟩

theorem map {x : Eval α} {f : α → β} (hx : Advances S w good x)
    (hf : ∀ w' a, good w' a → good' w' (f a)) : Advances S w good' (f <$> x) := by
  rw [map_eq_pure_bind]
  exact hx.bind fun w' a _ ha => pure (hf w' a ha)

theorem fail (fault : RuntimeFault) (line : Int) : Advances S w good (Eval.fail fault line) :=
  throw _

theorem lift {line : Int} {result : Except RuntimeFault α} (h : ∀ a, result = .ok a → good w a) :
    Advances S w good (Eval.lift line result) := by
  cases result with
  | ok a => exact pure (h a rfl)
  | error fault => exact fail fault line

theorem get : Advances S w (fun _ _ => True) (MonadState.get : Eval Machine) :=
  fun _ hm => ⟨w, S.refl w, hm, fun _ _ _ => trivial⟩

theorem lookup (scope : ScopeId) (name : String) (line : Int) :
    Advances S w S.value (Eval.lookup scope name line) := by
  intro m hm
  refine ⟨w, S.refl w, ?_⟩
  simp only [Eval.lookup, Eval.get_bind_apply, after]
  cases hvalue : m.scopes.lookup? scope name with
  | none => exact ⟨hm, nofun⟩
  | some value =>
    refine ⟨hm, fun v m' hv => ?_⟩
    cases hv
    exact S.lookup hm hvalue

theorem define (scope : ScopeId) (name : String) {value : Value} (h : S.value w value) :
    Advances S w (fun _ _ => True) (Eval.define scope name value) :=
  fun _ hm => ⟨w, S.refl w, S.define scope name hm h, fun _ _ _ => trivial⟩

theorem newScope {parent : ScopeId} (h : S.scope w parent) :
    Advances S w S.scope (Eval.newScope parent) := by
  intro m hm
  obtain ⟨w', hw, hstate, hscope⟩ := S.child hm h
  refine ⟨w', hw, hstate, fun id m' hid => ?_⟩
  cases hid
  exact hscope

theorem newClosure (name : String) (params : List String) (body : Node) {scope : ScopeId}
    (h : S.scope w scope) :
    Advances S w (fun w f => S.value w (.closure f)) (Eval.newClosure name params body scope) := by
  intro m hm
  obtain ⟨w', hw, hstate, hvalue⟩ := S.make name params body hm h
  refine ⟨w', hw, hstate, fun f m' hf => ?_⟩
  cases hf
  exact hvalue

theorem print (text : String) : Advances S w (fun _ _ => True) (Eval.print text) :=
  fun _ hm => ⟨w, S.refl w, S.quiet hm rfl rfl, fun _ _ _ => trivial⟩

theorem counted {x : Eval α} (hx : Advances S w good x) : Advances S w good (Eval.counted x) := by
  intro m hm
  obtain ⟨w', hw, hstate, hgood⟩ := hx m.inCall (S.quiet hm rfl rfl)
  rw [after_counted]
  refine ⟨w', hw, S.quiet hstate rfl rfl, fun b m'' hb => ?_⟩
  rw [counted_apply] at hb
  cases hrun : x m.inCall with
  | ok a m' =>
    rw [hrun] at hb
    cases hb
    exact hgood b m' hrun
  | error stop m' =>
    rw [hrun] at hb
    cases hb

/-- What is evaluated first stays good while the rest is evaluated. -/
theorem mapM {x : α → Eval β} (items : List α)
    (hmono : ∀ w' w'' b, S.le w' w'' → good' w' b → good' w'' b)
    (hx : ∀ a w', S.le w w' → Advances S w' good' (x a)) :
    Advances S w (fun w bs => ∀ b ∈ bs, good' w b) (items.mapM x) := by
  induction items generalizing w with
  | nil => exact pure nofun
  | cons a rest ih =>
    rw [List.mapM_cons]
    refine (hx a w (S.refl w)).bind fun w' b hw hb => ?_
    refine (ih fun a w'' hw' => hx a w'' (S.trans hw hw')).bind fun w'' bs hw' hbs => ?_
    exact pure (List.forall_mem_cons.2 ⟨hmono _ _ _ hw' hb, hbs⟩)

theorem each {x : α → Eval Completion} (items : List α) {last : Value} (hlast : S.value w last)
    (hx : ∀ a ∈ items, ∀ w', S.le w w' → Advances S w' S.completion (x a)) :
    Advances S w S.completion (Eval.each x last items) := by
  induction items generalizing w last with
  | nil => exact pure hlast
  | cons a rest ih =>
    refine (hx a List.mem_cons_self w (S.refl w)).bind fun w' c hw hc => ?_
    cases c with
    | completed value =>
      exact ih hc fun b hb w'' hw' => hx b (List.mem_cons_of_mem _ hb) w'' (S.trans hw hw')
    | returned value => exact pure hc

theorem repeatWhile {condition : Eval Value} {body : Eval Completion} {last : Value}
    (hlast : S.value w last) (rounds : Nat)
    (hcondition : ∀ w', S.le w w' → Advances S w' S.value condition)
    (hbody : ∀ w', S.le w w' → Advances S w' S.completion body) :
    Advances S w S.completion (Eval.repeatWhile condition body last rounds) := by
  induction rounds generalizing w last with
  | zero => exact throw _
  | succ rounds ih =>
    refine (hcondition w (S.refl w)).bind fun w' v hw _ => ?_
    split
    · refine (hbody w' hw).bind fun w'' c hw' hc => ?_
      have hle {u : Stage} (hu : S.le w'' u) : S.le w u := S.trans (S.trans hw hw') hu
      cases c with
      | completed value =>
        exact ih hc (fun u hu => hcondition u (hle hu)) fun u hu => hbody u (hle hu)
      | returned value => exact pure hc
    · exact pure (S.value_mono hw hlast)

theorem bindAll (scope : ScopeId) (params : List String) {args : List Value}
    (h : ∀ arg ∈ args, S.value w arg) :
    Advances S w (fun _ _ => True) (Eval.bindAll scope params args) := by
  induction params generalizing w args with
  | nil => exact pure trivial
  | cons param params ih =>
    have hfirst : S.value w (args.head?.getD .null) := by
      cases args with
      | nil => exact S.plain w rfl
      | cons arg args => exact h arg List.mem_cons_self
    refine (define scope param hfirst).bind fun w' _ hw _ => ih fun arg harg => ?_
    exact S.value_mono hw (h arg (List.mem_of_mem_tail harg))

/-! ### Calls -/

theorem callBuiltin (b : Builtin) (args : List Value) (line : Int) :
    Advances S w S.value (b.call args line) := by
  cases b with
  | print =>
    have htexts : Advances S w (fun _ _ => True) (Eval.lift line (displayAll args)) :=
      lift fun _ _ => trivial
    refine htexts.bind fun w' texts _ _ => ?_
    exact (print _).bind fun w'' _ _ _ => pure (S.plain w'' rfl)
  | len =>
    simp only [Builtin.call]
    split
    · exact pure (S.plain w rfl)
    · exact pure (S.plain w rfl)
    · exact fail _ _
  | str =>
    have htext : Advances S w (fun _ _ => True)
        (Eval.lift line (Operators.display (args.head?.getD .null))) :=
      lift fun _ _ => trivial
    exact htext.bind fun w' text _ _ => pure (S.plain w' rfl)
  | type => exact pure (S.plain w rfl)

/-- What a run of a statement in a scope has to do for calls to advance. -/
abbrev Runs (S : Stages Stage) (w : Stage) (run : ScopeId → Node → Eval Completion) : Prop :=
  ∀ w' scope node, S.le w w' → S.scope w' scope → Advances S w' S.completion (run scope node)

theorem enter {run : ScopeId → Node → Eval Completion} (hrun : Runs S w run) {f : Closure}
    (hf : S.value w (.closure f)) {args : List Value} (hargs : ∀ arg ∈ args, S.value w arg) :
    Advances S w S.value (f.enter run args) := by
  refine (newScope (S.closure hf)).bind fun w' scope hw hscope => ?_
  refine (bindAll scope f.params fun arg harg => S.value_mono hw (hargs arg harg)).bind
    fun w'' _ hw' _ => ?_
  refine bind (?_ : Advances S w'' S.completion _) fun u c _ hc => pure hc
  refine counted ?_
  split
  · refine each _ (S.plain w'' rfl) fun statement _ u hu => hrun u scope statement ?_ ?_
    · exact S.trans (S.trans hw hw') hu
    · exact S.scope_mono (S.trans hw' hu) hscope
  · exact throw _

theorem callValue (limits : Limits) {run : ScopeId → Node → Eval Completion} (hrun : Runs S w run)
    {args : List Value} (hargs : ∀ arg ∈ args, S.value w arg) (line : Int) {target : Value}
    (htarget : S.value w target) : Advances S w S.value (target.call limits run args line) := by
  cases target with
  | builtin b => exact callBuiltin b args line
  | closure f =>
    refine get.bind fun w' m hw _ => ?_
    split
    · exact fail _ _
    · exact enter (fun u scope node hu => hrun u scope node (S.trans hw hu))
        (S.value_mono hw htarget) fun arg harg => S.value_mono hw (hargs arg harg)
  | _ => exact fail _ line

theorem value_callTarget {v : Value} (h : S.value w v) : S.value w (callTarget v) := by
  cases v with
  | closure f =>
    simp only [callTarget]
    split
    · exact S.plain w rfl
    · exact h
  | _ => exact h

theorem calleeValue {value : Node → Eval Value}
    (hvalue : ∀ node, Advances S w S.value (value node)) (callee : Node) :
    Advances S w S.value (PageScript.calleeValue value callee) := by
  simp only [PageScript.calleeValue]
  split
  · exact pure (S.plain w rfl)
  · exact (hvalue callee).map fun w' v hv => value_callTarget hv

/-! ### Expressions and statements -/

section
variable {limits : Limits} {depth : Nat}
  (heval : ∀ w scope node, S.scope w scope →
    Advances S w S.value (evaluate limits depth scope node))
  (hexec : ∀ w scope node, S.scope w scope →
    Advances S w S.completion (execute limits depth scope node))

include heval hexec in
theorem evaluate_succ (w : Stage) (scope : ScopeId) (node : Node) (hscope : S.scope w scope) :
    Advances S w S.value (evaluate limits (depth + 1) scope node) := by
  cases node with
  | literal value line => exact pure (S.plain w (by cases value <;> rfl))
  | identifier name line => exact lookup scope name line
  | template name line => exact lookup scope name line
  | binary operator left right line =>
    refine (heval w scope left hscope).bind fun w' a hw _ => ?_
    refine (heval w' scope right (S.scope_mono hw hscope)).bind fun w'' b _ _ => ?_
    exact lift fun v hv => S.plain w'' (Operators.isPlain_of_binary hv)
  | unary operator operand line =>
    refine (heval w scope operand hscope).bind fun w' a _ _ => ?_
    exact lift fun v hv => S.plain w' (Operators.isPlain_of_unary hv)
  | call callee args line =>
    refine (calleeValue (fun node => heval w scope node hscope) callee).bind
      fun w' target hw htarget => ?_
    have hargs : Advances S w' (fun w values => ∀ v ∈ values, S.value w v)
        (args.mapM fun arg => evaluate limits depth scope arg) :=
      mapM args (fun _ _ _ => S.value_mono) fun arg u hu =>
        heval u scope arg (S.scope_mono (S.trans hw hu) hscope)
    refine hargs.bind fun w'' values hw' hvalues => ?_
    exact callValue limits (fun u scope node _ hs => hexec u scope node hs) hvalues line
      (S.value_mono hw' htarget)
  | array elements line =>
    have hitems : Advances S w (fun w items => ∀ v ∈ items, S.value w v)
        (elements.mapM fun element => evaluate limits depth scope element) :=
      mapM elements (fun _ _ _ => S.value_mono) fun element u hu =>
        heval u scope element (S.scope_mono hu hscope)
    exact hitems.bind fun w' items _ h => pure (S.array.2 h)
  | object properties line =>
    refine bind (?_ : Advances S w (fun w entries => ∀ entry ∈ entries, S.value w entry.2) _)
      fun w' entries _ hentries => pure (S.object hentries)
    refine mapM properties (fun _ _ _ => S.value_mono) fun property u hu => ?_
    refine (heval u scope property.2 (S.scope_mono hu hscope)).bind fun w' v _ hv => ?_
    exact pure hv
  | program | binding | function | branch | forEach | whileLoop | returning | block =>
    exact fail _ _

include heval hexec in
theorem execute_succ (w : Stage) (scope : ScopeId) (node : Node) (hscope : S.scope w scope) :
    Advances S w S.completion (execute limits (depth + 1) scope node) := by
  cases node with
  | binding name value line =>
    refine (heval w scope value hscope).bind fun w' v _ hv => ?_
    exact (define scope name hv).bind fun w'' _ hw' _ => pure (S.value_mono hw' hv)
  | function name params body line =>
    refine (newClosure name params body hscope).bind fun w' f _ hf => ?_
    exact (define scope name hf).bind fun w'' _ hw' _ => pure (S.value_mono hw' hf)
  | branch condition thenPart elsePart line =>
    refine (heval w scope condition hscope).bind fun w' v hw _ => ?_
    split
    · exact hexec w' scope thenPart (S.scope_mono hw hscope)
    · cases elsePart with
      | some part => exact hexec w' scope part (S.scope_mono hw hscope)
      | none => exact pure (S.plain w' rfl)
  | forEach item source body line =>
    refine (heval w scope source hscope).bind fun w' v hw hv => ?_
    cases v with
    | array items =>
      refine each items (S.plain w' rfl) fun value hvalue u hu => ?_
      refine (newScope (S.scope_mono (S.trans hw hu) hscope)).bind fun u' inner hu' hinner => ?_
      have hitem := S.value_mono (S.trans hu hu') (S.array.1 hv value hvalue)
      refine (define inner item hitem).bind fun u'' _ hu'' _ => ?_
      exact hexec u'' inner body (S.scope_mono hu'' hinner)
    | _ => exact fail _ line
  | whileLoop condition body line =>
    exact repeatWhile (S.plain w rfl) limits.rounds
      (fun u hu => heval u scope condition (S.scope_mono hu hscope))
      fun u hu => hexec u scope body (S.scope_mono hu hscope)
  | returning value line =>
    cases value with
    | some part => exact (heval w scope part hscope).bind fun w' v _ hv => pure hv
    | none => exact pure (S.plain w rfl)
  | block statements line =>
    refine (newScope hscope).bind fun w' inner _ hinner => ?_
    exact each statements (S.plain w' rfl) fun statement _ u hu =>
      hexec u inner statement (S.scope_mono hu hinner)
  | _ => exact (heval w scope _ hscope).bind fun w' v _ hv => pure hv

end

end Eval.Advances

/-- **Every evaluation advances.** In a scope that is known, an expression or a statement leads from
a stage to a later one, however it ends. -/
theorem evaluate_execute_advances {Stage : Type} (S : Stages Stage) (limits : Limits)
    (depth : Nat) :
    (∀ w scope node, S.scope w scope →
      Eval.Advances S w S.value (evaluate limits depth scope node)) ∧
    ∀ w scope node, S.scope w scope →
      Eval.Advances S w S.completion (execute limits depth scope node) := by
  induction depth with
  | zero => exact ⟨fun _ _ _ _ => .throw _, fun _ _ _ _ => .throw _⟩
  | succ depth ih => exact ⟨.evaluate_succ ih.1 ih.2, .execute_succ ih.1 ih.2⟩

end PageScript
