import PageScript.Proofs.Evaluation.Sessions

/-!
Runs under different limits. A run under narrower limits goes as one under wider limits goes, until
it is cut short by a limit; the other one may go on from there, and what it prints comes after what
has been printed. A comparison says which limits are compared, for what reasons the first run may be
cut short, and for what reasons the second one may stop so that nothing is said of the first.

There is a rule for each operation of the machine again. All that is needed of the second run by
itself is what every evaluation does to the counts and the text.
-/
namespace PageScript

/-- Two limits and the reasons to stop that come with them. -/
structure Comparison (limits limits' : Limits) where
  /-- Why the first run may be cut short, if so many calls went on at once in the second. -/
  cut : Stop → Nat → Prop
  /-- Why the second run may stop without a claim on the first. -/
  excused : Stop → Prop
  cut_mono : ∀ {stop deepest deepest'}, cut stop deepest → deepest ≤ deepest' → cut stop deepest'
  cut_atTop : ∀ {stop deepest} line, cut stop deepest → cut (stop.atTop line) deepest
  excused_atTop : ∀ {stop} line, excused stop → excused (stop.atTop line)
  /-- A call that only the second limits allow. -/
  cut_call : ∀ {calls : Nat} name line, limits.callDepth ≤ calls → calls < limits'.callDepth →
    cut (.error ⟨.callDepth limits.callDepth name, line⟩) (calls + 1)
  /-- A call that the second limits do not allow. -/
  excused_call : ∀ {calls : Nat} name line, limits'.callDepth ≤ calls →
    limits.callDepth = limits'.callDepth ∨
      excused (.error ⟨.callDepth limits'.callDepth name, line⟩)
  rounds_le : limits.rounds ≤ limits'.rounds
  cut_rounds : ∀ {deepest}, limits.rounds < limits'.rounds → cut .unfinished deepest
  nesting_le : limits.nesting ≤ limits'.nesting
  cut_nesting : ∀ {deepest}, limits.nesting < limits'.nesting → cut .tooDeep deepest

namespace Eval
variable {limits limits' : Limits}

/-- From the state `m`, two evaluations agree as far as a comparison goes. -/
inductive AgreesAt {α : Type} (c : Comparison limits limits') (x y : Eval α) (m : Machine) :
    Prop where
  | same (h : x m = y m)
  | cut (stop : Stop) (n : Machine) (text : String) (h : x m = .error stop n)
      (hstop : c.cut stop (y.after m).deepest) (hprinted : (y.after m).output = n.output ++ text)
  | excused (stop : Stop) (n : Machine) (h : y m = .error stop n) (hstop : c.excused stop)

/-- Two evaluations agree from every state in which so many calls go on. -/
def Agrees {α : Type} (c : Comparison limits limits') (calls : Nat) (x y : Eval α) : Prop :=
  ∀ m : Machine, m.calls = calls → m.Precedes limits'.callDepth (y.after m) ∧ AgreesAt c x y m

/-- Names are bound without fail, and nothing else is done. -/
theorem exists_bindAll_apply (scope : ScopeId) (params : List String) (args : List Value)
    (m : Machine) : ∃ scopes, bindAll scope params args m = .ok () { m with scopes } := by
  induction params generalizing args m with
  | nil => exact ⟨m.scopes, rfl⟩
  | cons param params ih => exact ih args.tail _

/-- What evaluations do is what counts for their agreement. -/
theorem AgreesAt.congr {α : Type} {c : Comparison limits limits'} {x y x' y' : Eval α}
    {m m' : Machine} (h : AgreesAt c x' y' m') (hx : x m = x' m') (hy : y m = y' m') :
    AgreesAt c x y m := by
  have hafter := after_congr hy
  cases h with
  | same h => exact .same (by rw [hx, hy, h])
  | cut stop n text h hstop hprinted =>
    exact .cut stop n text (hx.trans h) (by rwa [hafter]) (by rwa [hafter])
  | excused stop n h hstop => exact .excused stop n (hy.trans h) hstop

namespace Agrees
variable {α β : Type} {c : Comparison limits limits'} {calls : Nat}

/-- One and the same evaluation. -/
theorem same {good : α → Prop} {x : Eval α} (h : Upholds .any limits'.callDepth calls good x) :
    Agrees c calls x x :=
  fun m hcalls => ⟨(h m (fun _ _ _ _ _ => trivial) hcalls).1, .same rfl⟩

theorem pure (a : α) : Agrees c calls (Pure.pure a) (Pure.pure a) :=
  fun m _ => ⟨.refl m, .same rfl⟩

theorem throw (stop : Stop) :
    Agrees c calls (MonadExcept.throw stop : Eval α) (MonadExcept.throw stop) :=
  fun m _ => ⟨.refl m, .same rfl⟩

/-- The first evaluation is cut short at once. -/
theorem cutShort {stop : Stop} {y : Eval α} (hstop : ∀ deepest, c.cut stop deepest)
    (hy : Agrees c calls y y) : Agrees c calls (MonadExcept.throw stop) y := by
  intro m hcalls
  obtain ⟨hprecedes, -⟩ := hy m hcalls
  obtain ⟨text, hprinted⟩ := hprecedes.printed
  exact ⟨hprecedes, .cut stop m text rfl (hstop _) hprinted⟩

/-- What is on the right agrees with itself. -/
theorem right {x y : Eval α} (h : Agrees c calls x y) : Agrees c calls y y :=
  fun m hcalls => ⟨(h m hcalls).1, .same rfl⟩

theorem bind {x y : Eval α} {f g : α → Eval β} (hx : Agrees c calls x y)
    (hf : ∀ a, Agrees c calls (f a) (g a)) : Agrees c calls (x >>= f) (y >>= g) := by
  intro m hcalls
  obtain ⟨hprecedes, hagrees⟩ := hx m hcalls
  cases hy : y m with
  | ok a m' =>
    rw [after_of_ok hy] at hprecedes
    obtain ⟨hprecedes', hagrees'⟩ := hf a m' (hprecedes.calls.trans hcalls)
    rw [after_bind_of_ok hy]
    refine ⟨hprecedes.trans hprecedes', ?_⟩
    cases hagrees with
    | same h =>
      exact hagrees'.congr (bind_apply_of_ok (h.trans hy) f) (bind_apply_of_ok hy g)
    | cut stop n text h hstop hprinted =>
      -- The second run goes on, with more calls and more text at most.
      obtain ⟨text', hprinted'⟩ := hprecedes'.printed
      rw [after_of_ok hy] at hstop hprinted
      refine .cut stop n (text ++ text') (bind_apply_of_error h f) ?_ ?_
      · rw [after_bind_of_ok hy]
        exact c.cut_mono hstop hprecedes'.deepest
      · rw [after_bind_of_ok hy, hprinted', hprinted, String.append_assoc]
    | excused stop n h hstop =>
      rw [hy] at h
      cases h
  | error stop' m' =>
    have hyg := bind_apply_of_error hy g
    have hafter : (y >>= g).after m = y.after m := by
      rw [after_bind_of_error hy, after_of_error hy]
    rw [hafter]
    refine ⟨hprecedes, ?_⟩
    cases hagrees with
    | same h => exact .same ((bind_apply_of_error (h.trans hy) f).trans hyg.symm)
    | cut stop n text h hstop hprinted =>
      rw [← hafter] at hstop hprinted
      exact .cut stop n text (bind_apply_of_error h f) hstop hprinted
    | excused stop n h hstop =>
      rw [hy] at h
      cases h
      exact .excused _ _ hyg hstop

theorem map {x y : Eval α} (f : α → β) (h : Agrees c calls x y) :
    Agrees c calls (f <$> x) (f <$> y) := by
  rw [map_eq_pure_bind, map_eq_pure_bind]
  exact h.bind fun a => pure (f a)

theorem fail (fault : RuntimeFault) (line : Int) :
    Agrees c calls (Eval.fail fault line : Eval α) (Eval.fail fault line) :=
  throw _

theorem lift (line : Int) (result : Except RuntimeFault α) :
    Agrees c calls (Eval.lift line result) (Eval.lift line result) := by
  cases result with
  | ok a => exact pure a
  | error fault => exact fail fault line

theorem define (scope : ScopeId) (name : String) (value : Value) :
    Agrees c calls (Eval.define scope name value) (Eval.define scope name value) :=
  same (.define scope name fun _ _ => trivial)

theorem newScope (parent : ScopeId) :
    Agrees c calls (Eval.newScope parent) (Eval.newScope parent) :=
  same (.newScope parent)

/-- A call that goes on in both runs. -/
theorem counted {x y : Eval α} (hcalls : calls + 1 ≤ limits'.callDepth.toNat)
    (h : Agrees c (calls + 1) x y) : Agrees c calls (Eval.counted x) (Eval.counted y) := by
  intro m hm
  obtain ⟨hprecedes, hagrees⟩ := h m.inCall (by rw [Machine.inCall, hm])
  rw [after_counted]
  refine ⟨hprecedes.counted (by omega), ?_⟩
  cases hagrees with
  | same h => exact .same (by rw [counted_apply, counted_apply, h])
  | cut stop n text h hstop hprinted =>
    refine .cut stop { n with calls := m.calls } text (by rw [counted_apply, h]) ?_ ?_
    · rw [after_counted]
      exact hstop
    · rw [after_counted]
      exact hprinted
  | excused stop n h hstop =>
    exact .excused stop { n with calls := m.calls } (by rw [counted_apply, h]) hstop

theorem mapM {x y : α → Eval β} (items : List α) (h : ∀ a, Agrees c calls (x a) (y a)) :
    Agrees c calls (items.mapM x) (items.mapM y) := by
  induction items with
  | nil => exact pure []
  | cons a rest ih =>
    rw [List.mapM_cons, List.mapM_cons]
    exact (h a).bind fun b => ih.bind fun bs => pure (b :: bs)

theorem each {x y : α → Eval Completion} (items : List α) (last : Value)
    (h : ∀ a, Agrees c calls (x a) (y a)) :
    Agrees c calls (Eval.each x last items) (Eval.each y last items) := by
  induction items generalizing last with
  | nil => exact pure _
  | cons a rest ih =>
    refine (h a).bind fun completion => ?_
    cases completion with
    | completed value => exact ih value
    | returned value => exact pure _

section
variable {condition condition' : Eval Value} {body body' : Eval Completion}

theorem repeatWhile_succ (hc : Agrees c calls condition condition')
    (hb : Agrees c calls body body') (last : Value) {rounds rounds' : Nat}
    (hrest : ∀ value, Agrees c calls (Eval.repeatWhile condition body value rounds)
      (Eval.repeatWhile condition' body' value rounds')) :
    Agrees c calls (Eval.repeatWhile condition body last (rounds + 1))
      (Eval.repeatWhile condition' body' last (rounds' + 1)) := by
  refine hc.bind fun v => ?_
  split
  · refine hb.bind fun completion => ?_
    cases completion with
    | completed value => exact hrest value
    | returned value => exact pure _
  · exact pure _

/-- Loops that may go on for different numbers of rounds. -/
theorem repeatWhile (hc : Agrees c calls condition condition') (hb : Agrees c calls body body')
    (last : Value) {rounds rounds' : Nat} (hle : rounds ≤ rounds')
    (hcut : ∀ deepest, rounds < rounds' → c.cut .unfinished deepest) :
    Agrees c calls (Eval.repeatWhile condition body last rounds)
      (Eval.repeatWhile condition' body' last rounds') := by
  have hright (last : Value) (rounds : Nat) :
      Agrees c calls (Eval.repeatWhile condition' body' last rounds)
        (Eval.repeatWhile condition' body' last rounds) := by
    induction rounds generalizing last with
    | zero => exact throw .unfinished
    | succ rounds ih => exact repeatWhile_succ hc.right hb.right last ih
  induction rounds generalizing last rounds' with
  | zero =>
    rcases Nat.eq_zero_or_pos rounds' with rfl | hpos
    · exact throw .unfinished
    · exact cutShort (hcut · hpos) (hright last rounds')
  | succ rounds ih =>
    obtain ⟨rounds', rfl⟩ := Nat.exists_eq_add_of_le' (Nat.le_trans (Nat.le_add_left 1 rounds) hle)
    refine repeatWhile_succ hc hb last fun value => ih value (Nat.le_of_succ_le_succ hle) ?_
    exact fun deepest hlt => hcut deepest (Nat.succ_lt_succ hlt)

end

theorem bindAll (scope : ScopeId) (params : List String) (args : List Value) :
    Agrees c calls (Eval.bindAll scope params args) (Eval.bindAll scope params args) :=
  same (.bindAll scope params fun _ _ _ _ => trivial)

/-! ### Calls -/

theorem callBuiltin (b : Builtin) (args : List Value) (line : Int) :
    Agrees c calls (b.call args line) (b.call args line) :=
  same (.callBuiltin b args trivial fun _ => trivial)

/-- What the two runs of statements have to do for calls to agree. -/
abbrev Runs (c : Comparison limits limits') (run run' : ScopeId → Node → Eval Completion) : Prop :=
  ∀ calls scope node, Agrees c calls (run scope node) (run' scope node)

/-- What a function does, its parameters being bound. -/
theorem body {run run' : ScopeId → Node → Eval Completion} (hrun : Runs c run run')
    (scope : ScopeId) (body : Node) :
    Agrees c calls
      (match body with
        | .block statements _ => Eval.each (run scope) .null statements
        | _ => MonadExcept.throw .bodyNotBlock)
      (match body with
        | .block statements _ => Eval.each (run' scope) .null statements
        | _ => MonadExcept.throw .bodyNotBlock) := by
  cases body with
  | block statements line => exact each statements .null (hrun calls scope)
  | _ => exact throw .bodyNotBlock

theorem enter {run run' : ScopeId → Node → Eval Completion} (hrun : Runs c run run')
    (hcalls : calls + 1 ≤ limits'.callDepth.toNat) (f : Closure) (args : List Value) :
    Agrees c calls (f.enter run args) (f.enter run' args) :=
  (newScope f.scope).bind fun scope => (bindAll scope f.params args).bind fun _ =>
    (counted hcalls (body hrun scope f.body)).bind fun completion => pure completion.value

/-- A call that goes on is counted. -/
theorem succ_le_deepest_enter {run run' : ScopeId → Node → Eval Completion}
    (hrun : Runs c run run') (f : Closure) (args : List Value) (m : Machine) :
    m.calls + 1 ≤ ((f.enter run' args).after m).deepest := by
  obtain ⟨scopes, hbound⟩ := exists_bindAll_apply m.scopes.all.size f.params args
    { m with scopes := (m.scopes.child f.scope).2 }
  have hnew : Eval.newScope f.scope m =
      .ok m.scopes.all.size { m with scopes := (m.scopes.child f.scope).2 } := rfl
  have hbody := (body hrun m.scopes.all.size f.body).right (Machine.inCall { m with scopes }) rfl
  rw [Closure.enter, after_bind_of_ok hnew, after_bind_of_ok hbound, after_bind_pure, after_counted]
  exact Nat.le_trans (Nat.le_max_right _ _) hbody.1.deepest

/-- Whether a call goes on depends on the limits; where they disagree, the comparison says so. -/
theorem callClosure {run run' : ScopeId → Node → Eval Completion} (hrun : Runs c run run')
    (f : Closure) (args : List Value) (line : Int) :
    Agrees c calls (f.call limits run args line) (f.call limits' run' args line) := by
  intro m hcalls
  have hx := Closure.call_apply limits run f args line m
  have hy := Closure.call_apply limits' run' f args line m
  rw [hcalls] at hx hy
  by_cases hlimit' : limits'.callDepth ≤ calls
  · rw [if_pos hlimit'] at hy
    rw [after_of_error hy]
    refine ⟨.refl m, ?_⟩
    rcases c.excused_call f.name line hlimit' with heq | hexcused
    · rw [heq, if_pos hlimit'] at hx
      exact .same (hx.trans hy.symm)
    · exact .excused _ m hy hexcused
  · rw [if_neg hlimit'] at hy
    have hlt : calls < limits'.callDepth := Int.not_le.1 hlimit'
    obtain ⟨hprecedes, hagrees⟩ := enter hrun (by omega) f args m hcalls
    have hafter := after_congr hy
    rw [hafter]
    refine ⟨hprecedes, ?_⟩
    by_cases hlimit : limits.callDepth ≤ calls
    · rw [if_pos hlimit] at hx
      obtain ⟨text, hprinted⟩ := hprecedes.printed
      have hdeepest := succ_le_deepest_enter hrun f args m
      rw [hcalls] at hdeepest
      refine .cut _ m text hx ?_ ?_
      · rw [hafter]
        exact c.cut_mono (c.cut_call f.name line hlimit hlt) hdeepest
      · rw [hafter, hprinted]
    · rw [if_neg hlimit] at hx
      exact hagrees.congr hx hy

theorem callValue {run run' : ScopeId → Node → Eval Completion} (hrun : Runs c run run')
    (args : List Value) (line : Int) (target : Value) :
    Agrees c calls (target.call limits run args line) (target.call limits' run' args line) := by
  cases target with
  | builtin b => exact callBuiltin b args line
  | closure f => exact callClosure hrun f args line
  | _ => exact fail _ line

theorem calleeValue {value value' : Node → Eval Value}
    (hvalue : ∀ node, Agrees c calls (value node) (value' node)) (callee : Node) :
    Agrees c calls (PageScript.calleeValue value callee)
      (PageScript.calleeValue value' callee) := by
  simp only [PageScript.calleeValue]
  split
  · exact pure _
  · exact (hvalue callee).map callTarget

/-! ### Expressions and statements -/

section
variable {depth depth' : Nat}
  (heval : ∀ calls scope node,
    Agrees c calls (evaluate limits depth scope node) (evaluate limits' depth' scope node))
  (hexec : Runs c (execute limits depth) (execute limits' depth'))

include heval hexec in
theorem evaluate_succ (scope : ScopeId) (node : Node) :
    Agrees c calls (evaluate limits (depth + 1) scope node)
      (evaluate limits' (depth' + 1) scope node) := by
  have heval := heval calls scope
  cases node with
  | literal value line => exact pure _
  | identifier name line | template name line => exact same (.lookup trivial)
  | binary operator left right line =>
    exact (heval left).bind fun a => (heval right).bind fun b => lift line _
  | unary operator operand line => exact (heval operand).bind fun a => lift line _
  | call callee args line =>
    exact (calleeValue heval callee).bind fun target =>
      (mapM args heval).bind fun values => callValue hexec values line target
  | array elements line => exact (mapM elements heval).bind fun items => pure _
  | object properties line =>
    exact (mapM properties fun entry => (heval entry.2).bind fun v => pure _).bind
      fun entries => pure _
  | program | binding | function | branch | forEach | whileLoop | returning | block =>
    exact fail _ _

include heval hexec in
theorem execute_succ (scope : ScopeId) (node : Node) :
    Agrees c calls (execute limits (depth + 1) scope node)
      (execute limits' (depth' + 1) scope node) := by
  have heval := heval calls
  have hexec := hexec calls
  cases node with
  | binding name value line =>
    exact (heval scope value).bind fun v => (define scope name v).bind fun _ => pure _
  | function name params body line =>
    exact (same (.newClosure fun _ => trivial)).bind fun f =>
      (define scope name _).bind fun _ => pure _
  | branch condition thenPart elsePart line =>
    refine (heval scope condition).bind fun v => ?_
    split
    · exact hexec scope thenPart
    · cases elsePart with
      | some part => exact hexec scope part
      | none => exact pure _
  | forEach item source body line =>
    refine (heval scope source).bind fun v => ?_
    cases v with
    | array items =>
      exact each items .null fun value => (newScope scope).bind fun inner =>
        (define inner item value).bind fun _ => hexec inner body
    | _ => exact fail _ line
  | whileLoop condition body line =>
    exact repeatWhile (heval scope condition) (hexec scope body) .null c.rounds_le
      fun _ => c.cut_rounds
  | returning value line =>
    cases value with
    | some part => exact (heval scope part).bind fun v => pure _
    | none => exact pure _
  | block statements line =>
    exact (newScope scope).bind fun inner => each statements .null (hexec inner)
  | _ => exact (heval scope _).bind fun v => pure _

end

end Agrees
end Eval

/-- **Agreement of runs.** Expressions and statements agree under the limits of a comparison, if
they may be nested as deeply in the second run or deeper. -/
theorem evaluate_execute_agree {limits limits' : Limits} (c : Comparison limits limits')
    {depth depth' : Nat} (hle : depth ≤ depth')
    (hcut : ∀ deepest, depth < depth' → c.cut .tooDeep deepest) :
    (∀ calls scope node, Eval.Agrees c calls (evaluate limits depth scope node)
      (evaluate limits' depth' scope node)) ∧
    ∀ calls scope node, Eval.Agrees c calls (execute limits depth scope node)
      (execute limits' depth' scope node) := by
  induction depth generalizing depth' with
  | zero =>
    rcases Nat.eq_zero_or_pos depth' with rfl | hpos
    · exact ⟨fun _ _ _ => .throw _, fun _ _ _ => .throw _⟩
    · obtain ⟨heval, hexec⟩ := evaluate_execute_precedes limits' depth'
      constructor
      · intro calls scope node
        exact .cutShort (hcut · hpos) fun m _ => ⟨heval scope node m, .same rfl⟩
      · intro calls scope node
        exact .cutShort (hcut · hpos) fun m _ => ⟨hexec scope node m, .same rfl⟩
  | succ depth ih =>
    obtain ⟨depth', rfl⟩ := Nat.exists_eq_add_of_le' (Nat.le_trans (Nat.le_add_left 1 depth) hle)
    obtain ⟨heval, hexec⟩ := ih (Nat.le_of_succ_le_succ hle)
      fun deepest hlt => hcut deepest (Nat.succ_lt_succ hlt)
    constructor
    · exact fun calls scope node => .evaluate_succ heval hexec scope node
    · exact fun calls scope node => .execute_succ heval hexec scope node

/-! ### Programs -/

section
variable {limits limits' : Limits} (c : Comparison limits limits')

theorem Eval.Agrees.executeTop {calls : Nat} (statement : Node) :
    Agrees c calls (PageScript.executeTop limits statement)
      (PageScript.executeTop limits' statement) := by
  intro m hcalls
  obtain ⟨-, hexec⟩ := evaluate_execute_agree c c.nesting_le fun _ => c.cut_nesting
  obtain ⟨hprecedes, hagrees⟩ := hexec calls Machine.globals statement m hcalls
  rw [after_executeTop]
  refine ⟨hprecedes, ?_⟩
  cases hagrees with
  | same h => exact .same (by simp only [PageScript.executeTop, h])
  | cut stop n text h hstop hprinted =>
    rw [← after_executeTop] at hstop hprinted
    exact .cut _ n text (executeTop_of_error h) (c.cut_atTop statement.line hstop) hprinted
  | excused stop n h hstop =>
    exact .excused _ n (executeTop_of_error h) (c.excused_atTop statement.line hstop)

end

end PageScript
