import PageScript.Proofs.Syntax.Grammar

/-!
The reader follows the grammar: the tokens of an expression lead from the place where an operand may
begin to the place behind it, with the tree of the expression in hand, whatever is still open around
it.
-/
namespace PageScript.Reader

/-! ### Runs without a limit -/

/-- The state after tokens of which each has a next state. -/
def steps (s : State) : List Token → Option State
  | [] => some s
  | t :: ts =>
    match step s t with
    | .next s' => steps s' ts
    | _ => none

theorem steps_cons {s s' : State} {t : Token} (h : step s t = .next s') (ts : List Token) :
    steps s (t :: ts) = steps s' ts := by
  rw [steps, h]

theorem steps_append {s s' : State} {ts : List Token} (h : steps s ts = some s')
    (us : List Token) : steps s (ts ++ us) = steps s' us := by
  induction ts generalizing s with
  | nil =>
    cases h
    rfl
  | cons t ts ih =>
    rw [List.cons_append, steps]
    rw [steps] at h
    split
    · next next hstep =>
      rw [hstep] at h
      exact ih h
    · next hstep =>
      split at h
      · next next hnext => exact absurd hnext (hstep next)
      · cases h

theorem run_cons {s s' : State} {t : Token} (h : step s t = .next s') (limit : Nat)
    (ts : List Token) :
    run limit s (t :: ts) =
      if limit < s'.weight then .error ⟨.nestingTooDeep, t.line, t.column⟩
      else run limit s' ts := by
  rw [run, h]

/-- A run with a limit goes the same way or is nested too deeply. -/
theorem run_append_of_steps {s s' : State} {ts : List Token} (h : steps s ts = some s')
    (limit : Nat) (us : List Token) :
    run limit s (ts ++ us) = run limit s' us ∨
      ∃ line column, run limit s (ts ++ us) = .error ⟨.nestingTooDeep, line, column⟩ := by
  induction ts generalizing s with
  | nil =>
    cases h
    exact .inl rfl
  | cons t ts ih =>
    rw [steps] at h
    split at h
    · next next hstep =>
      rw [List.cons_append, run_cons hstep]
      by_cases hlimit : limit < next.weight
      · exact .inr ⟨t.line, t.column, if_pos hlimit⟩
      · rw [if_neg hlimit]
        exact ih h
    · cases h

/-- Where a program was read within the limit, other tokens are read from there as well. -/
theorem run_append_of_program {s s' : State} {ts us : List Token} {limit : Nat} {program : Program}
    (h : steps s ts = some s') (hrun : run limit s (ts ++ us) = .program program)
    (vs : List Token) : run limit s (ts ++ vs) = run limit s' vs := by
  induction ts generalizing s with
  | nil =>
    cases h
    rfl
  | cons t ts ih =>
    rw [steps] at h
    split at h
    · next next hstep =>
      rw [List.cons_append, run_cons hstep] at hrun ⊢
      by_cases hlimit : limit < next.weight
      · rw [if_pos hlimit] at hrun
        cases hrun
      · rw [if_neg hlimit] at hrun ⊢
        exact ih h hrun
    · cases h

/-- A limit that is large enough is not noticed. -/
theorem exists_limit_of_steps {s s' : State} {ts : List Token} (h : steps s ts = some s') :
    ∃ enough, ∀ limit, enough ≤ limit → ∀ us, run limit s (ts ++ us) = run limit s' us := by
  induction ts generalizing s with
  | nil =>
    cases h
    exact ⟨0, fun _ _ _ => rfl⟩
  | cons t ts ih =>
    rw [steps] at h
    split at h
    · next next hstep =>
      obtain ⟨enough, hrun⟩ := ih h
      refine ⟨max enough next.weight, fun limit hle us => ?_⟩
      rw [List.cons_append, run_cons hstep, if_neg (by omega)]
      exact hrun limit (by omega) us
    · cases h

/-- What is true of every token that leads on is true of all tokens that do. -/
theorem forall_mem_of_steps {P : Token → Prop}
    (hstep : ∀ {s s' : State} {t : Token}, step s t = .next s' → P t) {s s' : State}
    {ts : List Token} (h : steps s ts = some s') : ∀ t ∈ ts, P t := by
  induction ts generalizing s with
  | nil => simp
  | cons t ts ih =>
    rw [steps] at h
    split at h
    · next next hnext => exact List.forall_mem_cons.2 ⟨hstep hnext, ih h⟩
    · cases h

/-- A run that fails: the tokens before the one at fault lead to a state that is not nested too
deeply. There that token cannot come, or it goes too deep. -/
theorem exists_fault {limit : Nat} {s : State} {tokens : List Token} {e : SyntaxError}
    (h : run limit s tokens = .error e) (hlimit : s.weight ≤ limit) :
    ∃ before t after s', tokens = before ++ t :: after ∧ steps s before = some s' ∧
      s'.weight ≤ limit ∧
      (∀ limit', limit ≤ limit' → ∀ us, run limit' s (before ++ us) = run limit' s' us) ∧
      e.line = t.line ∧ e.column = t.column ∧
      (step s' t = .fail e.fault ∨ e.fault = .nestingTooDeep ∧ ∃ next, step s' t = .next next) := by
  induction tokens generalizing s with
  | nil => cases h
  | cons t rest ih =>
    cases hstep : step s t with
    | done program =>
      rw [run, hstep] at h
      cases h
    | fail fault =>
      rw [run, hstep] at h
      cases h
      exact ⟨[], t, rest, s, rfl, rfl, hlimit, fun _ _ _ => rfl, rfl, rfl, .inl hstep⟩
    | next next =>
      rw [run_cons hstep] at h
      split at h
      · cases h
        exact ⟨[], t, rest, s, rfl, rfl, hlimit, fun _ _ _ => rfl, rfl, rfl,
          .inr ⟨rfl, next, hstep⟩⟩
      · next hnext =>
        obtain ⟨before, u, after, s', rfl, hsteps, hs', hrun, hu⟩ := ih h (by omega)
        refine ⟨t :: before, u, after, s', rfl, (steps_cons hstep _).trans hsteps, hs', ?_, hu⟩
        intro limit' hle us
        rw [List.cons_append, run_cons hstep, if_neg (by omega), hrun limit' hle]

/-! ### Pending operators -/

/-- Whether an expression of a level may begin behind these operators and brackets: an operator
right before it waits for an operand of its level or a lower one. -/
def Opens (level : Nat) : List Pending → Prop
  | .unary _ _ :: _ => 7 ≤ level
  | .binary held _ _ _ :: _ => held < level
  | _ => True

theorem Opens.mono {level level' : Nat} {pending : List Pending} (h : Opens level pending)
    (hle : level ≤ level') : Opens level' pending := by
  unfold Opens at h ⊢
  split at h
  · exact Nat.le_trans h hle
  · exact Nat.lt_of_lt_of_le h hle
  · trivial

/-- Operators that wait for tighter ones are not applied. -/
theorem Opens.reduce_eq {level held : Nat} {pending : List Pending} (h : Opens level pending)
    (hle : level ≤ held) (hheld : held ≤ 6) (operand : Node) :
    reduce held operand pending = (operand, pending) := by
  unfold Opens at h
  split at h
  · omega
  · rw [reduce, if_neg (by omega)]
  · next hunary hbinary =>
    unfold reduce
    split
    · exact absurd rfl (hunary _ _ _)
    · exact absurd rfl (hbinary _ _ _ _ _)
    · rfl

/-! ### Single tokens -/

theorem operandMove_leaf {t : Token} {node : Node} (h : leaf? t = some node) (s : State)
    (context : Context) : operandMove s context t = s.goto (.afterOperand node context) := by
  unfold leaf? at h
  split at h
  · next hk => cases h; simp [operandMove, hk]
  · next hk => cases h; simp [operandMove, hk]
  · next hk =>
    obtain ⟨n, hn, rfl⟩ := Option.map_eq_some_iff.1 h
    simp [operandMove, hk, hn]
  · next hk => cases h; simp [operandMove, hk]
  · next hk => cases h; simp [operandMove, hk]
  · cases h

/-- What is neither an operator nor the `(` of a call ends the expression. -/
theorem afterOperandMove_close {t : Token} (hk : t.kind ≠ .leftParen) (h : level? t.kind = none)
    (s : State) (operand : Node) (context : Context) :
    afterOperandMove s operand context t =
      closeMove s (reduce 0 operand context.pending).1
        ⟨(reduce 0 operand context.pending).2, context.purpose⟩ t := by
  simp only [afterOperandMove, if_neg hk, h]

/-! ### Phrases -/

/-- A bracket around items, given those read before, latest first: the `(` of a call or the `[` of
an array. -/
inductive IsList : (List Node → Pending) → Prop where
  | arguments (callee : Node) (line : Int) : IsList (.arguments callee · line)
  | elements (line : Int) : IsList (.elements · line)

theorem IsList.reduce_eq {list : List Node → Pending} (h : IsList list) (level : Nat)
    (operand : Node) (before : List Node) (outer : List Pending) :
    reduce level operand (list before :: outer) = (operand, list before :: outer) := by
  cases h <;> rfl

theorem IsList.opens {list : List Node → Pending} (h : IsList list) (level : Nat)
    (before : List Node) (outer : List Pending) : Opens level (list before :: outer) := by
  cases h <;> trivial

section Brackets

variable {s : State} {t : Token} {operand value : Node} {pending outer : List Pending}
  {purpose : Purpose}

/-- What stands before the end of an expression, all of it applied, is what its end is for. -/
theorem step_close (hk : t.kind ≠ .leftParen) (hlevel : level? t.kind = none)
    (hr : reduce 0 operand pending = (value, outer)) :
    step { s with phase := .afterOperand operand ⟨pending, purpose⟩ } t =
      closeMove { s with phase := .afterOperand operand ⟨pending, purpose⟩ } value
        ⟨outer, purpose⟩ t := by
  simp only [step, afterOperandMove_close hk hlevel, hr]

/-- An operator applies those before it that bind as tightly, and waits. -/
theorem step_sign {held : Nat} (h : level? t.kind = some held)
    (hr : reduce held operand pending = (value, outer)) :
    step { s with phase := .afterOperand operand ⟨pending, purpose⟩ } t =
      .next { s with
        phase := .operand ⟨.binary held t.text value t.line :: outer, purpose⟩ } := by
  have hk : t.kind ≠ .leftParen := by
    intro hk
    rw [hk] at h
    cases h
  simp only [step, afterOperandMove, if_neg hk, h, hr]
  rfl

/-- The tree that a bracket becomes when its end comes behind its last item. -/
def Pending.close? (value : Node) : Pending → TokenKind → Option Node
  | .group, .rightParen => some value
  | .arguments callee before line, .rightParen =>
    some (.call callee (value :: before).reverse line)
  | .elements before line, .rightBracket => some (.array (value :: before).reverse line)
  | .property before key line, .rightBrace =>
    some (.object ((key, value) :: before).reverse line)
  | _, _ => none

theorem step_bracket {bracket : Pending} {node : Node}
    (hclose : bracket.close? value t.kind = some node)
    (hr : reduce 0 operand pending = (value, bracket :: outer)) :
    step { s with phase := .afterOperand operand ⟨pending, purpose⟩ } t =
      .next { s with phase := .afterOperand node ⟨outer, purpose⟩ } := by
  unfold Pending.close? at hclose
  split at hclose
  case h_5 => cases hclose
  all_goals
    next hk =>
      cases hclose
      rw [step_close (by simp [hk]) (by simp [hk, level?]) hr]
      simp [closeMove, hk, State.goto]

theorem step_comma {list : List Node → Pending} (hlist : IsList list) {before : List Node}
    (hk : t.kind = .comma) (hr : reduce 0 operand pending = (value, list before :: outer)) :
    step { s with phase := .afterOperand operand ⟨pending, purpose⟩ } t =
      .next { s with phase := .operand ⟨list (value :: before) :: outer, purpose⟩ } := by
  rw [step_close (by simp [hk]) (by simp [hk, level?]) hr]
  cases hlist <;> simp [closeMove, hk, State.goto]

theorem step_property_comma {before : List (String × Node)} {key : String} {line : Int}
    (hk : t.kind = .comma)
    (hr : reduce 0 operand pending = (value, .property before key line :: outer)) :
    step { s with phase := .afterOperand operand ⟨pending, purpose⟩ } t =
      .next { s with phase := .key ((key, value) :: before) line ⟨outer, purpose⟩ } := by
  rw [step_close (by simp [hk]) (by simp [hk, level?]) hr]
  simp [closeMove, hk, State.goto]

/-- Behind an opening bracket, what is not an end is read as the first item. -/
theorem step_argumentOrEnd (h : t.kind ∉ closers) (callee : Node) (line : Int)
    (context : Context) :
    step { s with phase := .argumentOrEnd callee line context } t =
      step { s with
        phase := .operand ⟨.arguments callee [] line :: context.pending, context.purpose⟩ } t := by
  have hk : t.kind ≠ .rightParen := by
    intro hk
    simp [hk, closers] at h
  simp only [step, if_neg hk]
  rfl

theorem step_elementOrEnd (h : t.kind ∉ closers) (line : Int) (context : Context) :
    step { s with phase := .elementOrEnd line context } t =
      step { s with
        phase := .operand ⟨.elements [] line :: context.pending, context.purpose⟩ } t := by
  have hk : t.kind ≠ .rightBracket := by
    intro hk
    simp [hk, closers] at h
  simp only [step, if_neg hk]
  rfl

theorem step_keyOrEnd (h : t.kind ∉ closers) (line : Int) (context : Context) :
    step { s with phase := .keyOrEnd line context } t =
      step { s with phase := .key [] line context } t := by
  have hk : t.kind ≠ .rightBrace := by
    intro hk
    simp [hk, closers] at h
  simp only [step, if_neg hk]
  rfl

theorem step_key {key : Token} (hk : key.kind = .identifier ∨ key.kind = .string)
    (before : List (String × Node)) (line : Int) (context : Context) :
    step { s with phase := .key before line context } key =
      .next { s with phase := .propertyColon before key.text line context } := by
  have hmem : key.kind ∈ [TokenKind.identifier, .string] := by simpa using hk
  simp only [step, nameMove, if_pos hmem]
  rfl

theorem step_propertyColon (hk : t.kind = .colon) (before : List (String × Node)) (key : String)
    (line : Int) (context : Context) :
    step { s with phase := .propertyColon before key line context } t =
      .next { s with
        phase := .operand ⟨.property before key line :: context.pending, context.purpose⟩ } := by
  simp only [step, signMove, if_pos hk]
  rfl

end Brackets

/-- States that agree on the first token agree. -/
theorem steps_congr {phrase : Phrase} {ts : List Token} (h : Derives phrase ts)
    (hitems : phrase ≠ .items []) (hproperties : phrase ≠ .properties []) {s s' : State}
    (hstep : ∀ t : Token, t.kind ∉ closers → step s t = step s' t) : steps s ts = steps s' ts := by
  obtain ⟨t, rest, rfl, hfirst⟩ := h.first hitems hproperties
  rw [steps, hstep t hfirst, steps]

/-- What a phrase does to the reader. An expression leads behind its last operand, with nothing more
than itself applied to what was pending; items and properties lead behind the last of them. -/
def Phrase.Reads (ts : List Token) : Phrase → Prop
  | .expr level node => ∀ (s : State) (context : Context), Opens level context.pending →
    ∃ operand pending,
      steps { s with phase := .operand context } ts =
        some { s with phase := .afterOperand operand ⟨pending, context.purpose⟩ } ∧
      (∀ held ≤ level, reduce held operand pending = reduce held node context.pending) ∧
      (8 ≤ level → operand = node ∧ pending = context.pending)
  | .items nodes => ∀ (s : State) (list : List Node → Pending) (before : List Node)
    (outer : List Pending) (purpose : Purpose), IsList list → nodes ≠ [] →
    ∃ operand pending front last, nodes = front ++ [last] ∧
      steps { s with phase := .operand ⟨list before :: outer, purpose⟩ } ts =
        some { s with phase := .afterOperand operand ⟨pending, purpose⟩ } ∧
      reduce 0 operand pending = (last, list (front.reverse ++ before) :: outer)
  | .properties entries => ∀ (s : State) (before : List (String × Node)) (line : Int)
    (context : Context), entries ≠ [] →
    ∃ operand pending front key last, entries = front ++ [(key, last)] ∧
      steps { s with phase := .key before line context } ts =
        some { s with phase := .afterOperand operand ⟨pending, context.purpose⟩ } ∧
      reduce 0 operand pending =
        (last, .property (front.reverse ++ before) key line :: context.pending)

theorem Derives.items_nil {ts : List Token} (h : Derives (.items []) ts) : ts = [] := by
  cases h
  rfl

theorem Derives.properties_nil {ts : List Token} (h : Derives (.properties []) ts) : ts = [] := by
  cases h
  rfl

/-- From an opening bracket of a call or an array to its end: what comes of the items, be there any
or none. -/
theorem steps_list {nodes : List Node} {ts : List Token} (h : Derives (.items nodes) ts)
    (hreads : (Phrase.items nodes).Reads ts) {list : List Node → Pending} (hlist : IsList list)
    {make : List Node → Node} {s s' : State} {context : Context} {closing : Token}
    (hempty : step s' closing = .next { s with phase := .afterOperand (make []) context })
    (hfirst : ∀ t : Token, t.kind ∉ closers → step s' t =
      step { s with phase := .operand ⟨list [] :: context.pending, context.purpose⟩ } t)
    (hclose : ∀ value before,
      (list before).close? value closing.kind = some (make (value :: before).reverse)) :
    steps s' (ts ++ [closing]) = some { s with phase := .afterOperand (make nodes) context } := by
  by_cases hnodes : nodes = []
  · subst hnodes
    rw [h.items_nil, List.nil_append, steps_cons hempty]
    rfl
  · obtain ⟨operand, pending, front, last, rfl, hsteps, hr⟩ :=
      hreads s list [] context.pending context.purpose hlist hnodes
    have hitems := steps_congr h (by simp) (by simp) hfirst
    rw [steps_append (hitems.trans hsteps), steps_cons (step_bracket (hclose last _) hr)]
    simp [steps]

/-! #### The forms of phrases

Each form goes through the states that its own tokens lead to, and hands over to its parts. -/

namespace Phrase

theorem reads_group {level : Nat} {node : Node} {opening closing : Token} {ts : List Token}
    (ho : opening.kind = .leftParen) (h : (expr 1 node).Reads ts)
    (hc : closing.kind = .rightParen) : (expr level node).Reads (opening :: (ts ++ [closing])) := by
  intro s context hopen
  obtain ⟨operand, pending, hsteps, hr, -⟩ :=
    h s ⟨.group :: context.pending, context.purpose⟩ trivial
  refine ⟨node, context.pending, ?_, fun _ _ => rfl, fun _ => ⟨rfl, rfl⟩⟩
  have hopening : step { s with phase := .operand context } opening =
      .next { s with phase := .operand ⟨.group :: context.pending, context.purpose⟩ } := by
    simp [step, operandMove, ho, State.goto]
  have hclose : Pending.group.close? node closing.kind = some node := by
    rw [hc, Pending.close?]
  rw [steps_cons hopening, steps_append hsteps,
    steps_cons (step_bracket hclose (hr 0 (by omega)))]
  rfl

theorem reads_array {level : Nat} {nodes : List Node} {opening closing : Token} {ts : List Token}
    (ho : opening.kind = .leftBracket) (hderives : Derives (.items nodes) ts)
    (h : (items nodes).Reads ts) (hc : closing.kind = .rightBracket) :
    (expr level (.array nodes opening.line)).Reads (opening :: (ts ++ [closing])) := by
  intro s context hopen
  refine ⟨.array nodes opening.line, context.pending, ?_, fun _ _ => rfl, fun _ => ⟨rfl, rfl⟩⟩
  have hopening : step { s with phase := .operand context } opening =
      .next { s with phase := .elementOrEnd opening.line context } := by
    simp [step, operandMove, ho, State.goto]
  rw [steps_cons hopening]
  apply steps_list hderives h (.elements opening.line)
  · simp [step, hc, State.goto]
  · intro t ht
    exact step_elementOrEnd ht opening.line context
  · intro value before
    rw [hc, Pending.close?]

theorem reads_object {level : Nat} {entries : List (String × Node)} {opening closing : Token}
    {ts : List Token} (ho : opening.kind = .leftBrace) (hderives : Derives (.properties entries) ts)
    (h : (properties entries).Reads ts) (hc : closing.kind = .rightBrace) :
    (expr level (.object entries opening.line)).Reads (opening :: (ts ++ [closing])) := by
  intro s context hopen
  refine ⟨_, context.pending, ?_, fun _ _ => rfl, fun _ => ⟨rfl, rfl⟩⟩
  have hopening : step { s with phase := .operand context } opening =
      .next { s with phase := .keyOrEnd opening.line context } := by
    simp [step, operandMove, ho, State.goto]
  rw [steps_cons hopening]
  by_cases hentries : entries = []
  · subst hentries
    rw [hderives.properties_nil]
    simp [steps, step, hc, State.goto]
  · obtain ⟨operand, pending, front, key, last, rfl, hsteps, hr⟩ :=
      h s [] opening.line context hentries
    have hfirst := steps_congr hderives (by simp) (by simp [hentries])
      (fun t ht => step_keyOrEnd (s := s) ht opening.line context)
    rw [steps_append (hfirst.trans hsteps),
      steps_cons (step_bracket (by rw [hc, Pending.close?]) hr)]
    simp [steps]

theorem reads_call {level : Nat} {callee : Node} {args : List Node} {opening closing : Token}
    {ts us : List Token} (hlevel : level ≤ 8) (hcallee : (expr 8 callee).Reads ts)
    (ho : opening.kind = .leftParen) (hderives : Derives (.items args) us)
    (hargs : (items args).Reads us) (hc : closing.kind = .rightParen) :
    (expr level (.call callee args opening.line)).Reads (ts ++ opening :: (us ++ [closing])) := by
  intro s context hopen
  obtain ⟨operand, pending, hsteps, -, hexact⟩ := hcallee s context (hopen.mono hlevel)
  -- A callee is complete by itself: no operator before it is applied when the `(` comes.
  obtain ⟨rfl, rfl⟩ := hexact (by omega)
  refine ⟨.call operand args opening.line, context.pending, ?_, fun _ _ => rfl,
    fun _ => ⟨rfl, rfl⟩⟩
  have hopening : step { s with phase := .afterOperand operand context } opening =
      .next { s with phase := .argumentOrEnd operand opening.line context } := by
    simp [step, afterOperandMove, ho, State.goto]
  rw [steps_append hsteps, steps_cons hopening]
  apply steps_list hderives hargs (.arguments operand opening.line)
  · simp [step, hc, State.goto]
  · intro t ht
    exact step_argumentOrEnd ht operand opening.line context
  · intro value before
    rw [hc, Pending.close?]

theorem reads_unary {level : Nat} {operand : Node} {sign : Token} {ts : List Token}
    (hlevel : level ≤ 7) (hsign : sign.kind = .notOp ∨ sign.kind = .minus)
    (h : (expr 7 operand).Reads ts) :
    (expr level (.unary sign.text operand sign.line)).Reads (sign :: ts) := by
  intro s context hopen
  obtain ⟨operand', pending, hsteps, hr, -⟩ := h s
    ⟨.unary sign.text sign.line :: context.pending, context.purpose⟩ (Nat.le_refl 7)
  have hoperand : step { s with phase := .operand context } sign =
      .next { s with
        phase := .operand ⟨.unary sign.text sign.line :: context.pending, context.purpose⟩ } := by
    rcases hsign with hk | hk <;> simp [step, operandMove, hk, State.goto]
  refine ⟨operand', pending, (steps_cons hoperand ts).trans hsteps, ?_, fun h => by omega⟩
  intro held hheld
  rw [hr held (by omega), reduce]

theorem reads_binary {level held : Nat} {left right : Node} {sign : Token} {ts us : List Token}
    (hlevel : level ≤ held) (hleft : (expr held left).Reads ts)
    (hsign : level? sign.kind = some held) (hright : (expr (held + 1) right).Reads us) :
    (expr level (.binary sign.text left right sign.line)).Reads (ts ++ sign :: us) := by
  intro s context hopen
  have hheld := level?_le hsign
  obtain ⟨operand, pending, hsteps, hr, -⟩ := hleft s context (hopen.mono hlevel)
  -- What waits before the left operand binds more loosely than this operator, which therefore
  -- takes the left operand and nothing before it.
  have hleft : reduce held operand pending = (left, context.pending) := by
    rw [hr held (Nat.le_refl held), hopen.reduce_eq hlevel hheld]
  obtain ⟨operand', pending', hsteps', hr', -⟩ := hright s
    ⟨.binary held sign.text left sign.line :: context.pending, context.purpose⟩
    (Nat.lt_succ_self held)
  refine ⟨operand', pending', ?_, ?_, fun h => by omega⟩
  -- The operator stays pending behind the right operand until something at most as tight comes.
  · rw [steps_append hsteps, steps_cons (step_sign hsign hleft), hsteps']
  · intro held' hheld'
    rw [hr' held' (by omega), reduce, if_pos (by omega)]

theorem reads_moreItems {node next : Node} {nodes : List Node} {comma : Token} {ts us : List Token}
    (h : (expr 1 node).Reads ts) (hcomma : comma.kind = .comma)
    (hmore : (items (next :: nodes)).Reads us) :
    (items (node :: next :: nodes)).Reads (ts ++ comma :: us) := by
  intro s list before outer purpose hlist hne
  obtain ⟨operand, pending, hsteps, hr, -⟩ :=
    h s ⟨list before :: outer, purpose⟩ (hlist.opens _ _ _)
  have hnode := (hr 0 (by omega)).trans (hlist.reduce_eq _ _ _ _)
  obtain ⟨operand', pending', front, last, hnodes, hsteps', hr'⟩ :=
    hmore s list (node :: before) outer purpose hlist (by simp)
  refine ⟨operand', pending', node :: front, last, by rw [hnodes, List.cons_append], ?_, ?_⟩
  · rw [steps_append hsteps, steps_cons (step_comma hlist hcomma hnode), hsteps']
  · simpa using hr'

theorem reads_moreProperties {node : Node} {next : String × Node} {entries : List (String × Node)}
    {key colon comma : Token} {ts us : List Token}
    (hkey : key.kind = .identifier ∨ key.kind = .string) (hcolon : colon.kind = .colon)
    (h : (expr 1 node).Reads ts) (hcomma : comma.kind = .comma)
    (hmore : (properties (next :: entries)).Reads us) :
    (properties ((key.text, node) :: next :: entries)).Reads
      (key :: colon :: (ts ++ comma :: us)) := by
  intro s before line context hne
  obtain ⟨operand, pending, hsteps, hr, -⟩ :=
    h s ⟨.property before key.text line :: context.pending, context.purpose⟩ trivial
  obtain ⟨operand', pending', front, key', last, hentries, hsteps', hr'⟩ :=
    hmore s ((key.text, node) :: before) line context (by simp)
  refine ⟨operand', pending', (key.text, node) :: front, key', last,
    by rw [hentries, List.cons_append], ?_, ?_⟩
  · rw [steps_cons (step_key hkey _ _ _), steps_cons (step_propertyColon hcolon _ _ _ _),
      steps_append hsteps, steps_cons (step_property_comma hcomma (hr 0 (by omega))), hsteps']
  · simpa using hr'

end Phrase

/-- **The reader follows the grammar.** -/
theorem Derives.reads {phrase : Phrase} {ts : List Token} (h : Derives phrase ts) :
    phrase.Reads ts := by
  induction h with
  | @leaf level t node h =>
    intro s context hopen
    refine ⟨node, context.pending, ?_, fun _ _ => rfl, fun _ => ⟨rfl, rfl⟩⟩
    have hleaf : step { s with phase := .operand context } t =
        .next { s with phase := .afterOperand node context } := operandMove_leaf h _ _
    rw [steps_cons hleaf]
    rfl
  | @template level opening name closing ho hn hc =>
    intro s context hopen
    refine ⟨_, context.pending, ?_, fun _ _ => rfl, fun _ => ⟨rfl, rfl⟩⟩
    simp [steps, step, operandMove, nameMove, signMove, State.goto, ho, hn, hc]
  | group ho h hc ih => exact Phrase.reads_group ho ih hc
  | array ho h hc ih => exact Phrase.reads_array ho h ih hc
  | object ho h hc ih => exact Phrase.reads_object ho h ih hc
  | call hlevel hcallee ho hargs hc ihcallee ihargs =>
    exact Phrase.reads_call hlevel ihcallee ho hargs ihargs hc
  | unary hlevel hsign h ih => exact Phrase.reads_unary hlevel hsign ih
  | binary hlevel hleft hsign hright ihleft ihright =>
    exact Phrase.reads_binary hlevel ihleft hsign ihright
  | noItems =>
    intro s list before outer purpose hlist hne
    exact absurd rfl hne
  | @lastItem node ts h ih =>
    intro s list before outer purpose hlist hne
    obtain ⟨operand, pending, hsteps, hr, -⟩ :=
      ih s ⟨list before :: outer, purpose⟩ (hlist.opens _ _ _)
    refine ⟨operand, pending, [], node, rfl, hsteps, ?_⟩
    exact (hr 0 (by omega)).trans (hlist.reduce_eq _ _ _ _)
  | moreItems h hcomma hmore ih ihmore => exact Phrase.reads_moreItems ih hcomma ihmore
  | noProperties =>
    intro s before line context hne
    exact absurd rfl hne
  | @lastProperty node key colon ts hkey hcolon h ih =>
    intro s before line context hne
    obtain ⟨operand, pending, hsteps, hr, -⟩ :=
      ih s ⟨.property before key.text line :: context.pending, context.purpose⟩ trivial
    refine ⟨operand, pending, [], key.text, node, rfl, ?_, hr 0 (by omega)⟩
    rw [steps_cons (step_key hkey _ _ _), steps_cons (step_propertyColon hcolon _ _ _ _), hsteps]
  | moreProperties hkey hcolon h hcomma hmore ih ihmore =>
    exact Phrase.reads_moreProperties hkey hcolon ih hcomma ihmore

/-! ### A binding -/

/-- A binding of an expression is read as that, and nothing else, up to the limit of nesting. -/
theorem Derives.run_binding {node : Node} {ts : List Token} (h : Derives (.expr 1 node) ts)
    {word name sign last : Token} (hword : word.kind = .letWord) (hname : name.kind = .identifier)
    (hsign : sign.kind = .assign) (hlast : last.kind = .endOfInput) :
    ∃ s', steps start (word :: name :: sign :: ts) = some s' ∧
      ∀ limit, run limit s' [last] = .program ⟨[.binding name.text node word.line]⟩ := by
  obtain ⟨operand, pending, hsteps, hr, -⟩ :=
    h.reads start ⟨[], .bindingValue name.text word.line⟩ trivial
  have hword : step start word = .next { start with phase := .bindingName word.line } := by
    simp [step, start, statementMove, hword, State.goto]
  have hname : step { start with phase := .bindingName word.line } name =
      .next { start with phase := .bindingSign name.text word.line } := by
    simp [step, nameMove, hname, State.goto]
  have hsign : step { start with phase := .bindingSign name.text word.line } sign =
      .next { start with phase := .operand ⟨[], .bindingValue name.text word.line⟩ } := by
    simp [step, signMove, hsign, State.read, State.goto]
  refine ⟨{ start with
    phase := .afterOperand operand ⟨pending, .bindingValue name.text word.line⟩ }, ?_,
    fun limit => ?_⟩
  · rw [steps_cons hword, steps_cons hname, steps_cons hsign]
    exact hsteps
  · rw [run, step_close (by simp [hlast]) (by simp [hlast, level?]) (hr 0 (by omega))]
    simp [closeMove, purposeMove, statementMove, State.finish, hlast, start]

end PageScript.Reader
