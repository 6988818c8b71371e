import PageScript.Proofs.Syntax.Reading

/-!
Where the reading of a program fails. From every state some tokens lead to the end of a program:
what is open can be closed, and one name serves wherever something has to come. So the tokens before
the one that an error blames begin a program, and together with that one they begin none.
-/
namespace PageScript.Reader

/-! ### Limits of nesting -/

/-- Whether the reading was given up for the nesting. -/
def Outcome.TooDeep (outcome : Outcome) : Prop :=
  ∃ line column, outcome = .error ⟨.nestingTooDeep, line, column⟩

theorem Outcome.not_tooDeep_program (program : Program) : ¬ (Outcome.program program).TooDeep := by
  rintro ⟨line, column, h⟩
  cases h

theorem Outcome.not_tooDeep_error {e : SyntaxError} (h : e.fault ≠ .nestingTooDeep) :
    ¬ (Outcome.error e).TooDeep := by
  rintro ⟨line, column, he⟩
  cases he
  exact h rfl

/-- Two limits differ only in what is given up for its nesting. -/
theorem run_eq_or_tooDeep {limit limit' : Nat} (hle : limit ≤ limit') (s : State)
    (ts : List Token) : run limit s ts = run limit' s ts ∨ (run limit s ts).TooDeep := by
  induction ts generalizing s with
  | nil => exact .inl rfl
  | cons t ts ih =>
    cases hstep : step s t with
    | done program => exact .inl (by rw [run, run, hstep])
    | fail fault => exact .inl (by rw [run, run, hstep])
    | next s' =>
      rw [run_cons hstep, run_cons hstep]
      by_cases hlimit : limit < s'.weight
      · rw [if_pos hlimit]
        exact .inr ⟨t.line, t.column, rfl⟩
      · rw [if_neg hlimit, if_neg (by omega)]
        exact ih s'

/-- What is not given up for its nesting is read alike under every larger limit. -/
theorem run_mono {limit limit' : Nat} (hle : limit ≤ limit') {s : State} {ts : List Token}
    {outcome : Outcome} (h : run limit s ts = outcome) (hdeep : ¬ outcome.TooDeep) :
    run limit' s ts = outcome := by
  rw [← h] at hdeep
  exact ((run_eq_or_tooDeep hle s ts).resolve_right hdeep).symm.trans h

/-! ### Weights -/

/-- How deeply the blocks around a place are nested. -/
def State.blocksWeight (s : State) : Nat :=
  s.blocks.foldr (fun block n => block.use.weight + n) 0

theorem State.weight_eq (s : State) : s.weight = s.blocksWeight + s.phase.weight := rfl

@[simp] theorem Context.weight_cons (bracket : Pending) (outer : List Pending) (purpose : Purpose) :
    Context.weight ⟨bracket :: outer, purpose⟩ = bracket.weight + Context.weight ⟨outer, purpose⟩ :=
  Nat.add_assoc ..

/-- Whether nothing is left open, or a bracket that some sign closes. -/
def Closable : List Pending → Prop
  | [] => True
  | bracket :: _ => ∀ value, ∃ kind node, bracket.close? value kind = some node

/-- At the end of an expression all operators are applied. What is left is no deeper. -/
theorem exists_reduce (operand : Node) (pending : List Pending) (purpose : Purpose) :
    ∃ value outer, reduce 0 operand pending = (value, outer) ∧ Closable outer ∧
      outer.length ≤ pending.length ∧
      Context.weight ⟨outer, purpose⟩ ≤ Context.weight ⟨pending, purpose⟩ := by
  induction pending generalizing operand with
  | nil => exact ⟨operand, [], rfl, trivial, Nat.le_refl _, Nat.le_refl _⟩
  | cons waiting rest ih =>
    cases waiting with
    | unary operator line =>
      obtain ⟨value, outer, hreduce, hclosable, hlength, hweight⟩ :=
        ih (.unary operator operand line)
      refine ⟨value, outer, hreduce, hclosable, Nat.le_succ_of_le hlength, ?_⟩
      rw [Context.weight_cons]
      omega
    | binary held operator left line =>
      obtain ⟨value, outer, hreduce, hclosable, hlength, hweight⟩ :=
        ih (.binary operator left operand line)
      refine ⟨value, outer, ?_, hclosable, Nat.le_succ_of_le hlength, ?_⟩
      · rw [reduce, if_pos (Nat.zero_le held), hreduce]
      · rw [Context.weight_cons]
        omega
    | group | arguments =>
      exact ⟨operand, _, rfl, fun _ => ⟨.rightParen, _, rfl⟩, Nat.le_refl _, Nat.le_refl _⟩
    | elements =>
      exact ⟨operand, _, rfl, fun _ => ⟨.rightBracket, _, rfl⟩, Nat.le_refl _, Nat.le_refl _⟩
    | property =>
      exact ⟨operand, _, rfl, fun _ => ⟨.rightBrace, _, rfl⟩, Nat.le_refl _, Nat.le_refl _⟩

/-! ### Tokens that complete a program -/

/-- A token of a kind that is read alike whatever its text. -/
def mark (kind : TokenKind) : Token := ⟨kind, "", 0, 0⟩

/-- The name that may stand wherever a name, an operand or the word of a loop has to. -/
def anyName : Token := ⟨.identifier, "in", 0, 0⟩

/-- Whether some tokens bring a program to its end from here, within the limit. -/
def Completable (limit : Nat) (s : State) : Prop :=
  ∃ ts program, run limit s ts = .program program

variable {limit : Nat} {s s' : State}

theorem Completable.of_next {t : Token} (h : step s t = .next s') (hlimit : s'.weight ≤ limit)
    (hs' : Completable limit s') : Completable limit s := by
  obtain ⟨ts, program, hrun⟩ := hs'
  refine ⟨t :: ts, program, ?_⟩
  rw [run_cons h, if_neg (by omega), hrun]

/-! ### Between statements -/

/-- Whether the current statement may end here: a `}` and the end of the input are read as they are
behind a finished statement. -/
def Endable (s : State) : Prop :=
  ∃ before, ∀ t : Token, t.kind = .rightBrace ∨ t.kind = .endOfInput →
    step s t = statementMove { s with before, phase := .statement } t

theorem Endable.statement (h : s.phase = .statement) : Endable s := by
  obtain ⟨before, blocks, phase⟩ := s
  cases h
  exact ⟨before, fun t _ => rfl⟩

theorem Endable.afterThen {chain : List OpenIf} {condition thenPart : Node} {line : Int} :
    Endable { s with phase := .afterThen chain condition thenPart line } := by
  refine ⟨closeIfs (.branch condition thenPart none line) chain :: s.before, fun t ht => ?_⟩
  have hk : t.kind ≠ .elseWord := by
    intro hk
    simp [hk] at ht
  simp only [step, if_neg hk]
  rfl

theorem Endable.returnValue {line : Int} : Endable { s with phase := .returnValue line } := by
  refine ⟨.returning none line :: s.before, fun t ht => ?_⟩
  simp only [step, if_pos ht]
  rfl

theorem State.finishBlock_blocks (s : State) (block : Node) (use : BlockUse) :
    (s.finishBlock block use).blocks = s.blocks := by
  cases use <;> rfl

theorem Endable.finishBlock (s : State) (block : Node) (use : BlockUse) :
    Endable (s.finishBlock block use) := by
  cases use with
  | thenPart chain condition line => exact .afterThen
  | _ => exact .statement rfl

/-- A finished block weighs no more than it did while it was open. -/
theorem State.weight_finishBlock_le (s : State) (block : Node) (use : BlockUse) :
    (s.finishBlock block use).weight ≤ use.weight + s.blocksWeight := by
  cases use with
  | thenPart chain condition line =>
    simp [State.weight_eq, finishBlock, blocksWeight, Phase.weight, BlockUse.weight]
    omega
  | _ => simp [State.weight_eq, finishBlock, State.finish, blocksWeight, Phase.weight]

/-- Where the current statement may end, so may all blocks around it and then the program. -/
theorem Completable.of_endable (h : Endable s) (hlimit : s.weight ≤ limit) :
    Completable limit s := by
  obtain ⟨inner, blocks, phase⟩ := s
  induction blocks generalizing inner phase with
  | nil =>
    obtain ⟨before, hstep⟩ := h
    refine ⟨[mark .endOfInput], ⟨before.reverse⟩, ?_⟩
    rw [run, hstep (mark .endOfInput) (.inr rfl)]
    rfl
  | cons block outer ih =>
    obtain ⟨before, hstep⟩ := h
    obtain ⟨closed, hclosed⟩ : ∃ closed, closed = State.finishBlock
      ⟨block.before, outer, .statement⟩ (.block before.reverse block.line) block.use := ⟨_, rfl⟩
    have hnext : step ⟨inner, block :: outer, phase⟩ (mark .rightBrace) = .next closed := by
      rw [hstep (mark .rightBrace) (.inl rfl), hclosed]
      rfl
    have hendable : Endable closed := hclosed ▸ Endable.finishBlock ..
    have hblocks : closed.blocks = outer := hclosed ▸ State.finishBlock_blocks ..
    have hweight : closed.weight ≤ limit := by
      refine Nat.le_trans (hclosed ▸ State.weight_finishBlock_le ..) (Nat.le_trans ?_ hlimit)
      exact Nat.le_add_right _ _
    obtain ⟨before', blocks', phase'⟩ := closed
    cases hblocks
    exact .of_next hnext hweight (ih before' phase' hendable hweight)

/-! ### Blocks -/

/-- Where a `{` opens a block, the block may end at once. -/
theorem Completable.of_enter {use : BlockUse}
    (hstep : ∀ t : Token, t.kind = .leftBrace → step s t = s.enter use t.line)
    (huse : use.weight ≤ s.phase.weight + blockWeight)
    (hlimit : s.blocksWeight + s.phase.weight + blockWeight ≤ limit) : Completable limit s := by
  have hweight : State.weight ⟨[], ⟨s.before, 0, use⟩ :: s.blocks, .statement⟩ =
      use.weight + s.blocksWeight := rfl
  have hle : State.weight ⟨[], ⟨s.before, 0, use⟩ :: s.blocks, .statement⟩ ≤ limit := by omega
  exact .of_next (hstep (mark .leftBrace) rfl) hle (.of_endable (.statement rfl) hle)

/-! ### Expressions -/

/-- Behind a complete expression comes what follows the statement that it completes, or a block. -/
theorem purposeMove_cases (value : Node) (purpose : Purpose) :
    (∃ statement, ∀ s t, purposeMove s value t purpose = statementMove (s.finish statement) t) ∨
      ∃ use : BlockUse, use.weight ≤ Context.weight ⟨[], purpose⟩ + blockWeight ∧
        ∀ s t, purposeMove s value t purpose = blockMove s use t := by
  cases purpose with
  | statement => exact .inl ⟨value, fun _ _ => rfl⟩
  | bindingValue name line => exact .inl ⟨.binding name value line, fun _ _ => rfl⟩
  | returnValue line => exact .inl ⟨.returning (some value) line, fun _ _ => rfl⟩
  | ifCondition chain line =>
    refine .inr ⟨.thenPart chain value line, ?_, fun _ _ => rfl⟩
    simp [BlockUse.weight, Context.weight]
    omega
  | whileCondition line =>
    exact .inr ⟨.whileBody value line, Nat.le_add_left _ _, fun _ _ => rfl⟩
  | forSource item line =>
    exact .inr ⟨.forBody item value line, Nat.le_add_left _ _, fun _ _ => rfl⟩

/-- Where an expression may end, what it is read for may be completed. -/
theorem Completable.of_purpose {operand value : Node} {pending : List Pending} {purpose : Purpose}
    (hreduce : reduce 0 operand pending = (value, []))
    (hlimit : s.blocksWeight + Context.weight ⟨pending, purpose⟩ + blockWeight ≤ limit) :
    Completable limit { s with phase := .afterOperand operand ⟨pending, purpose⟩ } := by
  have hweight : Context.weight ⟨[], purpose⟩ ≤ Context.weight ⟨pending, purpose⟩ :=
    Nat.add_le_add_right (Nat.zero_le _) _
  rcases purposeMove_cases value purpose with ⟨statement, hmove⟩ | ⟨use, huse, hmove⟩
  · refine .of_endable ⟨statement :: s.before, fun t ht => ?_⟩
      (Nat.le_trans (Nat.le_add_right _ blockWeight) hlimit)
    have hend : t.kind ≠ .leftParen ∧ level? t.kind = none := by
      rcases ht with hk | hk <;> simp [hk, level?]
    exact (step_close hend.1 hend.2 hreduce).trans (hmove _ t)
  · refine .of_enter (fun t hk => ?_) (Nat.le_trans huse ?_) hlimit
    · refine (step_close (by simp [hk]) (by simp [hk, level?]) hreduce).trans ?_
      exact (hmove _ t).trans (if_pos hk)
    · exact Nat.add_le_add_right hweight _

/-- Behind an operand all brackets may be closed, and the expression may end. -/
theorem Completable.afterOperand {purpose : Purpose} (operand : Node) (pending : List Pending)
    (hlimit : s.blocksWeight + Context.weight ⟨pending, purpose⟩ + blockWeight ≤ limit) :
    Completable limit { s with phase := .afterOperand operand ⟨pending, purpose⟩ } := by
  induction hn : pending.length using Nat.strongRecOn generalizing operand pending with
  | ind n ih =>
    subst hn
    obtain ⟨value, outer, hreduce, hclosable, hlength, hweight⟩ :=
      exists_reduce operand pending purpose
    cases outer with
    | nil => exact .of_purpose hreduce hlimit
    | cons bracket outer =>
      obtain ⟨kind, node, hclose⟩ := hclosable value
      have hstep : step { s with phase := .afterOperand operand ⟨pending, purpose⟩ } (mark kind) =
          .next { s with phase := .afterOperand node ⟨outer, purpose⟩ } :=
        step_bracket hclose hreduce
      rw [Context.weight_cons] at hweight
      have hlimit' : s.blocksWeight + Context.weight ⟨outer, purpose⟩ + blockWeight ≤ limit := by
        omega
      exact .of_next hstep (Nat.le_trans (Nat.le_add_right _ blockWeight) hlimit')
        (ih outer.length hlength node outer hlimit' rfl)

/-- Where an expression has to come, any name is one. -/
theorem Completable.operand {context : Context}
    (hlimit : s.blocksWeight + context.weight + blockWeight ≤ limit) :
    Completable limit { s with phase := .operand context } := by
  have hstep : step { s with phase := .operand context } anyName =
      .next { s with phase := .afterOperand (.identifier anyName.text anyName.line) context } := rfl
  exact .of_next hstep (Nat.le_trans (Nat.le_add_right _ blockWeight) hlimit)
    (.afterOperand _ context.pending hlimit)

/-! ### All states -/

/-- A token that leads to a phase that weighs no more, and may be completed. -/
theorem Completable.of_goto {phase phase' : Phase} (t : Token)
    (hstep : step { s with phase } t = s.goto phase') (hphase : phase'.weight ≤ phase.weight)
    (hlimit : s.blocksWeight + phase.weight + blockWeight ≤ limit)
    (h : s.blocksWeight + phase'.weight + blockWeight ≤ limit →
      Completable limit { s with phase := phase' }) :
    Completable limit { s with phase } := by
  have hlimit' : s.blocksWeight + phase'.weight + blockWeight ≤ limit := by omega
  exact .of_next hstep (Nat.le_trans (Nat.le_add_right _ blockWeight) hlimit') (h hlimit')

theorem Completable.openBlock {use : BlockUse}
    (hlimit : s.blocksWeight + (Phase.openBlock use).weight + blockWeight ≤ limit) :
    Completable limit { s with phase := .openBlock use } := by
  have huse : use.weight ≤ (Phase.openBlock use).weight + blockWeight := by
    cases use <;> simp [BlockUse.weight, Phase.weight] <;> omega
  exact .of_enter (fun t hk => if_pos hk) huse hlimit

theorem Completable.afterElse {chain : List OpenIf}
    (hlimit : s.blocksWeight + (Phase.afterElse chain).weight + blockWeight ≤ limit) :
    Completable limit { s with phase := .afterElse chain } := by
  have huse : (BlockUse.elsePart chain).weight ≤ (Phase.afterElse chain).weight + blockWeight :=
    Nat.le_of_eq (Nat.add_comm ..)
  refine .of_enter (fun t hk => ?_) huse hlimit
  have hif : t.kind ≠ .ifWord := by simp [hk]
  simp only [step, if_neg hif]
  exact if_pos hk

theorem Completable.propertyColon {before : List (String × Node)} {key : String} {line : Int}
    {context : Context}
    (hlimit : s.blocksWeight + (bracketWeight + context.weight) + blockWeight ≤ limit) :
    Completable limit { s with phase := .propertyColon before key line context } := by
  refine .of_goto (mark .colon) rfl ?_ hlimit .operand
  exact Nat.le_of_eq (Context.weight_cons ..)

theorem Completable.inWord {item : String} {line : Int}
    (hlimit : s.blocksWeight + 0 + blockWeight ≤ limit) :
    Completable limit { s with phase := .inWord item line } := by
  have hstep : step { s with phase := .inWord item line } anyName =
      s.goto (.operand ⟨[], .forSource item line⟩) := by
    simp only [step, anyName, and_self, if_true]
    rfl
  exact .of_goto anyName hstep (Nat.le_refl _) hlimit .operand

/-- Whatever the reader waits for, it may be given. -/
theorem Completable.of_phase (phase : Phase)
    (hlimit : s.blocksWeight + phase.weight + blockWeight ≤ limit) :
    Completable limit { s with phase } := by
  have hendable : { s with phase }.weight ≤ limit :=
    Nat.le_trans (Nat.le_add_right _ blockWeight) hlimit
  have hbracket (context : Context) : context.weight ≤ bracketWeight + context.weight :=
    Nat.le_add_left _ _
  cases phase with
  | statement => exact .of_endable (.statement rfl) hendable
  | afterThen => exact .of_endable .afterThen hendable
  | returnValue => exact .of_endable .returnValue hendable
  | operand => exact .operand hlimit
  | afterOperand operand context => exact .afterOperand operand context.pending hlimit
  | argumentOrEnd callee line context =>
    exact .of_goto (mark .rightParen) rfl (hbracket context) hlimit (.afterOperand _ _)
  | elementOrEnd line context =>
    exact .of_goto (mark .rightBracket) rfl (hbracket context) hlimit (.afterOperand _ _)
  | keyOrEnd line context =>
    exact .of_goto (mark .rightBrace) rfl (hbracket context) hlimit (.afterOperand _ _)
  | key before line context =>
    exact .of_goto anyName rfl (Nat.le_refl _) hlimit .propertyColon
  | propertyColon => exact .propertyColon hlimit
  | templateName line context =>
    refine .of_goto anyName rfl (Nat.le_refl _) hlimit fun hlimit => ?_
    exact .of_goto (mark .templateEnd) rfl (Nat.le_refl _) hlimit (.afterOperand _ _)
  | templateEnd name line context =>
    exact .of_goto (mark .templateEnd) rfl (Nat.le_refl _) hlimit (.afterOperand _ _)
  | bindingName line =>
    refine .of_goto anyName rfl (Nat.le_refl _) hlimit fun hlimit => ?_
    exact .of_goto (mark .assign) rfl (Nat.le_refl _) hlimit .operand
  | bindingSign name line => exact .of_goto (mark .assign) rfl (Nat.le_refl _) hlimit .operand
  | functionName line =>
    refine .of_goto anyName rfl (Nat.le_refl _) hlimit fun hlimit => ?_
    refine .of_goto (mark .leftParen) rfl (Nat.le_refl _) hlimit fun hlimit => ?_
    exact .of_goto (mark .rightParen) rfl (Nat.le_refl _) hlimit .openBlock
  | openParameters name line =>
    refine .of_goto (mark .leftParen) rfl (Nat.le_refl _) hlimit fun hlimit => ?_
    exact .of_goto (mark .rightParen) rfl (Nat.le_refl _) hlimit .openBlock
  | parameterOrEnd name line =>
    exact .of_goto (mark .rightParen) rfl (Nat.le_refl _) hlimit .openBlock
  | parameter name before line =>
    refine .of_goto anyName rfl (Nat.le_refl _) hlimit fun hlimit => ?_
    exact .of_goto (mark .rightParen) rfl (Nat.le_refl _) hlimit .openBlock
  | afterParameter name before line =>
    exact .of_goto (mark .rightParen) rfl (Nat.le_refl _) hlimit .openBlock
  | loopVariable line =>
    exact .of_goto anyName rfl (Nat.le_refl _) hlimit .inWord
  | inWord => exact .inWord hlimit
  | openBlock => exact .openBlock hlimit
  | afterElse => exact .afterElse hlimit

/-- **Completion.** From every state some tokens bring a program to its end, at most a block deeper
than it is. -/
theorem completable (s : State) : Completable (s.weight + blockWeight) s :=
  .of_phase s.phase (Nat.le_refl _)

theorem kind_ne_endOfInput_of_next {t : Token} (h : step s t = .next s') :
    t.kind ≠ .endOfInput := by
  intro hk
  have hends := step_ends s hk
  rw [h] at hends
  exact hends

end Reader

namespace Program
open Reader

/-- Whether tokens begin a program: with some that follow them they are one, if the limit of nesting
leaves room for another block. -/
def Begins (front : List Token) : Prop :=
  ∃ s rest program, steps start front = some s ∧
    (s.weight + blockWeight ≤ nestingLimit → ofTokens (front ++ rest) = .program program) ∧
    ∀ limit, nestingLimit + blockWeight ≤ limit →
      run limit start (front ++ rest) = .program program

/-- Whether tokens begin no program: however they go on, this is the error, or under another limit
that of the nesting. -/
def Excludes (front : List Token) (e : SyntaxError) : Prop :=
  ∀ rest, ofTokens (front ++ rest) = .error e ∧
    ∀ limit, run limit start (front ++ rest) = .error e ∨ (run limit start (front ++ rest)).TooDeep

/-- **Errors point at the first impossible token.** A syntax error other than one of the nesting
stands at a token that is not behind the end of the input. What is before it begins a program, and
with that token it begins none. -/
theorem ofTokens_first_impossible {tokens : List Token} {e : SyntaxError}
    (h : ofTokens tokens = .error e) (hfault : e.fault ≠ .nestingTooDeep) :
    ∃ before t after, tokens = before ++ t :: after ∧ (∀ u ∈ before, u.kind ≠ .endOfInput) ∧
      e.line = t.line ∧ e.column = t.column ∧ Begins before ∧ Excludes (before ++ [t]) e := by
  obtain ⟨before, t, after, s, rfl, hsteps, hs, hrun, hline, hcolumn, hstep⟩ :=
    exists_fault h (Nat.zero_le _)
  have hstep : step s t = .fail e.fault := hstep.resolve_right fun hdeep => hfault hdeep.1
  have hbefore : ∀ u ∈ before, u.kind ≠ .endOfInput :=
    forall_mem_of_steps kind_ne_endOfInput_of_next hsteps
  refine ⟨before, t, after, rfl, hbefore, hline, hcolumn, ?_, fun rest => ?_⟩
  · obtain ⟨rest, program, hrest⟩ := completable s
    have haccepted {limit : Nat} (hle : nestingLimit ≤ limit)
        (hroom : s.weight + blockWeight ≤ limit) :
        run limit start (before ++ rest) = .program program := by
      rw [hrun limit hle]
      exact run_mono hroom hrest (Outcome.not_tooDeep_program program)
    exact ⟨s, rest, program, hsteps, haccepted (Nat.le_refl _),
      fun limit hle => haccepted (by omega) (by omega)⟩
  · rw [List.append_assoc]
    have herror : ofTokens (before ++ t :: rest) = .error e := by
      rw [ofTokens, hrun nestingLimit (Nat.le_refl _), run, hstep, ← hline, ← hcolumn]
    refine ⟨herror, fun limit => ?_⟩
    rcases Nat.le_total limit nestingLimit with hle | hle
    · exact (run_eq_or_tooDeep hle start _).imp_left fun heq => heq.trans herror
    · exact .inl (run_mono hle herror (Outcome.not_tooDeep_error hfault))

/-- The word of a loop is read as a name before it is looked at; the error is there all the same. -/
theorem ofTokens_first_impossible_loop :
    let tokens : List Token := [⟨.forWord, "for", 1, 1⟩, ⟨.identifier, "item", 1, 5⟩,
      ⟨.identifier, "on", 1, 10⟩, ⟨.endOfInput, "", 1, 12⟩]
    let e : SyntaxError := ⟨.expected .inWord, 1, 10⟩
    ofTokens tokens = .error e ∧ e.fault ≠ .nestingTooDeep ∧
      ∃ before t after, tokens = before ++ t :: after ∧ (∀ u ∈ before, u.kind ≠ .endOfInput) ∧
        e.line = t.line ∧ e.column = t.column ∧ Begins before ∧ Excludes (before ++ [t]) e := by
  intro tokens e
  have h : ofTokens tokens = .error e := rfl
  have hfault : e.fault ≠ .nestingTooDeep := by decide
  exact ⟨h, hfault, ofTokens_first_impossible h hfault⟩

end Program
end PageScript
