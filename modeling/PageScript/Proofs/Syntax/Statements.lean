import PageScript.Proofs.Syntax.Reading

/-!
The grammar of programs, and the reader follows it. Nothing stands between two statements, so the
grammar says what may come behind each of them: an expression goes on as long as it can, a `return`
takes what follows for its value, and an `if` takes an `else`.
-/
namespace PageScript.Reader

/-! ### The grammar -/

/-- The tokens that an expression may begin with. -/
def operandKinds : List TokenKind :=
  [.notOp, .minus, .trueWord, .falseWord, .number, .string, .identifier, .templateStart,
   .leftBracket, .leftBrace, .leftParen]

/-- Whether a token may come behind a statement. -/
def Follows (t : Token) : Node → Prop
  | .branch .. => t.kind ≠ .elseWord
  | .function .. | .forEach .. | .whileLoop .. | .block .. => True
  | .returning none _ => t.kind = .rightBrace ∨ t.kind = .endOfInput
  | _ => t.kind ≠ .leftParen ∧ level? t.kind = none

/-- The names of parameters, with commas between them. -/
inductive Parameters : List String → List Token → Prop where
  | none : Parameters [] []
  | last {t : Token} (h : t.kind = .identifier) : Parameters [t.text] [t]
  | more {t comma : Token} {next : String} {names : List String} {ts : List Token}
    (h : t.kind = .identifier) (hcomma : comma.kind = .comma)
    (hmore : Parameters (next :: names) ts) :
    Parameters (t.text :: next :: names) (t :: comma :: ts)

/-- What the tokens of a program may stand for: a statement, an `if` with all its parts, what comes
behind an `else`, a block, or statements one after another. -/
inductive Passage where
  | statement (node : Node)
  | conditional (node : Node)
  | elsePart (node : Node)
  | block (node : Node)
  | statements (nodes : List Node)

/-- The grammar of statements. A statement that begins with a `{` is a block, never an object. -/
inductive Stands : Passage → List Token → Prop where
  | expression {node : Node} {ts : List Token} (h : Derives (.expr 1 node) ts)
    (hfirst : ∀ t ∈ ts.head?, t.kind ≠ .leftBrace) : Stands (.statement node) ts
  | binding {value : Node} {word name sign : Token} {ts : List Token} (hword : word.kind = .letWord)
    (hname : name.kind = .identifier) (hsign : sign.kind = .assign)
    (h : Derives (.expr 1 value) ts) :
    Stands (.statement (.binding name.text value word.line)) (word :: name :: sign :: ts)
  | returning {value : Node} {word : Token} {ts : List Token} (hword : word.kind = .returnWord)
    (h : Derives (.expr 1 value) ts) :
    Stands (.statement (.returning (some value) word.line)) (word :: ts)
  | returningNothing {word : Token} (hword : word.kind = .returnWord) :
    Stands (.statement (.returning none word.line)) [word]
  | function {params : List String} {body : Node} {word name opening closing : Token}
    {ps ts : List Token} (hword : word.kind = .fnWord) (hname : name.kind = .identifier)
    (ho : opening.kind = .leftParen) (hparams : Parameters params ps)
    (hc : closing.kind = .rightParen) (hbody : Stands (.block body) ts) :
    Stands (.statement (.function name.text params body word.line))
      (word :: name :: opening :: (ps ++ closing :: ts))
  | whileLoop {condition body : Node} {word : Token} {cs ts : List Token}
    (hword : word.kind = .whileWord) (hcondition : Derives (.expr 1 condition) cs)
    (hbody : Stands (.block body) ts) :
    Stands (.statement (.whileLoop condition body word.line)) (word :: (cs ++ ts))
  | forEach {source body : Node} {word item inWord : Token} {cs ts : List Token}
    (hword : word.kind = .forWord) (hitem : item.kind = .identifier)
    (hin : inWord.kind = .identifier ∧ inWord.text = "in") (hsource : Derives (.expr 1 source) cs)
    (hbody : Stands (.block body) ts) :
    Stands (.statement (.forEach item.text source body word.line))
      (word :: item :: inWord :: (cs ++ ts))
  | plain {node : Node} {ts : List Token} (h : Stands (.block node) ts) :
    Stands (.statement node) ts
  | conditional {node : Node} {ts : List Token} (h : Stands (.conditional node) ts) :
    Stands (.statement node) ts
  | branch {condition thenPart : Node} {word : Token} {cs ts : List Token}
    (hword : word.kind = .ifWord) (hcondition : Derives (.expr 1 condition) cs)
    (hthen : Stands (.block thenPart) ts) :
    Stands (.conditional (.branch condition thenPart none word.line)) (word :: (cs ++ ts))
  | branchElse {condition thenPart elsePart : Node} {word elseWord : Token}
    {cs ts us : List Token} (hword : word.kind = .ifWord)
    (hcondition : Derives (.expr 1 condition) cs) (hthen : Stands (.block thenPart) ts)
    (helseWord : elseWord.kind = .elseWord) (helse : Stands (.elsePart elsePart) us) :
    Stands (.conditional (.branch condition thenPart (some elsePart) word.line))
      (word :: (cs ++ (ts ++ elseWord :: us)))
  | elseBlock {node : Node} {ts : List Token} (h : Stands (.block node) ts) :
    Stands (.elsePart node) ts
  | elseIf {node : Node} {ts : List Token} (h : Stands (.conditional node) ts) :
    Stands (.elsePart node) ts
  | block {nodes : List Node} {opening closing : Token} {ts : List Token}
    (ho : opening.kind = .leftBrace) (h : Stands (.statements nodes) ts)
    (hc : closing.kind = .rightBrace) :
    Stands (.block (.block nodes opening.line)) (opening :: (ts ++ [closing]))
  | noStatements : Stands (.statements []) []
  | moreStatements {nodes : List Node} {node : Node} {ts us : List Token}
    (h : Stands (.statements nodes) ts) (hnext : Stands (.statement node) us)
    (hfollows : ∀ last ∈ nodes.getLast?, ∀ t ∈ us.head?, Follows t last) :
    Stands (.statements (nodes ++ [node])) (ts ++ us)

/-! ### What a passage begins with -/

theorem Derives.first_expr {level : Nat} {node : Node} {ts : List Token}
    (h : Derives (.expr level node) ts) : ∃ t rest, ts = t :: rest ∧ t.kind ∈ operandKinds := by
  generalize hphrase : Phrase.expr level node = phrase at h
  induction h generalizing level node with
  | @leaf level t node h =>
    refine ⟨t, [], rfl, ?_⟩
    unfold leaf? at h
    split at h
    case h_6 => cases h
    all_goals
      next hk => simp [operandKinds, hk]
  | template ho | group ho | array ho | object ho => exact ⟨_, _, rfl, by simp [ho, operandKinds]⟩
  | call hlevel hcallee ho hargs hc ihcallee =>
    obtain ⟨t, rest, rfl, hfirst⟩ := ihcallee rfl
    exact ⟨t, _, rfl, hfirst⟩
  | unary hlevel hsign =>
    exact ⟨_, _, rfl, by rcases hsign with hk | hk <;> simp [hk, operandKinds]⟩
  | binary hlevel hleft hsign hright ihleft =>
    obtain ⟨t, rest, rfl, hfirst⟩ := ihleft rfl
    exact ⟨t, _, rfl, hfirst⟩
  | noItems | lastItem | moreItems | noProperties | lastProperty | moreProperties => cases hphrase

/-- An error is part of nothing. -/
theorem Derives.ne_error {phrase : Phrase} {ts : List Token} (h : Derives phrase ts) :
    ∀ t ∈ ts, t.kind ≠ .error := by
  induction h with
  | leaf h =>
    intro t ht hk
    obtain rfl := List.mem_singleton.1 ht
    simp [leaf?, hk] at h
  | unary hlevel hsign h ih =>
    rcases hsign with hk | hk <;> simp_all
  | @binary level held left right sign ts us hlevel hleft hsign hright ihleft ihright =>
    have herror : sign.kind ≠ .error := by
      intro hk
      rw [hk] at hsign
      cases hsign
    simp_all [or_imp]
  | lastProperty hkey | moreProperties hkey =>
    rcases hkey with hk | hk <;> simp_all [or_imp]
  | _ => simp_all [or_imp]

theorem Parameters.ne_error {names : List String} {ts : List Token} (h : Parameters names ts) :
    ∀ t ∈ ts, t.kind ≠ .error := by
  induction h <;> simp_all

theorem Stands.ne_error {passage : Passage} {ts : List Token} (h : Stands passage ts) :
    ∀ t ∈ ts, t.kind ≠ .error := by
  induction h with
  | expression h hfirst => exact h.ne_error
  | binding hword hname hsign h =>
    have herror := h.ne_error
    simp_all
  | returning hword h =>
    have herror := h.ne_error
    simp_all
  | function hword hname ho hparams hc hbody ih =>
    have herror := hparams.ne_error
    simp_all [or_imp]
  | whileLoop hword h hbody ih | forEach hword hitem hin h hbody ih | branch hword h hthen ih
  | branchElse hword h hthen helseWord helse ih ihelse =>
    have herror := h.ne_error
    simp_all [or_imp]
  | _ => simp_all [or_imp]

/-- Behind an expression that is a statement, nothing comes that would continue it. -/
theorem Derives.follows_iff {level : Nat} {node : Node} {ts : List Token}
    (h : Derives (.expr level node) ts) (t : Token) :
    Follows t node ↔ t.kind ≠ .leftParen ∧ level? t.kind = none := by
  generalize hphrase : Phrase.expr level node = phrase at h
  induction h generalizing level node with
  | @leaf level' t' node' h =>
    obtain ⟨rfl, rfl⟩ := Phrase.expr.inj hphrase
    unfold leaf? at h
    split at h
    case h_3 =>
      obtain ⟨n, -, rfl⟩ := Option.map_eq_some_iff.1 h
      rfl
    all_goals
      cases h
    all_goals rfl
  | group ho h hc ih =>
    obtain ⟨rfl, rfl⟩ := Phrase.expr.inj hphrase
    exact ih rfl
  | template | array | object | call | unary | binary =>
    obtain ⟨rfl, rfl⟩ := Phrase.expr.inj hphrase
    rfl
  | noItems | lastItem | moreItems | noProperties | lastProperty | moreProperties => cases hphrase

/-- The end of a block or of the input may come behind every statement. -/
theorem follows_of_end {t : Token} (h : t.kind = .rightBrace ∨ t.kind = .endOfInput)
    (node : Node) : Follows t node := by
  have hopen : t.kind ≠ .leftParen ∧ level? t.kind = none := by
    rcases h with h | h <;> simp [h, level?]
  cases node with
  | branch => rcases h with h | h <;> simp [Follows, h]
  | function | forEach | whileLoop | block => trivial
  | returning value line =>
    cases value with
    | none => exact h
    | some value => exact hopen
  | _ => exact hopen

/-! ### Expressions in statements -/

/-- An expression is read for its purpose, up to the first token that does not continue it. -/
theorem Derives.reads_for {node : Node} {ts : List Token} (h : Derives (.expr 1 node) ts)
    (s : State) (purpose : Purpose) :
    ∃ s', steps { s with phase := .operand ⟨[], purpose⟩ } ts = some s' ∧
      ∀ t : Token, t.kind ≠ .leftParen → level? t.kind = none →
        step s' t = purposeMove s node t purpose := by
  obtain ⟨operand, pending, hsteps, hr, -⟩ := h.reads s ⟨[], purpose⟩ trivial
  refine ⟨_, hsteps, fun t hk hlevel => ?_⟩
  rw [step_close hk hlevel (hr 0 (by omega))]
  cases purpose <;> rfl

theorem statementMove_operand {t : Token} (h : t.kind ∈ operandKinds) (hbrace : t.kind ≠ .leftBrace)
    (s : State) : statementMove s t = operandMove s ⟨[], .statement⟩ t := by
  simp only [operandKinds, List.mem_cons, List.not_mem_nil, or_false] at h
  unfold statementMove
  split <;> simp_all

theorem returnValue_operand {t : Token} (h : t.kind ∈ operandKinds) (s : State) (line : Int) :
    step { s with phase := .returnValue line } t =
      step { s with phase := .operand ⟨[], .returnValue line⟩ } t := by
  have hend : ¬ (t.kind = .rightBrace ∨ t.kind = .endOfInput) := by
    intro hend
    rcases hend with hk | hk <;> simp [operandKinds, hk] at h
  simp only [step, if_neg hend]
  rfl

/-! ### The reader follows the grammar -/

/-- What a passage does to the reader, given where it begins: behind it, a token that may follow is
taken as the first of a new statement. An `if` may itself stand behind an `else`, and belongs to the
chain before it then; a block begins wherever a `{` opens it. -/
def Passage.Reads (ts : List Token) : Passage → Prop
  | .statement node => ∀ s : State, ∃ s', steps { s with phase := .statement } ts = some s' ∧
    ∀ t, Follows t node → step s' t = statementMove (s.finish node) t
  | .conditional node => ∀ (s s₀ : State) (chain : List OpenIf),
    (∀ t : Token, t.kind = .ifWord → step s₀ t =
      .next { s with phase := .operand ⟨[], .ifCondition chain t.line⟩ }) →
    ∃ s', steps s₀ ts = some s' ∧
      ∀ t : Token, t.kind ≠ .elseWord → step s' t = statementMove (s.finish (closeIfs node chain)) t
  | .elsePart node => ∀ (s : State) (opened : OpenIf) (chain : List OpenIf),
    ∃ s', steps { s with phase := .afterElse (opened :: chain) } ts = some s' ∧
      ∀ t : Token, t.kind ≠ .elseWord →
        step s' t = statementMove (s.finish (closeIfs node (opened :: chain))) t
  | .block node => ∀ (s s₀ : State) (use : BlockUse),
    (∀ t : Token, t.kind = .leftBrace → step s₀ t = s.enter use t.line) →
    steps s₀ ts = some (State.finishBlock { s with phase := .statement } node use)
  | .statements nodes => ∀ s : State, ∃ s', steps { s with phase := .statement } ts = some s' ∧
    ∀ t, (∀ last ∈ nodes.getLast?, Follows t last) →
      step s' t = statementMove ⟨nodes.reverse ++ s.before, s.blocks, .statement⟩ t

/-- A block behind an expression that is read for it. -/
theorem Derives.steps_block {node block : Node} {ts us : List Token}
    (h : Derives (.expr 1 node) ts) (hblock : (Passage.block block).Reads us) (s : State)
    {purpose : Purpose} {use : BlockUse}
    (hpurpose : ∀ t : Token, purposeMove s node t purpose = blockMove s use t) :
    steps { s with phase := .operand ⟨[], purpose⟩ } (ts ++ us) =
      some (State.finishBlock { s with phase := .statement } block use) := by
  obtain ⟨s', hsteps, hstep⟩ := h.reads_for s purpose
  rw [steps_append hsteps]
  refine hblock s s' use fun t hk => ?_
  rw [hstep t (by simp [hk]) (by simp [hk, level?]), hpurpose, blockMove, if_pos hk]

theorem Stands.first_statement {node : Node} {ts : List Token} (h : Stands (.statement node) ts) :
    ∃ t rest, ts = t :: rest := by
  cases h with
  | expression h =>
    obtain ⟨t, rest, rfl, -⟩ := h.first_expr
    exact ⟨t, rest, rfl⟩
  | plain h => cases h; exact ⟨_, _, rfl⟩
  | conditional h => cases h <;> exact ⟨_, _, rfl⟩
  | _ => exact ⟨_, _, rfl⟩

theorem Parameters.steps_append {params : List String} {ts : List Token} (h : Parameters params ts)
    (hne : params ≠ []) (s : State) (name : String) (before : List String) (line : Int) :
    ∃ read, read.reverse = before.reverse ++ params ∧
      steps { s with phase := .parameter name before line } ts =
        some { s with phase := .afterParameter name read line } := by
  induction h generalizing before with
  | none => exact absurd rfl hne
  | @last t h => exact ⟨t.text :: before, by simp, by simp [steps, step, nameMove, State.goto, h]⟩
  | @more t comma next names ts h hcomma hmore ih =>
    obtain ⟨read, hread, hsteps⟩ := ih (by simp) (t.text :: before)
    refine ⟨read, by simpa using hread, ?_⟩
    have hname : step { s with phase := .parameter name before line } t =
        .next { s with phase := .afterParameter name (t.text :: before) line } := by
      simp [step, nameMove, State.goto, h]
    have hnext : step { s with phase := .afterParameter name (t.text :: before) line } comma =
        .next { s with phase := .parameter name (t.text :: before) line } := by
      simp [step, State.goto, hcomma]
    rw [steps_cons hname, steps_cons hnext, hsteps]

/-- From the `(` of a function to its `)`. -/
theorem Parameters.steps {params : List String} {ts : List Token} (h : Parameters params ts)
    {closing : Token} (hc : closing.kind = .rightParen) (s : State) (name : String) (line : Int) :
    steps { s with phase := .parameterOrEnd name line } (ts ++ [closing]) =
      some { s with phase := .openBlock (.functionBody name params line) } := by
  by_cases hne : params = []
  · subst hne
    cases h
    simp [Reader.steps, step, State.goto, hc]
  · obtain ⟨read, hread, hsteps⟩ := h.steps_append hne s name [] line
    have hfirst : Reader.steps { s with phase := .parameterOrEnd name line } ts =
        Reader.steps { s with phase := .parameter name [] line } ts := by
      cases h with
      | none => exact absurd rfl hne
      | last h | more h => simp [Reader.steps, step, nameMove, State.goto, h]
    rw [Reader.steps_append (hfirst.trans hsteps)]
    simp only [List.reverse_nil, List.nil_append] at hread
    simp [Reader.steps, step, signMove, State.goto, hc, hread]

/-! #### The forms of statements

Each form goes through the states that its own words lead to, and hands over to its parts. -/

namespace Passage

theorem reads_expression {node : Node} {ts : List Token} (h : Derives (.expr 1 node) ts)
    (hfirst : ∀ t ∈ ts.head?, t.kind ≠ .leftBrace) : (statement node).Reads ts := by
  intro s
  obtain ⟨s', hsteps, hstep⟩ := h.reads_for s .statement
  obtain ⟨t, rest, rfl, ht⟩ := h.first_expr
  refine ⟨s', ?_, fun t' ht' => ?_⟩
  · rw [← hsteps, steps, steps]
    congr 1
    exact statementMove_operand ht (hfirst t rfl) _
  · obtain ⟨hk, hlevel⟩ := (h.follows_iff t').1 ht'
    exact hstep t' hk hlevel

theorem reads_binding {value : Node} {word name sign : Token} {ts : List Token}
    (hword : word.kind = .letWord) (hname : name.kind = .identifier) (hsign : sign.kind = .assign)
    (h : Derives (.expr 1 value) ts) :
    (statement (.binding name.text value word.line)).Reads (word :: name :: sign :: ts) := by
  intro s
  obtain ⟨s', hsteps, hstep⟩ := h.reads_for s (.bindingValue name.text word.line)
  refine ⟨s', ?_, fun t ht => hstep t ht.1 ht.2⟩
  have hwordStep : step { s with phase := .statement } word =
      .next { s with phase := .bindingName word.line } := by
    simp [step, statementMove, hword, State.goto]
  have hnameStep : step { s with phase := .bindingName word.line } name =
      .next { s with phase := .bindingSign name.text word.line } := by
    simp [step, nameMove, hname, State.goto]
  have hsignStep : step { s with phase := .bindingSign name.text word.line } sign =
      .next { s with phase := .operand ⟨[], .bindingValue name.text word.line⟩ } := by
    simp [step, signMove, hsign, State.read, State.goto]
  rw [steps_cons hwordStep, steps_cons hnameStep, steps_cons hsignStep, hsteps]

theorem reads_returning {value : Node} {word : Token} {ts : List Token}
    (hword : word.kind = .returnWord) (h : Derives (.expr 1 value) ts) :
    (statement (.returning (some value) word.line)).Reads (word :: ts) := by
  intro s
  obtain ⟨s', hsteps, hstep⟩ := h.reads_for s (.returnValue word.line)
  obtain ⟨t, rest, rfl, ht⟩ := h.first_expr
  refine ⟨s', ?_, fun t ht => hstep t ht.1 ht.2⟩
  have hwordStep : step { s with phase := .statement } word =
      .next { s with phase := .returnValue word.line } := by
    simp [step, statementMove, hword, State.goto]
  rw [steps_cons hwordStep, ← hsteps, steps, steps, returnValue_operand ht]

theorem reads_function {params : List String} {body : Node} {word name opening closing : Token}
    {ps ts : List Token} (hword : word.kind = .fnWord) (hname : name.kind = .identifier)
    (ho : opening.kind = .leftParen) (hparams : Parameters params ps)
    (hc : closing.kind = .rightParen) (hbody : (block body).Reads ts) :
    (statement (.function name.text params body word.line)).Reads
      (word :: name :: opening :: (ps ++ closing :: ts)) := by
  intro s
  have hwordStep : step { s with phase := .statement } word =
      .next { s with phase := .functionName word.line } := by
    simp [step, statementMove, hword, State.goto]
  have hnameStep : step { s with phase := .functionName word.line } name =
      .next { s with phase := .openParameters name.text word.line } := by
    simp [step, nameMove, hname, State.goto]
  have hopening : step { s with phase := .openParameters name.text word.line } opening =
      .next { s with phase := .parameterOrEnd name.text word.line } := by
    simp [step, signMove, ho, State.goto]
  have hblock := hbody s { s with phase := .openBlock (.functionBody name.text params word.line) }
    (.functionBody name.text params word.line)
    (fun t hk => by simp [step, blockMove, hk, State.enter])
  refine ⟨s.finish (.function name.text params body word.line), ?_, fun t _ => rfl⟩
  rw [steps_cons hwordStep, steps_cons hnameStep, steps_cons hopening, List.append_cons,
    Reader.steps_append (hparams.steps hc s name.text word.line), hblock]
  rfl

theorem reads_whileLoop {condition body : Node} {word : Token} {cs ts : List Token}
    (hword : word.kind = .whileWord) (hcondition : Derives (.expr 1 condition) cs)
    (hbody : (block body).Reads ts) :
    (statement (.whileLoop condition body word.line)).Reads (word :: (cs ++ ts)) := by
  intro s
  have hwordStep : step { s with phase := .statement } word =
      .next { s with phase := .operand ⟨[], .whileCondition word.line⟩ } := by
    simp [step, statementMove, hword, State.read, State.goto]
  refine ⟨s.finish (.whileLoop condition body word.line), ?_, fun t _ => rfl⟩
  rw [steps_cons hwordStep, hcondition.steps_block hbody s fun t => rfl]
  rfl

theorem reads_forEach {source body : Node} {word item inWord : Token} {cs ts : List Token}
    (hword : word.kind = .forWord) (hitem : item.kind = .identifier)
    (hin : inWord.kind = .identifier ∧ inWord.text = "in") (hsource : Derives (.expr 1 source) cs)
    (hbody : (block body).Reads ts) :
    (statement (.forEach item.text source body word.line)).Reads
      (word :: item :: inWord :: (cs ++ ts)) := by
  intro s
  have hwordStep : step { s with phase := .statement } word =
      .next { s with phase := .loopVariable word.line } := by
    simp [step, statementMove, hword, State.goto]
  have hitemStep : step { s with phase := .loopVariable word.line } item =
      .next { s with phase := .inWord item.text word.line } := by
    simp [step, nameMove, hitem, State.goto]
  have hinStep : step { s with phase := .inWord item.text word.line } inWord =
      .next { s with phase := .operand ⟨[], .forSource item.text word.line⟩ } := by
    simp [step, hin, State.read, State.goto]
  refine ⟨s.finish (.forEach item.text source body word.line), ?_, fun t _ => rfl⟩
  rw [steps_cons hwordStep, steps_cons hitemStep, steps_cons hinStep,
    hsource.steps_block hbody s fun t => rfl]
  rfl

/-! #### Branches -/

section
variable {condition thenPart : Node} {word : Token} {cs ts : List Token}

/-- From the condition of an `if` to the end of its first block. -/
theorem steps_then (hcondition : Derives (.expr 1 condition) cs)
    (hthen : (block thenPart).Reads ts) (s : State) (chain : List OpenIf) (line : Int) :
    steps { s with phase := .operand ⟨[], .ifCondition chain line⟩ } (cs ++ ts) =
      some { s with phase := .afterThen chain condition thenPart line } := by
  have hpurpose (t : Token) : purposeMove s condition t (.ifCondition chain line) =
      blockMove s (.thenPart chain condition line) t := rfl
  exact hcondition.steps_block hthen s hpurpose

theorem reads_branch (hword : word.kind = .ifWord) (hcondition : Derives (.expr 1 condition) cs)
    (hthen : (block thenPart).Reads ts) :
    (conditional (.branch condition thenPart none word.line)).Reads (word :: (cs ++ ts)) := by
  intro s s₀ chain hstart
  refine ⟨{ s with phase := .afterThen chain condition thenPart word.line }, ?_, fun t ht => ?_⟩
  · rw [steps_cons (hstart word hword)]
    exact steps_then hcondition hthen s chain word.line
  · exact if_neg ht

theorem reads_branchElse {elsePart : Node} {elseWord : Token} {us : List Token}
    (hword : word.kind = .ifWord) (hcondition : Derives (.expr 1 condition) cs)
    (hthen : (block thenPart).Reads ts) (helseWord : elseWord.kind = .elseWord)
    (helse : (Passage.elsePart elsePart).Reads us) :
    (conditional (.branch condition thenPart (some elsePart) word.line)).Reads
      (word :: (cs ++ (ts ++ elseWord :: us))) := by
  intro s s₀ chain hstart
  obtain ⟨s', hsteps, hstep⟩ := helse s ⟨condition, thenPart, word.line⟩ chain
  refine ⟨s', ?_, hstep⟩
  have helseStep : step { s with phase := .afterThen chain condition thenPart word.line }
      elseWord = .next { s with
        phase := .afterElse (⟨condition, thenPart, word.line⟩ :: chain) } := by
    simp [step, helseWord, State.goto]
  rw [steps_cons (hstart word hword), ← List.append_assoc,
    Reader.steps_append (steps_then hcondition hthen s chain word.line)]
  exact (steps_cons helseStep us).trans hsteps

end

/-! #### Blocks and their statements -/

theorem reads_block {nodes : List Node} {opening closing : Token} {ts : List Token}
    (ho : opening.kind = .leftBrace) (h : (statements nodes).Reads ts)
    (hc : closing.kind = .rightBrace) :
    (block (.block nodes opening.line)).Reads (opening :: (ts ++ [closing])) := by
  intro s s₀ use hstart
  obtain ⟨s', hsteps, hstep⟩ := h ⟨[], ⟨s.before, opening.line, use⟩ :: s.blocks, .statement⟩
  have hend : step s' closing = .next (State.finishBlock { s with phase := .statement }
      (.block nodes opening.line) use) := by
    rw [hstep closing fun last _ => follows_of_end (.inl hc) last]
    simp [statementMove, hc]
  rw [steps_cons (hstart opening ho), Reader.steps_append hsteps, steps_cons hend]
  rfl

theorem reads_moreStatements {nodes : List Node} {node : Node} {ts us : List Token}
    (h : (statements nodes).Reads ts) (hstands : Stands (.statement node) us)
    (hnext : (statement node).Reads us)
    (hfollows : ∀ last ∈ nodes.getLast?, ∀ t ∈ us.head?, Follows t last) :
    (statements (nodes ++ [node])).Reads (ts ++ us) := by
  intro s
  obtain ⟨s₁, hsteps, hstep⟩ := h s
  obtain ⟨s', hsteps', hstep'⟩ := hnext ⟨nodes.reverse ++ s.before, s.blocks, .statement⟩
  refine ⟨s', ?_, fun t ht => ?_⟩
  · obtain ⟨t, rest, rfl⟩ := hstands.first_statement
    -- The first token of the statement does not continue the one before it.
    have hfirst := hstep t fun last hlast => hfollows last hlast t rfl
    rw [Reader.steps_append hsteps, ← hsteps', Reader.steps, Reader.steps, hfirst]
    rfl
  · rw [hstep' t (ht node (by simp))]
    simp [State.finish]

end Passage

/-- **The reader follows the grammar of statements.** -/
theorem Stands.reads {passage : Passage} {ts : List Token} (h : Stands passage ts) :
    passage.Reads ts := by
  induction h with
  | expression h hfirst => exact Passage.reads_expression h hfirst
  | binding hword hname hsign h => exact Passage.reads_binding hword hname hsign h
  | returning hword h => exact Passage.reads_returning hword h
  | @returningNothing word hword =>
    intro s
    refine ⟨{ s with phase := .returnValue word.line }, ?_, fun t ht => ?_⟩
    · simp [steps, step, statementMove, hword, State.goto]
    · exact if_pos ht
  | function hword hname ho hparams hc hbody ih =>
    exact Passage.reads_function hword hname ho hparams hc ih
  | whileLoop hword hcondition hbody ih => exact Passage.reads_whileLoop hword hcondition ih
  | forEach hword hitem hin hsource hbody ih =>
    exact Passage.reads_forEach hword hitem hin hsource ih
  | @plain node ts h ih =>
    intro s
    have hsteps := ih s { s with phase := .statement } .plain
      (fun t hk => by simp [step, statementMove, hk, State.enter])
    exact ⟨_, hsteps, fun t _ => rfl⟩
  | @conditional node ts h ih =>
    intro s
    obtain ⟨s', hsteps, hstep⟩ := ih s { s with phase := .statement } []
      (fun t hk => by simp [step, statementMove, hk, State.read, State.goto])
    refine ⟨s', hsteps, fun t ht => hstep t ?_⟩
    cases h <;> exact ht
  | branch hword hcondition hthen ih => exact Passage.reads_branch hword hcondition ih
  | branchElse hword hcondition hthen helseWord helse ih ihelse =>
    exact Passage.reads_branchElse hword hcondition ih helseWord ihelse
  | @elseBlock node ts h ih =>
    intro s opened chain
    have hsteps := ih s { s with phase := .afterElse (opened :: chain) }
      (.elsePart (opened :: chain)) (fun t hk => by simp [step, blockMove, hk, State.enter])
    exact ⟨_, hsteps, fun t _ => rfl⟩
  | @elseIf node ts h ih =>
    intro s opened chain
    exact ih s { s with phase := .afterElse (opened :: chain) } (opened :: chain)
      (fun t hk => by simp [step, hk, State.read, State.goto])
  | block ho h hc ih => exact Passage.reads_block ho ih hc
  | noStatements => exact fun s => ⟨_, rfl, fun t _ => rfl⟩
  | moreStatements h hnext hfollows ih ihnext =>
    exact Passage.reads_moreStatements ih hnext ihnext hfollows

/-- The tokens of a program, and the end of the input behind them, are read as that program. -/
theorem Stands.steps_program {nodes : List Node} {ts : List Token}
    (h : Stands (.statements nodes) ts) :
    ∃ s', steps start ts = some s' ∧
      ∀ last : Token, last.kind = .endOfInput → ∀ limit,
        run limit s' [last] = .program ⟨nodes⟩ := by
  obtain ⟨s', hsteps, hstep⟩ := h.reads start
  refine ⟨s', hsteps, fun last hlast limit => ?_⟩
  rw [run, hstep last fun node _ => follows_of_end (.inr hlast) node]
  simp [statementMove, hlast, start]

end PageScript.Reader
