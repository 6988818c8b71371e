import PageScript.Proofs.Lexing.Joining
import PageScript.Proofs.Lexing.Rendering
import PageScript.Proofs.Syntax.Lines
import PageScript.Proofs.Syntax.Symbols

/-!
Lines decide nothing about what is read. Tokens that differ in their places only are read as
programs that differ in their lines only, or not at all and for the same reason; and whatever
statements were read before, those that follow are read as they are by themselves.
-/
namespace PageScript

/-- The token without its place. -/
def Token.unlined (t : Token) : Token := { t with line := 0, column := 0 }

namespace Reader

/-! ### States without lines -/

def OpenIf.unlined (opened : OpenIf) : OpenIf :=
  ⟨opened.condition.unlined, opened.thenPart.unlined, 0⟩

def BlockUse.unlined : BlockUse → BlockUse
  | plain => plain
  | functionBody name params _ => functionBody name params 0
  | whileBody condition _ => whileBody condition.unlined 0
  | forBody item source _ => forBody item source.unlined 0
  | thenPart chain condition _ => thenPart (chain.map OpenIf.unlined) condition.unlined 0
  | elsePart chain => elsePart (chain.map OpenIf.unlined)

def Purpose.unlined : Purpose → Purpose
  | statement => statement
  | bindingValue name _ => bindingValue name 0
  | returnValue _ => returnValue 0
  | ifCondition chain _ => ifCondition (chain.map OpenIf.unlined) 0
  | whileCondition _ => whileCondition 0
  | forSource item _ => forSource item 0

def Pending.unlined : Pending → Pending
  | unary operator _ => unary operator 0
  | binary level operator left _ => binary level operator left.unlined 0
  | group => group
  | arguments callee before _ => arguments callee.unlined (Node.unlinedAll before) 0
  | elements before _ => elements (Node.unlinedAll before) 0
  | property before key _ => property (Node.unlinedProperties before) key 0

def Context.unlined (context : Context) : Context :=
  ⟨context.pending.map Pending.unlined, context.purpose.unlined⟩

def Phase.unlined : Phase → Phase
  | statement => statement
  | operand context => operand context.unlined
  | afterOperand node context => afterOperand node.unlined context.unlined
  | argumentOrEnd callee _ context => argumentOrEnd callee.unlined 0 context.unlined
  | elementOrEnd _ context => elementOrEnd 0 context.unlined
  | keyOrEnd _ context => keyOrEnd 0 context.unlined
  | key before _ context => key (Node.unlinedProperties before) 0 context.unlined
  | propertyColon before name _ context =>
    propertyColon (Node.unlinedProperties before) name 0 context.unlined
  | templateName _ context => templateName 0 context.unlined
  | templateEnd name _ context => templateEnd name 0 context.unlined
  | bindingName _ => bindingName 0
  | bindingSign name _ => bindingSign name 0
  | functionName _ => functionName 0
  | openParameters name _ => openParameters name 0
  | parameterOrEnd name _ => parameterOrEnd name 0
  | parameter name before _ => parameter name before 0
  | afterParameter name before _ => afterParameter name before 0
  | loopVariable _ => loopVariable 0
  | inWord item _ => inWord item 0
  | openBlock use => openBlock use.unlined
  | afterThen chain condition thenPart _ =>
    afterThen (chain.map OpenIf.unlined) condition.unlined thenPart.unlined 0
  | afterElse chain => afterElse (chain.map OpenIf.unlined)
  | returnValue _ => returnValue 0

section Behind

/-! ### Behind other statements -/

-- The statements before all that is read, without lines and latest first.
variable (front : List Node)

/-- A list of statements inside blocks, latest first: at the top level it goes on the one in
front. -/
def listBehind : List OpenBlock → List Node → List Node
  | [], before => Node.unlinedAll before ++ front
  | _ :: _, before => Node.unlinedAll before

def blocksBehind : List OpenBlock → List OpenBlock
  | [] => []
  | block :: outer =>
    ⟨listBehind front outer block.before, 0, block.use.unlined⟩ :: blocksBehind outer

/-- The state without lines, as it is when other statements were read before. -/
def State.behind (s : State) : State :=
  ⟨listBehind front s.blocks s.before, blocksBehind front s.blocks, s.phase.unlined⟩

def Move.behind : Move → Move
  | next s => next (s.behind front)
  | done program => done ⟨front.reverse ++ program.unlined.body⟩
  | fail fault => fail fault

/-- The outcome without lines when other statements were read before. -/
def Outcome.behind : Outcome → Outcome
  | program p => program ⟨front.reverse ++ p.unlined.body⟩
  | error e => error ⟨e.fault, 0, 0⟩
  | unended => unended

/-! ### Moves -/

theorem State.behind_goto (s : State) (phase : Phase) :
    (s.goto phase).behind front = (s.behind front).goto phase.unlined := rfl

theorem State.behind_finish (s : State) (statement : Node) :
    (s.finish statement).behind front = (s.behind front).finish statement.unlined := by
  obtain ⟨before, blocks, phase⟩ := s
  cases blocks <;> rfl

theorem closeIfs_unlined (elsePart : Node) (chain : List OpenIf) :
    (closeIfs elsePart chain).unlined = closeIfs elsePart.unlined (chain.map OpenIf.unlined) := by
  induction chain generalizing elsePart with
  | nil => rfl
  | cons inner outer ih => exact ih _

theorem State.behind_finishBlock (s : State) (block : Node) (use : BlockUse) :
    (s.finishBlock block use).behind front =
      (s.behind front).finishBlock block.unlined use.unlined := by
  cases use with
  | thenPart => rfl
  | elsePart chain =>
    simp only [State.finishBlock, State.behind_finish, closeIfs_unlined, BlockUse.unlined]
  | _ => exact State.behind_finish front s _

theorem reduce_unlined (level : Nat) (operand : Node) (pending : List Pending) :
    reduce level operand.unlined (pending.map Pending.unlined) =
      ((reduce level operand pending).1.unlined,
        (reduce level operand pending).2.map Pending.unlined) := by
  fun_induction reduce level operand pending with
  | case1 operand operator line rest ih => exact ih
  | case2 operand held operator left line rest h ih =>
    rw [← ih]
    simp only [List.map_cons, Pending.unlined, reduce, if_pos h, Node.unlined]
  | case3 operand held operator left line rest h =>
    simp only [List.map_cons, Pending.unlined, reduce, if_neg h]
  | case4 operand pending hunary hbinary =>
    cases pending with
    | nil => rfl
    | cons first rest =>
      cases first with
      | unary operator line => exact absurd rfl (hunary _ _ _)
      | binary held operator left line => exact absurd rfl (hbinary _ _ _ _ _)
      | _ => rfl

theorem operandMove_behind (s : State) (context : Context) (t : Token) :
    operandMove (s.behind front) context.unlined t.unlined =
      (operandMove s context t).behind front := by
  obtain ⟨kind, text, line, column⟩ := t
  cases kind with
  | number =>
    simp only [operandMove, Token.unlined]
    cases numberValue? text <;> rfl
  | _ => rfl

theorem statementMove_behind (s : State) (t : Token) :
    statementMove (s.behind front) t.unlined = (statementMove s t).behind front := by
  obtain ⟨before, blocks, phase⟩ := s
  have hoperand := operandMove_behind front ⟨before, blocks, phase⟩ ⟨[], .statement⟩ t
  obtain ⟨kind, text, line, column⟩ := t
  cases kind with
  | endOfInput =>
    cases blocks with
    | nil =>
      simp [statementMove, State.behind, listBehind, blocksBehind, Token.unlined, Move.behind,
        Program.unlined]
    | cons block outer => rfl
  | rightBrace =>
    cases blocks with
    | nil => rfl
    | cons block outer =>
      simp only [statementMove, Token.unlined, Move.behind, State.behind_finishBlock, Node.unlined,
        Node.unlinedAll_reverse]
      rfl
  | letWord | fnWord | ifWord | forWord | whileWord | returnWord | leftBrace => rfl
  | _ => exact hoperand

theorem Move.ite_behind {p : Prop} [Decidable p] {yes no yes' no' : Move}
    (hyes : yes' = yes.behind front) (hno : no' = no.behind front) :
    (if p then yes' else no') = (if p then yes else no).behind front := by
  split
  · exact hyes
  · exact hno

theorem blockMove_behind (s : State) (use : BlockUse) (t : Token) :
    blockMove (s.behind front) use.unlined t.unlined = (blockMove s use t).behind front :=
  Move.ite_behind front rfl rfl

theorem purposeMove_behind (s : State) (value : Node) (t : Token) (purpose : Purpose) :
    purposeMove (s.behind front) value.unlined t.unlined purpose.unlined =
      (purposeMove s value t purpose).behind front := by
  cases purpose with
  | statement | bindingValue | returnValue =>
    simp only [purposeMove, Purpose.unlined, ← statementMove_behind, State.behind_finish,
      Node.unlined, Node.unlinedOption]
  | ifCondition chain line => exact blockMove_behind front s (.thenPart chain value line) t
  | whileCondition line => exact blockMove_behind front s (.whileBody value line) t
  | forSource item line => exact blockMove_behind front s (.forBody item value line) t

theorem closeMove_behind (s : State) (value : Node) (context : Context) (t : Token) :
    closeMove (s.behind front) value.unlined context.unlined t.unlined =
      (closeMove s value context t).behind front := by
  have hpurpose := purposeMove_behind front s value t context.purpose
  obtain ⟨pending, purpose⟩ := context
  cases pending with
  | nil => exact hpurpose
  | cons first outer =>
    cases first with
    | unary | binary => exact hpurpose
    | group => exact Move.ite_behind front rfl rfl
    | arguments callee before line =>
      refine Move.ite_behind front rfl (Move.ite_behind front ?_ rfl)
      simp only [State.behind_goto, Phase.unlined, Node.unlined, Node.unlinedAll_reverse]
      rfl
    | elements before line =>
      refine Move.ite_behind front rfl (Move.ite_behind front ?_ rfl)
      simp only [State.behind_goto, Phase.unlined, Node.unlined, Node.unlinedAll_reverse]
      rfl
    | property before key line =>
      refine Move.ite_behind front rfl (Move.ite_behind front ?_ rfl)
      simp only [State.behind_goto, Phase.unlined, Node.unlined, Node.unlinedProperties_reverse]
      rfl

theorem afterOperandMove_behind (s : State) (operand : Node) (context : Context) (t : Token) :
    afterOperandMove (s.behind front) operand.unlined context.unlined t.unlined =
      (afterOperandMove s operand context t).behind front := by
  by_cases hopen : t.kind = .leftParen
  · simp only [afterOperandMove, Token.unlined, hopen, if_true]
    rfl
  · cases hlevel : level? t.kind with
    | some level =>
      simp only [afterOperandMove, Token.unlined, hopen, if_false, hlevel, Context.unlined,
        reduce_unlined]
      rfl
    | none =>
      simp only [afterOperandMove, Token.unlined, hopen, if_false, hlevel, Context.unlined,
        reduce_unlined, ← closeMove_behind]

/-- **A token leads the same way** wherever it stands and whatever was read before. -/
theorem step_behind (s : State) (t : Token) :
    step (s.behind front) t.unlined = (step s t).behind front := by
  obtain ⟨before, blocks, phase⟩ := s
  cases phase with
  | statement => exact statementMove_behind front _ t
  | operand context => exact operandMove_behind front _ context t
  | afterOperand operand context => exact afterOperandMove_behind front _ operand context t
  | argumentOrEnd callee line context =>
    refine Move.ite_behind front rfl ?_
    exact operandMove_behind front _ ⟨.arguments callee [] line :: context.pending, _⟩ t
  | elementOrEnd line context =>
    refine Move.ite_behind front rfl ?_
    exact operandMove_behind front _ ⟨.elements [] line :: context.pending, _⟩ t
  | keyOrEnd | parameterOrEnd | afterParameter =>
    exact Move.ite_behind front rfl (Move.ite_behind front rfl rfl)
  | key | propertyColon | templateName | templateEnd | bindingName | bindingSign | functionName
  | openParameters | parameter | loopVariable | inWord =>
    exact Move.ite_behind front rfl rfl
  | openBlock use => exact blockMove_behind front _ use t
  | afterThen chain condition thenPart line =>
    refine Move.ite_behind front rfl ?_
    rw [← statementMove_behind, State.behind_finish, closeIfs_unlined]
    rfl
  | afterElse chain =>
    exact Move.ite_behind front rfl (blockMove_behind front _ (.elsePart chain) t)
  | returnValue line =>
    refine Move.ite_behind front ?_ (operandMove_behind front _ ⟨[], .returnValue line⟩ t)
    rw [← statementMove_behind, State.behind_finish]
    rfl

/-! ### Whole runs -/

theorem BlockUse.weight_unlined (use : BlockUse) : use.unlined.weight = use.weight := by
  cases use <;> simp [unlined, weight]

theorem Context.weight_unlined (context : Context) : context.unlined.weight = context.weight := by
  obtain ⟨pending, purpose⟩ := context
  have hpending : (pending.map Pending.unlined).foldr (fun pending n => pending.weight + n) 0 =
      pending.foldr (fun pending n => pending.weight + n) 0 := by
    rw [List.foldr_map]
    congr 1
    funext pending n
    cases pending <;> rfl
  simp only [unlined, weight, hpending]
  cases purpose <;> simp [Purpose.unlined]

theorem Phase.weight_unlined (phase : Phase) : phase.unlined.weight = phase.weight := by
  cases phase with
  | openBlock use => cases use <;> simp [unlined, BlockUse.unlined, weight]
  | _ => simp [unlined, weight, Context.weight_unlined]

theorem State.weight_behind (s : State) : (s.behind front).weight = s.weight := by
  have hblocks (blocks : List OpenBlock) :
      (blocksBehind front blocks).foldr (fun block n => block.use.weight + n) 0 =
        blocks.foldr (fun block n => block.use.weight + n) 0 := by
    induction blocks with
    | nil => rfl
    | cons block outer ih =>
      simp only [blocksBehind, List.foldr_cons, ih, BlockUse.weight_unlined]
  simp only [weight, behind, hblocks, Phase.weight_unlined]

theorem run_behind (limit : Nat) (s : State) (tokens : List Token) :
    run limit (s.behind front) (tokens.map Token.unlined) = (run limit s tokens).behind front := by
  induction tokens generalizing s with
  | nil => rfl
  | cons t rest ih =>
    rw [List.map_cons, run, run, step_behind]
    cases step s t with
    | done program => rfl
    | fail fault => rfl
    | next s' =>
      simp only [Move.behind, State.weight_behind, ih]
      split
      · rfl
      · rfl

end Behind

/-! ### One source after another -/

/-- A `return` without a value ends with its word. -/
theorem Stands.exists_returnWord {line : Int} {ts : List Token}
    (h : Stands (.statement (.returning none line)) ts) :
    ∃ word, ts = [word] ∧ word.kind = .returnWord := by
  cases h with
  | returningNothing hword => exact ⟨_, rfl, hword⟩
  | expression h =>
    -- A name would follow an expression, but it does not follow this.
    have hname := h.follows_iff ⟨.identifier, "", 0, 0⟩
    simp [Follows, level?] at hname
  | plain h => cases h
  | conditional h => cases h

theorem Stands.getLast?_of_returning {nodes : List Node} {ts : List Token} {line : Int}
    (h : Stands (.statements nodes) ts) (hlast : nodes.getLast? = some (.returning none line)) :
    ∃ word ∈ ts.getLast?, word.kind = .returnWord := by
  cases h with
  | noStatements => cases hlast
  | moreStatements h hnext hfollows =>
    rw [List.getLast?_concat, Option.some.injEq] at hlast
    subst hlast
    obtain ⟨word, rfl, hword⟩ := hnext.exists_returnWord
    exact ⟨word, by simp, hword⟩

/-- What begins a program may come behind any statement, unless it goes on an expression or is
taken for the value of a `return`. -/
theorem follows_of_begins {t : Token} (hbegins : ∀ fault, step start t ≠ .fail fault)
    (hk : t.kind ≠ .leftParen ∧ t.kind ≠ .minus) {last : Node}
    (hlast : ∀ line, last ≠ .returning none line) : Follows t last := by
  have hends : t.kind ≠ .elseWord ∧ level? t.kind = none := by
    obtain ⟨kind, text, line, column⟩ := t
    cases kind with
    | elseWord | orOp | andOp | equal | notEqual | less | greater | lessEqual | greaterEqual | plus
    | star | slash | percent => exact absurd rfl (hbegins (.unexpected text))
    | minus => exact absurd rfl hk.2
    | _ => simp [level?]
  cases last with
  | branch => exact hends.1
  | function | forEach | whileLoop | block => trivial
  | returning value line =>
    cases value with
    | none => exact absurd rfl (hlast line)
    | some value => exact ⟨hk.1, hends.2⟩
  | _ => exact ⟨hk.1, hends.2⟩

/-- The tokens of two programs, one behind the other, are read as both, up to lines. -/
theorem exists_run_append {limit : Nat} {p q : Program} {ts us us' : List Token} {eof : Token}
    (hstands : Stands (.statements p.body) ts) (hp : run limit start (ts ++ [eof]) = .program p)
    (hq : run limit start us = .program q) (hus : us'.map Token.unlined = us.map Token.unlined)
    (hfollows : ∀ t ∈ us'.head?, ∀ last ∈ p.body.getLast?, Follows t last) :
    ∃ whole, run limit start (ts ++ us') = .program whole ∧
      whole.unlined = Program.unlined ⟨p.body ++ q.body⟩ := by
  obtain ⟨s', hsteps, hstep⟩ := hstands.reads start
  -- Behind the first program the reader may still hold its last statement open; the next token
  -- closes it, so from there on it is as if the statement had been closed before.
  have hbehind : run limit s' us' = run limit ⟨p.body.reverse, [], .statement⟩ us' := by
    cases us' with
    | nil => rfl
    | cons t rest =>
      have hlast : step s' t = step ⟨p.body.reverse, [], .statement⟩ t := by
        rw [hstep t (hfollows t rfl), start, List.append_nil]
        rfl
      rw [run, run, hlast]
  have hboth : (run limit s' us').behind [] =
      .program (Program.unlined ⟨p.body ++ q.body⟩) :=
    calc (run limit s' us').behind []
      _ = run limit (State.behind [] ⟨p.body.reverse, [], .statement⟩) (us'.map Token.unlined) := by
        rw [hbehind, run_behind]
      _ = run limit (start.behind (Node.unlinedAll p.body).reverse) (us.map Token.unlined) := by
        rw [hus]
        simp [State.behind, listBehind, start, Node.unlinedAll]
        rfl
      _ = .program (Program.unlined ⟨p.body ++ q.body⟩) := by
        rw [run_behind, hq]
        simp [Outcome.behind, Program.unlined, Node.unlinedAll_eq_map]
  rw [run_append_of_program (s := start) hsteps hp us']
  cases hrun : run limit s' us' with
  | program whole =>
    rw [hrun] at hboth
    exact ⟨whole, rfl, by simpa [Outcome.behind] using hboth⟩
  | error | unended =>
    rw [hrun] at hboth
    cases hboth

end Reader

open Reader

/-- **Sources joined at a line end** are read as the one program and then the other, up to lines. -/
theorem Program.ofSource_append {a b : String} {p q : Program} (ha : ofSource a = .ok p)
    (hb : ofSource b = .ok q)
    (hlast : ∀ t ∈ (Token.ofSource a).dropLast.getLast?, t.kind ≠ .returnWord)
    (hfirst : ∀ t ∈ (Token.ofSource b).head?, t.kind ≠ .leftParen ∧ t.kind ≠ .minus) :
    ∃ whole, ofSource (a ++ "\n" ++ b) = .ok whole ∧
      whole.unlined = Program.unlined ⟨p.body ++ q.body⟩ := by
  obtain ⟨ts, eof, hts, heof, -, hstands⟩ := exists_stands ha
  have hrunA := run_of_ofSource ha
  have hrunB := run_of_ofSource hb
  -- A program holds no error token at all, so no string of the first source takes in the line end.
  have hclosed : ∀ t ∈ Token.ofSource a, ¬ Lexeme.Unterminated t.kind t.text := by
    rw [hts]
    intro t ht hopen
    rcases List.mem_append.1 ht with ht | ht
    · exact hstands.ne_error t ht hopen.1
    · obtain rfl := List.mem_singleton.1 ht
      rw [hopen.1] at heof
      cases heof
  rw [hts] at hrunA
  have hfollows : ∀ t ∈ ((Token.ofSource b).map (Token.below (1 + a.toList.count '\n'))).head?,
      ∀ last ∈ p.body.getLast?, Follows t last := by
    intro t' ht' last hmem
    rw [List.head?_map] at ht'
    obtain ⟨t, ht, rfl⟩ := Option.map_eq_some_iff.1 ht'
    obtain ⟨rest, hrest⟩ := List.head?_eq_some_iff.1 ht
    refine follows_of_begins (t := t) (fun fault hfail => ?_) (hfirst t ht) fun line hline => ?_
    · rw [hrest, run, hfail] at hrunB
      cases hrunB
    · subst hline
      obtain ⟨word, hword, hkind⟩ := hstands.getLast?_of_returning hmem
      rw [hts, List.dropLast_concat] at hlast
      exact hlast word hword hkind
  have hplaces : ((Token.ofSource b).map (Token.below (1 + a.toList.count '\n'))).map
      Token.unlined = (Token.ofSource b).map Token.unlined := by
    rw [List.map_map]
    rfl
  obtain ⟨whole, hrun, hwhole⟩ := exists_run_append hstands hrunA hrunB hplaces hfollows
  refine ⟨whole, ofSource_of_run ?_, hwhole⟩
  rw [Token.ofSource_newline hclosed, hts, List.dropLast_concat]
  exact hrun

/-! ### Sources of the same tokens -/

theorem Token.map_unlined (tokens : List Token) :
    tokens.map unlined = (tokens.map content).map fun c => ⟨c.1, c.2, 0, 0⟩ := by
  rw [List.map_map]
  rfl

/-- **Layout is not read.** Sources whose tokens differ in their places only are both programs, the
same up to lines, or they are both refused for the same reason. -/
theorem Program.ofSource_congr {a b : String}
    (h : (Token.ofSource a).map Token.content = (Token.ofSource b).map Token.content) :
    (∃ p q, ofSource a = .ok p ∧ ofSource b = .ok q ∧ p.unlined = q.unlined) ∨
      ∃ e e', ofSource a = .error e ∧ ofSource b = .error e' ∧ e.fault = e'.fault := by
  have hsame : (run nestingLimit start (Token.ofSource a)).behind [] =
      (run nestingLimit start (Token.ofSource b)).behind [] := by
    rw [← run_behind, ← run_behind, Token.map_unlined, Token.map_unlined, h]
  have hended (source : String) : run nestingLimit start (Token.ofSource source) ≠ .unended :=
    run_ne_unended _ _ _ (Token.exists_endOfInput source)
  cases ha : run nestingLimit start (Token.ofSource a) with
  | unended => exact absurd ha (hended a)
  | program p =>
    rw [ha] at hsame
    cases hb : run nestingLimit start (Token.ofSource b) with
    | unended => exact absurd hb (hended b)
    | error e =>
      rw [hb] at hsame
      cases hsame
    | program q =>
      rw [hb] at hsame
      exact .inl ⟨p, q, ofSource_of_run ha, ofSource_of_run hb, Outcome.program.inj hsame⟩
  | error e =>
    rw [ha] at hsame
    cases hb : run nestingLimit start (Token.ofSource b) with
    | unended => exact absurd hb (hended b)
    | program q =>
      rw [hb] at hsame
      cases hsame
    | error e' =>
      rw [hb] at hsame
      have hfault : (⟨e.fault, 0, 0⟩ : SyntaxError) = ⟨e'.fault, 0, 0⟩ := Outcome.error.inj hsame
      exact .inr ⟨e, e', ofSource_of_error ha, ofSource_of_error hb,
        (SyntaxError.mk.inj hfault).1⟩

end PageScript
