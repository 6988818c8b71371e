import PageScript.Node
import PageScript.SyntaxError
import PageScript.Token.Lexeme

/-!
Reading a program from tokens, in one pass. What is still open is kept as data: the statements
before the current one, the blocks around it, and the operators, brackets and purpose of the
expression being read. Each token either leads to the next state or is the first token that cannot
follow, and is then the place of the error. Nothing after the first end of input is looked at.
-/
namespace PageScript.Reader

/-- An `if` whose `else` part is being read: condition, first part and line. -/
structure OpenIf where
  condition : Node
  thenPart : Node
  line : Int

/-- The `if` statement that a chain of `else` parts ends up as, the innermost `if` first. -/
def closeIfs (elsePart : Node) : List OpenIf → Node
  | [] => elsePart
  | inner :: outer =>
    closeIfs (.branch inner.condition inner.thenPart (some elsePart) inner.line) outer

/-- What a block is part of. -/
inductive BlockUse where
  | plain
  | functionBody (name : String) (params : List String) (line : Int)
  | whileBody (condition : Node) (line : Int)
  | forBody (item : String) (source : Node) (line : Int)
  | thenPart (chain : List OpenIf) (condition : Node) (line : Int)
  | elsePart (chain : List OpenIf)

/-- A block being read: the statements before the one that it belongs to, latest first, its line
and its use. -/
structure OpenBlock where
  before : List Node
  line : Int
  use : BlockUse

/-- What an expression is read for. -/
inductive Purpose where
  | statement
  | bindingValue (name : String) (line : Int)
  | returnValue (line : Int)
  | ifCondition (chain : List OpenIf) (line : Int)
  | whileCondition (line : Int)
  | forSource (item : String) (line : Int)

/-- An operator that waits for its operand, or a bracket that waits for its end. Earlier items of a
list stand latest first. -/
inductive Pending where
  | unary (operator : String) (line : Int)
  | binary (level : Nat) (operator : String) (left : Node) (line : Int)
  | group
  | arguments (callee : Node) (before : List Node) (line : Int)
  | elements (before : List Node) (line : Int)
  | property (before : List (String × Node)) (key : String) (line : Int)

/-- The surroundings of a place inside an expression. -/
structure Context where
  pending : List Pending
  purpose : Purpose

/-- What may come next. -/
inductive Phase where
  | statement
  /-- An expression, or its rest after operators and brackets. -/
  | operand (context : Context)
  /-- What may follow a complete operand. -/
  | afterOperand (operand : Node) (context : Context)
  | argumentOrEnd (callee : Node) (line : Int) (context : Context)
  | elementOrEnd (line : Int) (context : Context)
  | keyOrEnd (line : Int) (context : Context)
  | key (before : List (String × Node)) (line : Int) (context : Context)
  | propertyColon (before : List (String × Node)) (key : String) (line : Int) (context : Context)
  | templateName (line : Int) (context : Context)
  | templateEnd (name : String) (line : Int) (context : Context)
  | bindingName (line : Int)
  | bindingSign (name : String) (line : Int)
  | functionName (line : Int)
  | openParameters (name : String) (line : Int)
  | parameterOrEnd (name : String) (line : Int)
  | parameter (name : String) (before : List String) (line : Int)
  | afterParameter (name : String) (before : List String) (line : Int)
  | loopVariable (line : Int)
  | inWord (item : String) (line : Int)
  | openBlock (use : BlockUse)
  /-- Whatever may follow the first part of an `if`, among it an `else`. -/
  | afterThen (chain : List OpenIf) (condition thenPart : Node) (line : Int)
  | afterElse (chain : List OpenIf)
  /-- The value of a `return`, if it has one. -/
  | returnValue (line : Int)

/-- The statements read in the innermost open block, latest first, the blocks around them, and what
may come next. -/
structure State where
  before : List Node
  blocks : List OpenBlock
  phase : Phase

/-- Where a token leads. -/
inductive Move where
  | next (state : State)
  | done (program : Program)
  | fail (fault : SyntaxFault)

/-! ### Operators -/

/-- How tightly a sign binds as an operator between two operands; `none` if it is no such sign. All
operators of one level group to the left. -/
def level? : TokenKind → Option Nat
  | .orOp => some 1
  | .andOp => some 2
  | .equal | .notEqual => some 3
  | .less | .greater | .lessEqual | .greaterEqual => some 4
  | .plus | .minus => some 5
  | .star | .slash | .percent => some 6
  | _ => none

/-- Applies the pending operators that bind at least as tightly as `level` to an operand. An
operator before its operand binds tighter than any between operands. -/
def reduce (level : Nat) (operand : Node) : List Pending → Node × List Pending
  | .unary operator line :: rest => reduce level (.unary operator operand line) rest
  | .binary held operator left line :: rest =>
    if level ≤ held then reduce level (.binary operator left operand line) rest
    else (operand, .binary held operator left line :: rest)
  | pending => (operand, pending)

/-! ### Statements -/

/-- Adds a finished statement. -/
def State.finish (s : State) (statement : Node) : State :=
  { s with before := statement :: s.before, phase := .statement }

/-- Goes on in a given phase. -/
def State.goto (s : State) (phase : Phase) : Move := .next { s with phase }

/-- Begins to read an expression for a purpose. -/
def State.read (s : State) (purpose : Purpose) : Move := s.goto (.operand ⟨[], purpose⟩)

/-- The `{` of a block. -/
def State.enter (s : State) (use : BlockUse) (line : Int) : Move :=
  .next ⟨[], ⟨s.before, line, use⟩ :: s.blocks, .statement⟩

/-- What becomes of a finished block. -/
def State.finishBlock (s : State) (block : Node) : BlockUse → State
  | .plain => s.finish block
  | .functionBody name params line => s.finish (.function name params block line)
  | .whileBody condition line => s.finish (.whileLoop condition block line)
  | .forBody item source line => s.finish (.forEach item source block line)
  | .thenPart chain condition line => { s with phase := .afterThen chain condition block line }
  | .elsePart chain => s.finish (closeIfs block chain)

/-- The value of a number's text: a double if it has a point. -/
def numberValue? (text : String) : Option Number :=
  if text.toList.contains '.' then (Numeral.double? text).map .double
  else (Numeral.integer? text).map .integer

/-- An operand, or an operator or bracket before one. -/
def operandMove (s : State) (context : Context) (t : Token) : Move :=
  let value (node : Node) : Move := s.goto (.afterOperand node context)
  let inside (pending : Pending) : Context := { context with pending := pending :: context.pending }
  match t.kind with
  | .notOp | .minus => s.goto (.operand (inside (.unary t.text t.line)))
  | .trueWord => value (.literal (.bool true) t.line)
  | .falseWord => value (.literal (.bool false) t.line)
  | .number =>
    match numberValue? t.text with
    | some n => value (.literal (.number n) t.line)
    | none => .fail .numberTooLong
  | .string => value (.literal (.string t.text) t.line)
  | .identifier => value (.identifier t.text t.line)
  | .templateStart => s.goto (.templateName t.line context)
  | .leftBracket => s.goto (.elementOrEnd t.line context)
  | .leftBrace => s.goto (.keyOrEnd t.line context)
  | .leftParen => s.goto (.operand (inside .group))
  | .error => .fail (.lexical t.text)
  | .endOfInput => .fail .unexpectedEnd
  | _ => .fail (.unexpected t.text)

/-- The first token of a statement, or the end of the block or program. -/
def statementMove (s : State) (t : Token) : Move :=
  match t.kind, s.blocks with
  | .endOfInput, [] => .done ⟨s.before.reverse⟩
  | .endOfInput, _ :: _ => .fail (.expected .closeBlock)
  | .rightBrace, block :: outer =>
    .next (State.finishBlock ⟨block.before, outer, .statement⟩
      (.block s.before.reverse block.line) block.use)
  | .letWord, _ => s.goto (.bindingName t.line)
  | .fnWord, _ => s.goto (.functionName t.line)
  | .ifWord, _ => s.read (.ifCondition [] t.line)
  | .forWord, _ => s.goto (.loopVariable t.line)
  | .whileWord, _ => s.read (.whileCondition t.line)
  | .returnWord, _ => s.goto (.returnValue t.line)
  | .leftBrace, _ => s.enter .plain t.line
  | _, _ => operandMove s ⟨[], .statement⟩ t

/-- A `{` that has to come. -/
def blockMove (s : State) (use : BlockUse) (t : Token) : Move :=
  if t.kind = .leftBrace then s.enter use t.line else .fail (.expected .openBlock)

/-- What follows a complete expression: the statement ends before `t`, or a block begins. -/
def purposeMove (s : State) (value : Node) (t : Token) : Purpose → Move
  | .statement => statementMove (s.finish value) t
  | .bindingValue name line => statementMove (s.finish (.binding name value line)) t
  | .returnValue line => statementMove (s.finish (.returning (some value) line)) t
  | .ifCondition chain line => blockMove s (.thenPart chain value line) t
  | .whileCondition line => blockMove s (.whileBody value line) t
  | .forSource item line => blockMove s (.forBody item value line) t

/-- What follows a complete expression: the end of a bracket, another item, or what the whole
expression was read for. -/
def closeMove (s : State) (value : Node) (context : Context) (t : Token) : Move :=
  let up (pending : List Pending) : Context := { context with pending }
  match context.pending with
  | .group :: outer =>
    if t.kind = .rightParen then s.goto (.afterOperand value (up outer))
    else .fail (.expected .closeGroup)
  | .arguments callee before line :: outer =>
    if t.kind = .comma then
      s.goto (.operand (up (.arguments callee (value :: before) line :: outer)))
    else if t.kind = .rightParen then
      s.goto (.afterOperand (.call callee (value :: before).reverse line) (up outer))
    else .fail (.expected .closeArguments)
  | .elements before line :: outer =>
    if t.kind = .comma then s.goto (.operand (up (.elements (value :: before) line :: outer)))
    else if t.kind = .rightBracket then
      s.goto (.afterOperand (.array (value :: before).reverse line) (up outer))
    else .fail (.expected .closeArray)
  | .property before key line :: outer =>
    if t.kind = .comma then s.goto (.key ((key, value) :: before) line (up outer))
    else if t.kind = .rightBrace then
      s.goto (.afterOperand (.object ((key, value) :: before).reverse line) (up outer))
    else .fail (.expected .closeObject)
  | _ => purposeMove s value t context.purpose

/-- What follows an operand: arguments, an operator, or the end of the expression. -/
def afterOperandMove (s : State) (operand : Node) (context : Context) (t : Token) : Move :=
  if t.kind = .leftParen then s.goto (.argumentOrEnd operand t.line context)
  else
    match level? t.kind with
    | some level =>
      let (left, pending) := reduce level operand context.pending
      s.goto (.operand
        { context with pending := .binary level t.text left t.line :: pending })
    | none =>
      let (value, pending) := reduce 0 operand context.pending
      closeMove s value { context with pending } t

/-- A name, or a text of another kind that may serve as one. -/
def nameMove (kinds : List TokenKind) (what : Expectation) (t : Token) (next : String → Move) :
    Move :=
  if t.kind ∈ kinds then next t.text else .fail (.expected what)

/-- A sign that has to come. -/
def signMove (kind : TokenKind) (what : Expectation) (t : Token) (next : Move) : Move :=
  if t.kind = kind then next else .fail (.expected what)

/-- Reads one token. -/
def step (s : State) (t : Token) : Move :=
  match s.phase with
  | .statement => statementMove s t
  | .operand context => operandMove s context t
  | .afterOperand operand context => afterOperandMove s operand context t
  | .argumentOrEnd callee line context =>
    if t.kind = .rightParen then s.goto (.afterOperand (.call callee [] line) context)
    else
      operandMove s { context with pending := .arguments callee [] line :: context.pending } t
  | .elementOrEnd line context =>
    if t.kind = .rightBracket then s.goto (.afterOperand (.array [] line) context)
    else operandMove s { context with pending := .elements [] line :: context.pending } t
  | .keyOrEnd line context =>
    if t.kind = .rightBrace then s.goto (.afterOperand (.object [] line) context)
    else
      nameMove [.identifier, .string] .propertyName t fun key =>
        s.goto (.propertyColon [] key line context)
  | .key before line context =>
    nameMove [.identifier, .string] .propertyName t fun key =>
      s.goto (.propertyColon before key line context)
  | .propertyColon before key line context =>
    signMove .colon .propertyColon t
      (s.goto (.operand { context with pending := .property before key line :: context.pending }))
  | .templateName line context =>
    nameMove [.identifier] .variableName t fun name => s.goto (.templateEnd name line context)
  | .templateEnd name line context =>
    signMove .templateEnd .closeTemplate t
      (s.goto (.afterOperand (.template name line) context))
  | .bindingName line =>
    nameMove [.identifier] .variableName t fun name => s.goto (.bindingSign name line)
  | .bindingSign name line => signMove .assign .assignment t (s.read (.bindingValue name line))
  | .functionName line =>
    nameMove [.identifier] .functionName t fun name => s.goto (.openParameters name line)
  | .openParameters name line =>
    signMove .leftParen .openParameters t (s.goto (.parameterOrEnd name line))
  | .parameterOrEnd name line =>
    if t.kind = .rightParen then s.goto (.openBlock (.functionBody name [] line))
    else
      nameMove [.identifier] .parameterName t fun param =>
        s.goto (.afterParameter name [param] line)
  | .parameter name before line =>
    nameMove [.identifier] .parameterName t fun param =>
      s.goto (.afterParameter name (param :: before) line)
  | .afterParameter name before line =>
    if t.kind = .comma then s.goto (.parameter name before line)
    else
      signMove .rightParen .closeParameters t
        (s.goto (.openBlock (.functionBody name before.reverse line)))
  | .loopVariable line =>
    nameMove [.identifier] .variableName t fun name => s.goto (.inWord name line)
  | .inWord item line =>
    if t.kind = .identifier ∧ t.text = "in" then s.read (.forSource item line)
    else .fail (.expected .inWord)
  | .openBlock use => blockMove s use t
  | .afterThen chain condition thenPart line =>
    if t.kind = .elseWord then s.goto (.afterElse (⟨condition, thenPart, line⟩ :: chain))
    else statementMove (s.finish (closeIfs (.branch condition thenPart none line) chain)) t
  | .afterElse chain =>
    if t.kind = .ifWord then s.read (.ifCondition chain t.line)
    else blockMove s (.elsePart chain) t
  | .returnValue line =>
    if t.kind = .rightBrace ∨ t.kind = .endOfInput then
      statementMove (s.finish (.returning none line)) t
    else operandMove s ⟨[], .returnValue line⟩ t

/-! ### Nesting -/

/-- What a bracket, a block, and an operator before its operand or an `else if` weigh in the
measure of nesting. -/
def bracketWeight : Nat := 16
def blockWeight : Nat := 3
def linkWeight : Nat := 1

def Pending.weight : Pending → Nat
  | unary .. => linkWeight
  | binary .. => 0
  | group | arguments .. | elements .. | property .. => bracketWeight

def BlockUse.weight : BlockUse → Nat
  | thenPart chain .. | elsePart chain => blockWeight + linkWeight * chain.length
  | _ => blockWeight

def Context.weight (context : Context) : Nat :=
  context.pending.foldr (fun pending n => pending.weight + n) 0 +
    match context.purpose with
    | .ifCondition chain _ => linkWeight * chain.length
    | _ => 0

def Phase.weight : Phase → Nat
  | operand context | afterOperand _ context | templateName _ context
  | templateEnd _ _ context => context.weight
  | argumentOrEnd _ _ context | elementOrEnd _ context | keyOrEnd _ context | key _ _ context
  | propertyColon _ _ _ context => bracketWeight + context.weight
  | afterThen chain .. | afterElse chain | openBlock (.thenPart chain ..)
  | openBlock (.elsePart chain) => linkWeight * chain.length
  | _ => 0

/-- How deeply nested a state is. -/
def State.weight (s : State) : Nat :=
  s.blocks.foldr (fun block n => block.use.weight + n) 0 + s.phase.weight

/-! ### Whole programs -/

/-- What comes of a list of tokens. A list that goes on past its end without an end of input
cannot be read at all. -/
inductive Outcome where
  | program (program : Program)
  | error (error : SyntaxError)
  | unended

/-- Reads all tokens; a state of more than `limit` is nested too deeply. The stack of a machine
would run out at a token that depends on the machine; here it is the one that leads too deep. -/
def run (limit : Nat) (s : State) : List Token → Outcome
  | [] => .unended
  | t :: rest =>
    match step s t with
    | .done program => .program program
    | .fail fault => .error ⟨fault, t.line, t.column⟩
    | .next s =>
      if limit < s.weight then .error ⟨.nestingTooDeep, t.line, t.column⟩ else run limit s rest

/-! ### The end of the input -/

/-- Whether a move ends the reading. -/
def Move.Ends : Move → Prop
  | .next _ => False
  | _ => True

@[simp] theorem Move.ends_done (program : Program) : (Move.done program).Ends := trivial

@[simp] theorem Move.ends_fail (fault : SyntaxFault) : (Move.fail fault).Ends := trivial

theorem operandMove_ends (s : State) (context : Context) {t : Token} (h : t.kind = .endOfInput) :
    (operandMove s context t).Ends := by
  simp [operandMove, h]

theorem statementMove_ends (s : State) {t : Token} (h : t.kind = .endOfInput) :
    (statementMove s t).Ends := by
  cases hb : s.blocks <;> simp [statementMove, h, hb]

theorem blockMove_ends (s : State) (use : BlockUse) {t : Token} (h : t.kind = .endOfInput) :
    (blockMove s use t).Ends := by
  simp [blockMove, h]

theorem purposeMove_ends (s : State) (value : Node) (purpose : Purpose) {t : Token}
    (h : t.kind = .endOfInput) : (purposeMove s value t purpose).Ends := by
  cases purpose <;> simp [purposeMove, statementMove_ends, blockMove_ends, h]

theorem closeMove_ends (s : State) (value : Node) (context : Context) {t : Token}
    (h : t.kind = .endOfInput) : (closeMove s value context t).Ends := by
  simp only [closeMove, h]
  split <;> simp [purposeMove_ends, h]

theorem afterOperandMove_ends (s : State) (operand : Node) (context : Context) {t : Token}
    (h : t.kind = .endOfInput) : (afterOperandMove s operand context t).Ends := by
  simp [afterOperandMove, h, level?, closeMove_ends]

/-- No state goes on past the end of the input. -/
theorem step_ends (s : State) {t : Token} (h : t.kind = .endOfInput) : (step s t).Ends := by
  unfold step
  split <;>
    simp [nameMove, signMove, operandMove_ends, statementMove_ends, blockMove_ends,
      afterOperandMove_ends, h]

/-- A list with an end of input is read to an answer. -/
theorem run_ne_unended (limit : Nat) (s : State) (tokens : List Token)
    (h : ∃ t ∈ tokens, t.kind = .endOfInput) : run limit s tokens ≠ .unended := by
  induction tokens generalizing s with
  | nil => simp at h
  | cons t rest ih =>
    simp only [run]
    split <;> try simp
    rename_i next hstep
    split
    · simp
    · refine ih next ?_
      obtain ⟨e, he, hk⟩ := h
      rcases List.mem_cons.1 he with rfl | he
      · have := step_ends s hk
        simp [hstep, Move.Ends] at this
      · exact ⟨e, he, hk⟩

/-- Before the first token. -/
def start : State := ⟨[], [], .statement⟩

/-- The deepest nesting that is read. -/
def nestingLimit : Nat := 1000

end Reader

open Reader

/-- Reads a program from tokens. -/
def Program.ofTokens (tokens : List Token) : Outcome := run nestingLimit start tokens

/-- Reads a program from its source text, whose tokens always have an end. -/
def Program.ofSource (source : String) : Except SyntaxError Program :=
  match h : Program.ofTokens (Token.ofSource source) with
  | .program program => .ok program
  | .error error => .error error
  | .unended => absurd h (run_ne_unended _ _ _ (Token.exists_endOfInput source))

end PageScript
