import PageScript.Proofs.Syntax.Statements

/-!
What has been read. A state of the reader is what the tokens so far have been taken for: the blocks
that are open, the statements before the current one, and what has been read of that. For each part
of a state it is said here which tokens it comes from.
-/
namespace PageScript.Reader

/-! ### Lists that are being read -/

/-- Items before the current one, latest first, with a comma behind each. -/
inductive ItemsBefore : List Node → List Token → Prop where
  | none : ItemsBefore [] []
  | more {node : Node} {before : List Node} {comma : Token} {ts us : List Token}
    (h : ItemsBefore before ts) (hitem : Derives (.expr 1 node) us) (hcomma : comma.kind = .comma) :
    ItemsBefore (node :: before) (ts ++ (us ++ [comma]))

theorem ItemsBefore.items {before : List Node} {ts : List Token} (h : ItemsBefore before ts)
    {next : Node} {nodes : List Node} {us : List Token}
    (hitems : Derives (.items (next :: nodes)) us) :
    Derives (.items (before.reverse ++ next :: nodes)) (ts ++ us) := by
  induction h generalizing next nodes us with
  | none => exact hitems
  | more h hitem hcomma ih =>
    have hmore := ih (.moreItems hitem hcomma hitems)
    simpa using hmore

/-- Properties before the current one, latest first, with a comma behind each. -/
inductive PropertiesBefore : List (String × Node) → List Token → Prop where
  | none : PropertiesBefore [] []
  | more {node : Node} {before : List (String × Node)} {key colon comma : Token}
    {ts us : List Token} (h : PropertiesBefore before ts)
    (hkey : key.kind = .identifier ∨ key.kind = .string) (hcolon : colon.kind = .colon)
    (hvalue : Derives (.expr 1 node) us) (hcomma : comma.kind = .comma) :
    PropertiesBefore ((key.text, node) :: before) (ts ++ key :: colon :: (us ++ [comma]))

theorem PropertiesBefore.properties {before : List (String × Node)} {ts : List Token}
    (h : PropertiesBefore before ts) {next : String × Node} {entries : List (String × Node)}
    {us : List Token} (hentries : Derives (.properties (next :: entries)) us) :
    Derives (.properties (before.reverse ++ next :: entries)) (ts ++ us) := by
  induction h generalizing next entries us with
  | none => exact hentries
  | more h hkey hcolon hvalue hcomma ih =>
    have hmore := ih (.moreProperties hkey hcolon hvalue hcomma hentries)
    simpa using hmore

/-- Parameters before the current one, latest first, with a comma behind each. -/
inductive ParametersBefore : List String → List Token → Prop where
  | none : ParametersBefore [] []
  | more {before : List String} {t comma : Token} {ts : List Token} (h : ParametersBefore before ts)
    (hname : t.kind = .identifier) (hcomma : comma.kind = .comma) :
    ParametersBefore (t.text :: before) (ts ++ [t, comma])

theorem ParametersBefore.parameters {before : List String} {ts : List Token}
    (h : ParametersBefore before ts) {next : String} {names : List String} {us : List Token}
    (hnames : Parameters (next :: names) us) :
    Parameters (before.reverse ++ next :: names) (ts ++ us) := by
  induction h generalizing next names us with
  | none => exact hnames
  | more h hname hcomma ih =>
    have hmore := ih (.more hname hcomma hnames)
    simpa using hmore

/-- The parts of an `if` up to an `else`, the latest first. -/
inductive IfsBefore : List OpenIf → List Token → Prop where
  | none : IfsBefore [] []
  | more {chain : List OpenIf} {condition thenPart : Node} {word elseWord : Token}
    {ts cs us : List Token} (h : IfsBefore chain ts) (hword : word.kind = .ifWord)
    (hcondition : Derives (.expr 1 condition) cs) (hthen : Stands (.block thenPart) us)
    (helseWord : elseWord.kind = .elseWord) :
    IfsBefore (⟨condition, thenPart, word.line⟩ :: chain)
      (ts ++ word :: (cs ++ (us ++ [elseWord])))

/-- What stands behind an `else` closes all the `if`s before it. -/
theorem IfsBefore.conditional {chain : List OpenIf} {ts : List Token} (h : IfsBefore chain ts)
    {node : Node} {us : List Token} (hnode : Stands (.conditional node) us) :
    Stands (.conditional (closeIfs node chain)) (ts ++ us) := by
  induction h generalizing node us with
  | none => exact hnode
  | more h hword hcondition hthen helseWord ih =>
    have hmore := ih (.branchElse hword hcondition hthen helseWord (.elseIf hnode))
    simpa [closeIfs] using hmore

theorem IfsBefore.first {chain : List OpenIf} {ts rest : List Token} {word : Token}
    (h : IfsBefore chain ts) (hword : word.kind = .ifWord) :
    ∀ t ∈ (ts ++ word :: rest).head?, t.kind = .ifWord := by
  induction h generalizing word rest with
  | none => simpa using hword
  | more h hword' hcondition hthen helseWord ih =>
    rw [List.append_assoc, List.cons_append]
    exact ih hword'

/-! ### Expressions that are being read -/

/-- The operators and brackets that are open, and their tokens. An operator between two operands
binds tighter than one before it, unless a bracket is between them. -/
inductive Opened : List Pending → List Token → Prop where
  | none : Opened [] []
  | unary {outer : List Pending} {sign : Token} {ts : List Token} (h : Opened outer ts)
    (hsign : sign.kind = .notOp ∨ sign.kind = .minus) :
    Opened (.unary sign.text sign.line :: outer) (ts ++ [sign])
  | binary {outer : List Pending} {held : Nat} {left : Node} {sign : Token} {ts us : List Token}
    (h : Opened outer ts) (hopens : Opens held outer) (hleft : Derives (.expr held left) us)
    (hsign : level? sign.kind = some held) :
    Opened (.binary held sign.text left sign.line :: outer) (ts ++ (us ++ [sign]))
  | group {outer : List Pending} {opening : Token} {ts : List Token} (h : Opened outer ts)
    (ho : opening.kind = .leftParen) : Opened (.group :: outer) (ts ++ [opening])
  | arguments {outer : List Pending} {callee : Node} {before : List Node} {opening : Token}
    {ts us vs : List Token} (h : Opened outer ts) (hcallee : Derives (.expr 8 callee) us)
    (ho : opening.kind = .leftParen) (hbefore : ItemsBefore before vs) :
    Opened (.arguments callee before opening.line :: outer) (ts ++ (us ++ opening :: vs))
  | elements {outer : List Pending} {before : List Node} {opening : Token} {ts vs : List Token}
    (h : Opened outer ts) (ho : opening.kind = .leftBracket) (hbefore : ItemsBefore before vs) :
    Opened (.elements before opening.line :: outer) (ts ++ opening :: vs)
  | property {outer : List Pending} {before : List (String × Node)} {key colon opening : Token}
    {ts vs : List Token} (h : Opened outer ts) (ho : opening.kind = .leftBrace)
    (hbefore : PropertiesBefore before vs) (hkey : key.kind = .identifier ∨ key.kind = .string)
    (hcolon : colon.kind = .colon) :
    Opened (.property before key.text opening.line :: outer)
      (ts ++ opening :: (vs ++ [key, colon]))

/-- What binds tighter than all operators between operands may follow each of them. -/
theorem Opened.opens {pending : List Pending} {ts : List Token} (h : Opened pending ts)
    {level : Nat} (hlevel : 7 ≤ level) : Opens level pending := by
  cases h with
  | unary => exact hlevel
  | binary h hopens hleft hsign => exact Nat.lt_of_le_of_lt (level?_le hsign) (by omega)
  | _ => trivial

/-- Every operator between two operands has a level of one or more. -/
theorem one_le_level? {kind : TokenKind} {level : Nat} (h : level? kind = some level) :
    1 ≤ level := by
  have hall : ∀ kind ∈ TokenKind.all, ∀ level ∈ level? kind, 1 ≤ level := by decide
  exact hall kind (TokenKind.mem_all kind) level h

/-- Operators that are applied to an operand take in their own tokens: what comes of it is an
expression of the level asked for, and what stays open binds more loosely. -/
theorem Opened.reduce {pending : List Pending} {ts : List Token} (h : Opened pending ts)
    {level tight : Nat} {operand : Node} {us : List Token} (hlevel : level ≤ 6)
    (htight : max 1 level ≤ tight) (hopens : Opens tight pending)
    (hoperand : Derives (.expr tight operand) us) :
    ∃ ts' us', ts ++ us = ts' ++ us' ∧ Opened (reduce level operand pending).2 ts' ∧
      Opens level (reduce level operand pending).2 ∧
      Derives (.expr (max 1 level) (reduce level operand pending).1) us' := by
  -- From the innermost operator outwards, each application makes the operand of the next one.
  induction h generalizing tight operand us with
  | @unary outer sign ts h hsign ih =>
    have happlied : Derives (.expr 7 (.unary sign.text operand sign.line)) (sign :: us) :=
      .unary (Nat.le_refl 7) hsign (hoperand.mono hopens)
    obtain ⟨ts', us', heq, hrest⟩ := ih (by omega) (h.opens (Nat.le_refl 7)) happlied
    exact ⟨ts', us', by simpa using heq, hrest⟩
  | @binary outer held left sign ts vs h hopens' hleft hsign ih =>
    rw [Reader.reduce]
    by_cases hheld : level ≤ held
    · rw [if_pos hheld]
      have happlied : Derives (.expr held (.binary sign.text left operand sign.line))
          (vs ++ sign :: us) := .binary (Nat.le_refl held) hleft hsign (hoperand.mono hopens)
      have hone := one_le_level? hsign
      obtain ⟨ts', us', heq, hrest⟩ := ih (by omega) hopens' happlied
      exact ⟨ts', us', by simpa using heq, hrest⟩
    · rw [if_neg hheld]
      exact ⟨_, us, rfl, .binary h hopens' hleft hsign, Nat.lt_of_not_le hheld,
        hoperand.mono htight⟩
  | none => exact ⟨_, us, rfl, .none, trivial, hoperand.mono htight⟩
  | group h ho => exact ⟨_, us, rfl, .group h ho, trivial, hoperand.mono htight⟩
  | arguments h hcallee ho hbefore =>
    exact ⟨_, us, rfl, .arguments h hcallee ho hbefore, trivial, hoperand.mono htight⟩
  | elements h ho hbefore =>
    exact ⟨_, us, rfl, .elements h ho hbefore, trivial, hoperand.mono htight⟩
  | property h ho hbefore hkey hcolon =>
    exact ⟨_, us, rfl, .property h ho hbefore hkey hcolon, trivial, hoperand.mono htight⟩

/-! ### Statements that are being read -/

/-- What has been read of a statement before the expression that is read for it. -/
inductive Purpose.Begun : Purpose → List Token → Prop where
  | statement : Purpose.Begun .statement []
  | bindingValue {word name sign : Token} (hword : word.kind = .letWord)
    (hname : name.kind = .identifier) (hsign : sign.kind = .assign) :
    Purpose.Begun (.bindingValue name.text word.line) [word, name, sign]
  | returnValue {word : Token} (hword : word.kind = .returnWord) :
    Purpose.Begun (.returnValue word.line) [word]
  | ifCondition {chain : List OpenIf} {word : Token} {ts : List Token} (h : IfsBefore chain ts)
    (hword : word.kind = .ifWord) : Purpose.Begun (.ifCondition chain word.line) (ts ++ [word])
  | whileCondition {word : Token} (hword : word.kind = .whileWord) :
    Purpose.Begun (.whileCondition word.line) [word]
  | forSource {word item inWord : Token} (hword : word.kind = .forWord)
    (hitem : item.kind = .identifier) (hin : inWord.kind = .identifier ∧ inWord.text = "in") :
    Purpose.Begun (.forSource item.text word.line) [word, item, inWord]

/-- What has been read of a statement before the `{` of a block that is part of it. -/
inductive BlockUse.Begun : BlockUse → List Token → Prop where
  | plain : BlockUse.Begun .plain []
  | functionBody {params : List String} {word name opening closing : Token} {ps : List Token}
    (hword : word.kind = .fnWord) (hname : name.kind = .identifier)
    (ho : opening.kind = .leftParen) (hparams : Parameters params ps)
    (hc : closing.kind = .rightParen) :
    BlockUse.Begun (.functionBody name.text params word.line)
      (word :: name :: opening :: (ps ++ [closing]))
  | whileBody {condition : Node} {word : Token} {cs : List Token} (hword : word.kind = .whileWord)
    (hcondition : Derives (.expr 1 condition) cs) :
    BlockUse.Begun (.whileBody condition word.line) (word :: cs)
  | forBody {source : Node} {word item inWord : Token} {cs : List Token}
    (hword : word.kind = .forWord) (hitem : item.kind = .identifier)
    (hin : inWord.kind = .identifier ∧ inWord.text = "in") (hsource : Derives (.expr 1 source) cs) :
    BlockUse.Begun (.forBody item.text source word.line) (word :: item :: inWord :: cs)
  | thenPart {chain : List OpenIf} {condition : Node} {word : Token} {ts cs : List Token}
    (h : IfsBefore chain ts) (hword : word.kind = .ifWord)
    (hcondition : Derives (.expr 1 condition) cs) :
    BlockUse.Begun (.thenPart chain condition word.line) (ts ++ word :: cs)
  | elsePart {opened : OpenIf} {chain : List OpenIf} {ts : List Token}
    (h : IfsBefore (opened :: chain) ts) : BlockUse.Begun (.elsePart (opened :: chain)) ts

inductive Context.Begun : Context → List Token → Prop where
  | mk {pending : List Pending} {purpose : Purpose} {hs os : List Token}
    (hpurpose : purpose.Begun hs) (hopened : Opened pending os) :
    Context.Begun ⟨pending, purpose⟩ (hs ++ os)

/-- Nothing of an expression has been read. -/
theorem Context.Begun.first {purpose : Purpose} {hs : List Token} (h : purpose.Begun hs) :
    Context.Begun ⟨[], purpose⟩ hs := by
  have hfirst := Context.Begun.mk h .none
  rwa [List.append_nil] at hfirst

/-- What has been read of the current statement. -/
inductive Phase.Begun : Phase → List Token → Prop where
  | operand {context : Context} {ts : List Token} (h : context.Begun ts) :
    Phase.Begun (.operand context) ts
  | afterOperand {context : Context} {operand : Node} {ts us : List Token} (h : context.Begun ts)
    (hoperand : Derives (.expr 8 operand) us) :
    Phase.Begun (.afterOperand operand context) (ts ++ us)
  | argumentOrEnd {context : Context} {callee : Node} {opening : Token} {ts us : List Token}
    (h : context.Begun ts) (hcallee : Derives (.expr 8 callee) us)
    (ho : opening.kind = .leftParen) :
    Phase.Begun (.argumentOrEnd callee opening.line context) (ts ++ us ++ [opening])
  | elementOrEnd {context : Context} {opening : Token} {ts : List Token} (h : context.Begun ts)
    (ho : opening.kind = .leftBracket) :
    Phase.Begun (.elementOrEnd opening.line context) (ts ++ [opening])
  | keyOrEnd {context : Context} {opening : Token} {ts : List Token} (h : context.Begun ts)
    (ho : opening.kind = .leftBrace) :
    Phase.Begun (.keyOrEnd opening.line context) (ts ++ [opening])
  | key {context : Context} {before : List (String × Node)} {opening : Token} {ts vs : List Token}
    (h : context.Begun ts) (ho : opening.kind = .leftBrace) (hbefore : PropertiesBefore before vs) :
    Phase.Begun (.key before opening.line context) (ts ++ opening :: vs)
  | propertyColon {context : Context} {before : List (String × Node)} {opening key : Token}
    {ts vs : List Token} (h : context.Begun ts) (ho : opening.kind = .leftBrace)
    (hbefore : PropertiesBefore before vs) (hkey : key.kind = .identifier ∨ key.kind = .string) :
    Phase.Begun (.propertyColon before key.text opening.line context)
      (ts ++ opening :: (vs ++ [key]))
  | templateName {context : Context} {opening : Token} {ts : List Token} (h : context.Begun ts)
    (ho : opening.kind = .templateStart) :
    Phase.Begun (.templateName opening.line context) (ts ++ [opening])
  | templateEnd {context : Context} {opening name : Token} {ts : List Token} (h : context.Begun ts)
    (ho : opening.kind = .templateStart) (hname : name.kind = .identifier) :
    Phase.Begun (.templateEnd name.text opening.line context) (ts ++ [opening, name])
  | bindingName {word : Token} (hword : word.kind = .letWord) :
    Phase.Begun (.bindingName word.line) [word]
  | bindingSign {word name : Token} (hword : word.kind = .letWord)
    (hname : name.kind = .identifier) : Phase.Begun (.bindingSign name.text word.line) [word, name]
  | functionName {word : Token} (hword : word.kind = .fnWord) :
    Phase.Begun (.functionName word.line) [word]
  | openParameters {word name : Token} (hword : word.kind = .fnWord)
    (hname : name.kind = .identifier) :
    Phase.Begun (.openParameters name.text word.line) [word, name]
  | parameterOrEnd {word name opening : Token} (hword : word.kind = .fnWord)
    (hname : name.kind = .identifier) (ho : opening.kind = .leftParen) :
    Phase.Begun (.parameterOrEnd name.text word.line) [word, name, opening]
  | parameter {before : List String} {word name opening : Token} {ps : List Token}
    (hword : word.kind = .fnWord) (hname : name.kind = .identifier)
    (ho : opening.kind = .leftParen) (hbefore : ParametersBefore before ps) :
    Phase.Begun (.parameter name.text before word.line) (word :: name :: opening :: ps)
  | afterParameter {before : List String} {word name opening param : Token} {ps : List Token}
    (hword : word.kind = .fnWord) (hname : name.kind = .identifier)
    (ho : opening.kind = .leftParen) (hbefore : ParametersBefore before ps)
    (hparam : param.kind = .identifier) :
    Phase.Begun (.afterParameter name.text (param.text :: before) word.line)
      (word :: name :: opening :: (ps ++ [param]))
  | loopVariable {word : Token} (hword : word.kind = .forWord) :
    Phase.Begun (.loopVariable word.line) [word]
  | inWord {word item : Token} (hword : word.kind = .forWord) (hitem : item.kind = .identifier) :
    Phase.Begun (.inWord item.text word.line) [word, item]
  | openBlock {use : BlockUse} {hs : List Token} (h : use.Begun hs) :
    Phase.Begun (.openBlock use) hs
  | afterThen {chain : List OpenIf} {condition thenPart : Node} {word : Token}
    {ts cs us : List Token} (h : IfsBefore chain ts) (hword : word.kind = .ifWord)
    (hcondition : Derives (.expr 1 condition) cs) (hthen : Stands (.block thenPart) us) :
    Phase.Begun (.afterThen chain condition thenPart word.line) (ts ++ word :: (cs ++ us))
  | afterElse {opened : OpenIf} {chain : List OpenIf} {ts : List Token}
    (h : IfsBefore (opened :: chain) ts) : Phase.Begun (.afterElse (opened :: chain)) ts
  | returnValue {word : Token} (hword : word.kind = .returnWord) :
    Phase.Begun (.returnValue word.line) [word]

/-! ### States -/

/-- The blocks that are open, and all tokens up to the `{` of the innermost. -/
inductive Enclosing : List OpenBlock → List Token → Prop where
  | none : Enclosing [] []
  | block {blocks : List OpenBlock} {before : List Node} {use : BlockUse} {opening : Token}
    {outer us hs : List Token} (h : Enclosing blocks outer)
    (hbefore : Stands (.statements before.reverse) us) (huse : use.Begun hs)
    (ho : opening.kind = .leftBrace)
    (hfollows : ∀ last ∈ before.head?, ∀ t ∈ (hs ++ [opening]).head?, Follows t last) :
    Enclosing (⟨before, opening.line, use⟩ :: blocks) (outer ++ us ++ (hs ++ [opening]))

/-- The statements before the current one, with the blocks around them, and all tokens of these. -/
inductive Settled : List Node → List OpenBlock → List Token → Prop where
  | mk {before : List Node} {blocks : List OpenBlock} {outer us : List Token}
    (hblocks : Enclosing blocks outer) (hbefore : Stands (.statements before.reverse) us) :
    Settled before blocks (outer ++ us)

/-- A statement has begun with the tokens `part`, and does not continue the one before it. -/
structure Inside (before : List Node) (blocks : List OpenBlock) (front part : List Token) :
    Prop where
  settled : Settled before blocks front
  follows : ∀ last ∈ before.head?, ∀ t ∈ part.head?, Follows t last
  first : ∀ t ∈ part.head?, t.kind ≠ .leftBrace

/-- The state after tokens. Behind a complete statement of which the end was seen, everything but an
`else` may come next. -/
inductive State.Reached : State → List Token → Prop where
  | between {before : List Node} {blocks : List OpenBlock} {ts : List Token}
    (h : Settled before blocks ts)
    (hclosed : ∀ last ∈ before.head?, ∀ t : Token, t.kind ≠ .elseWord → Follows t last) :
    State.Reached ⟨before, blocks, .statement⟩ ts
  | within {before : List Node} {blocks : List OpenBlock} {phase : Phase} {front part : List Token}
    (h : Inside before blocks front part) (hne : part ≠ []) (hphase : phase.Begun part) :
    State.Reached ⟨before, blocks, phase⟩ (front ++ part)

/-- Where a token leads from a state after `ts`. -/
def Move.Sound (ts : List Token) (t : Token) : Move → Prop
  | .next s => s.Reached (ts ++ [t])
  | .done program => t.kind = .endOfInput ∧ Stands (.statements program.body) ts
  | .fail _ => True

end PageScript.Reader
