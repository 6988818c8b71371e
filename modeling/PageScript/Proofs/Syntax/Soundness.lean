import PageScript.Proofs.Syntax.Progress

/-!
What the reader accepts, the grammar derives. Each token that leads on leaves the state and the
tokens read so far in agreement, so at the end of the input they stand for the program.
-/
namespace PageScript.Reader

variable {s : State} {t : Token} {before : List Node} {blocks : List OpenBlock}
  {front part ts us : List Token}

/-! ### Statements -/

theorem Inside.append (h : Inside before blocks front part) (hne : part ≠ []) (ts : List Token) :
    Inside before blocks front (part ++ ts) := by
  obtain ⟨first, rest, rfl⟩ := List.exists_cons_of_ne_nil hne
  exact ⟨h.settled, h.follows, h.first⟩

/-- A complete statement is one of those before the next. -/
theorem Settled.finish {node : Node} (h : Settled before blocks front)
    (hfollows : ∀ last ∈ before.head?, ∀ t ∈ part.head?, Follows t last)
    (hnode : Stands (.statement node) part) : Settled (node :: before) blocks (front ++ part) := by
  cases h with
  | mk hblocks hbefore =>
    rw [List.append_assoc]
    refine .mk hblocks ?_
    rw [List.reverse_cons]
    exact .moreStatements hbefore hnode (by simpa using hfollows)

/-- Behind a statement that ends in a block, the next one may begin. -/
theorem Settled.reached_finish {node : Node} (h : Settled before blocks front)
    (hfollows : ∀ last ∈ before.head?, ∀ t ∈ part.head?, Follows t last)
    (hnode : Stands (.statement node) part)
    (hclosed : ∀ t : Token, t.kind ≠ .elseWord → Follows t node) (phase : Phase) :
    (State.finish ⟨before, blocks, phase⟩ node).Reached (front ++ part) := by
  refine .between (h.finish hfollows hnode) fun last hlast t ht => ?_
  obtain rfl : node = last := by simpa using hlast
  exact hclosed t ht

theorem Stands.follows_conditional {node : Node} (h : Stands (.conditional node) ts)
    (ht : t.kind ≠ .elseWord) : Follows t node := by
  cases h <;> exact ht

/-- What has been read goes on in the same statement. -/
theorem Inside.goto (h : Inside s.before s.blocks front (part ++ [t])) {phase : Phase}
    (hphase : phase.Begun (part ++ [t])) : (s.goto phase).Sound (front ++ part) t := by
  have hreached := State.Reached.within h (by simp) hphase
  rw [← List.append_assoc] at hreached
  exact hreached

/-! ### Blocks -/

theorem Settled.enter {use : BlockUse} {hs : List Token} (h : Settled s.before s.blocks front)
    (huse : use.Begun hs) (ho : t.kind = .leftBrace)
    (hfollows : ∀ last ∈ s.before.head?, ∀ first ∈ (hs ++ [t]).head?, Follows first last) :
    (s.enter use t.line).Sound (front ++ hs) t := by
  generalize hbefore : s.before = before at h hfollows
  generalize hblocks : s.blocks = blocks at h
  cases h with
  | mk houter hstatements =>
    have henclosing := Enclosing.block houter hstatements huse ho hfollows
    have hinner : Settled [] _ _ := .mk henclosing .noStatements
    have hreached := State.Reached.between hinner (by simp)
    simpa [State.enter, Move.Sound, hbefore, hblocks] using hreached

theorem Inside.block {use : BlockUse} (h : Inside s.before s.blocks front part)
    (hne : part ≠ []) (huse : use.Begun part) : (blockMove s use t).Sound (front ++ part) t := by
  unfold blockMove
  split
  · next ho => exact h.settled.enter huse ho (h.append hne [t]).follows
  · trivial

/-- The end of a block, and of the statement that it is part of unless an `else` may follow. -/
theorem Settled.finishBlock {block : OpenBlock} (h : Settled before (block :: blocks) ts)
    (hc : t.kind = .rightBrace) :
    (State.finishBlock ⟨block.before, blocks, .statement⟩ (.block before.reverse block.line)
      block.use).Reached (ts ++ [t]) := by
  cases h with
  | @mk outer us henclosing hstatements =>
    cases henclosing with
    | @block _ before' use opening outer us' hs hblocks hbefore huse ho hfollows =>
      have hblock : Stands (.block (.block before.reverse opening.line)) (opening :: (us ++ [t])) :=
        .block ho hstatements hc
      have hsettled : Settled before' blocks (outer ++ us') := .mk hblocks hbefore
      have hhead : (hs ++ opening :: (us ++ [t])).head? = (hs ++ [opening]).head? := by
        cases hs <;> rfl
      rw [← hhead] at hfollows
      have htokens : outer ++ us' ++ (hs ++ [opening]) ++ us ++ [t] =
          outer ++ us' ++ (hs ++ opening :: (us ++ [t])) := by simp
      rw [htokens]
      -- What the block is part of ends with it, but an `if` waits for an `else` after its first.
      cases huse with
      | plain =>
        have hplain : Stands (.statement (.block before.reverse opening.line)) _ := .plain hblock
        exact hsettled.reached_finish hfollows hplain (fun _ _ => trivial) _
      | functionBody hword hname ho' hparams hc' =>
        have hfunction := Stands.function hword hname ho' hparams hc' hblock
        refine hsettled.reached_finish hfollows ?_ ?_ _
        · simpa using hfunction
        · exact fun _ _ => trivial
      | whileBody hword hcondition =>
        exact hsettled.reached_finish hfollows (.whileLoop hword hcondition hblock)
          (fun _ _ => trivial) _
      | forBody hword hitem hin hsource =>
        exact hsettled.reached_finish hfollows (.forEach hword hitem hin hsource hblock)
          (fun _ _ => trivial) _
      | thenPart hchain hword hcondition =>
        refine .within ⟨hsettled, hfollows, ?_⟩ (by simp) ?_
        · intro first hfirst
          rw [List.append_assoc] at hfirst
          rw [hchain.first hword first hfirst]
          decide
        · simpa using Phase.Begun.afterThen hchain hword hcondition hblock
      | elsePart hchain =>
        cases hchain with
        | more hchain hword hcondition hthen helseWord =>
          have hconditional := hchain.conditional
            (.branchElse hword hcondition hthen helseWord (.elseBlock hblock))
          refine hsettled.reached_finish hfollows ?_ ?_ _
          · simpa [closeIfs] using Stands.conditional hconditional
          · exact fun t ht => hconditional.follows_conditional ht

/-! ### Expressions -/

theorem Context.Begun.push {context : Context} {bracket : Pending} (h : context.Begun part)
    {ts : List Token}
    (hbracket : ∀ os, Opened context.pending os → Opened (bracket :: context.pending) (os ++ ts)) :
    Context.Begun ⟨bracket :: context.pending, context.purpose⟩ (part ++ ts) := by
  cases h with
  | mk hpurpose hopened =>
    rw [List.append_assoc]
    exact .mk hpurpose (hbracket _ hopened)

/-- An operand, or an operator or bracket before one. -/
theorem Inside.operand {context : Context} (h : Inside s.before s.blocks front (part ++ [t]))
    (hcontext : context.Begun part) : (operandMove s context t).Sound (front ++ part) t := by
  cases hleaf : leaf? t with
  | some node =>
    rw [operandMove_leaf hleaf]
    exact h.goto (.afterOperand hcontext (.leaf hleaf))
  | none =>
    unfold operandMove
    split
    case h_1 hk => exact h.goto (.operand (hcontext.push fun os hos => .unary hos (.inl hk)))
    case h_2 hk => exact h.goto (.operand (hcontext.push fun os hos => .unary hos (.inr hk)))
    case h_5 hk =>
      split
      · next n hn => simp [leaf?, hk, hn] at hleaf
      · trivial
    case h_8 hk => exact h.goto (.templateName hcontext hk)
    case h_9 hk => exact h.goto (.elementOrEnd hcontext hk)
    case h_10 hk => exact h.goto (.keyOrEnd hcontext hk)
    case h_11 hk => exact h.goto (.operand (hcontext.push fun os hos => .group hos hk))
    case h_12 | h_13 | h_14 => trivial
    -- The other tokens are operands by themselves.
    all_goals
      next hk => simp [leaf?, hk] at hleaf

/-- The first token of a statement, or the end of the block or program. -/
theorem Settled.statement (h : Settled s.before s.blocks ts)
    (hfollows : t.kind ≠ .elseWord → ∀ last ∈ s.before.head?, Follows t last) :
    (statementMove s t).Sound ts t := by
  have hinside (helse : t.kind ≠ .elseWord) (hbrace : t.kind ≠ .leftBrace) :
      Inside s.before s.blocks ts ([] ++ [t]) := by
    refine ⟨h, fun last hlast first hfirst => ?_, fun first hfirst => ?_⟩
    · obtain rfl : t = first := by simpa using hfirst
      exact hfollows helse last hlast
    · obtain rfl : t = first := by simpa using hfirst
      exact hbrace
  have hstart {phase : Phase} (helse : t.kind ≠ .elseWord) (hbrace : t.kind ≠ .leftBrace)
      (hphase : phase.Begun [t]) : (s.goto phase).Sound ts t := by
    have hgoto := (hinside helse hbrace).goto hphase
    rwa [List.append_nil] at hgoto
  unfold statementMove
  split
  case h_1 hk hblocks =>
    rw [hblocks] at h
    cases h with
    | mk houter hstatements =>
      cases houter
      exact ⟨hk, hstatements⟩
  case h_2 => trivial
  case h_3 block outer hk hblocks =>
    rw [hblocks] at h
    exact h.finishBlock hk
  case h_4 hk => exact hstart (by simp [hk]) (by simp [hk]) (.bindingName hk)
  case h_5 hk => exact hstart (by simp [hk]) (by simp [hk]) (.functionName hk)
  case h_6 hk =>
    exact hstart (by simp [hk]) (by simp [hk]) (.operand (.first (.ifCondition .none hk)))
  case h_7 hk => exact hstart (by simp [hk]) (by simp [hk]) (.loopVariable hk)
  case h_8 hk =>
    exact hstart (by simp [hk]) (by simp [hk]) (.operand (.first (.whileCondition hk)))
  case h_9 hk => exact hstart (by simp [hk]) (by simp [hk]) (.returnValue hk)
  case h_10 hk =>
    have henter := h.enter .plain hk fun last hlast first hfirst => by
      obtain rfl : t = first := by simpa using hfirst
      exact hfollows (by simp [hk]) last hlast
    rwa [List.append_nil] at henter
  case h_11 =>
    have hbrace : t.kind ≠ .leftBrace := by assumption
    by_cases helse : t.kind = .elseWord
    · simp [operandMove, helse, Move.Sound]
    · have hoperand := (hinside helse hbrace).operand (.first .statement)
      rwa [List.append_nil] at hoperand

/-- What follows a complete expression. -/
theorem Inside.purpose {value : Node} {purpose : Purpose} {hs us : List Token}
    (h : Inside s.before s.blocks front (hs ++ us)) (hpurpose : purpose.Begun hs)
    (hvalue : Derives (.expr 1 value) us) (hk : t.kind ≠ .leftParen)
    (hlevel : level? t.kind = none) :
    (purposeMove s value t purpose).Sound (front ++ (hs ++ us)) t := by
  have hfinish {node : Node} (hnode : Stands (.statement node) (hs ++ us))
      (hnext : Follows t node) :
      (statementMove (s.finish node) t).Sound (front ++ (hs ++ us)) t := by
    refine Settled.statement (h.settled.finish h.follows hnode) fun _ last hlast => ?_
    obtain rfl : node = last := by simpa [State.finish] using hlast
    exact hnext
  cases hpurpose with
  | statement => exact hfinish (.expression hvalue h.first) ((hvalue.follows_iff t).2 ⟨hk, hlevel⟩)
  | bindingValue hword hname hsign =>
    exact hfinish (.binding hword hname hsign hvalue) ⟨hk, hlevel⟩
  | returnValue hword => exact hfinish (.returning hword hvalue) ⟨hk, hlevel⟩
  | ifCondition hchain hword =>
    refine h.block (by simp) ?_
    simpa using BlockUse.Begun.thenPart hchain hword hvalue
  | whileCondition hword => exact h.block (by simp) (.whileBody hword hvalue)
  | forSource hword hitem hin => exact h.block (by simp) (.forBody hword hitem hin hvalue)

/-- What follows a complete expression: the end of a bracket, another item, or the purpose. -/
theorem Inside.close {value : Node} {context : Context}
    (hcontext : context.Begun ts) (hopens : Opens 0 context.pending)
    (hvalue : Derives (.expr 1 value) us) (h : Inside s.before s.blocks front (ts ++ us))
    (hne : ts ++ us ≠ []) (hk : t.kind ≠ .leftParen) (hlevel : level? t.kind = none) :
    (closeMove s value context t).Sound (front ++ (ts ++ us)) t := by
  have h' := h.append hne [t]
  cases hcontext with
  | @mk pending purpose hs os hpurpose hopened =>
    cases hopened with
    | none =>
      rw [List.append_nil] at h ⊢
      exact h.purpose hpurpose hvalue hk hlevel
    | unary => exact absurd hopens (by simp [Opens])
    | binary => exact absurd hopens (by simp [Opens])
    | group houter ho =>
      simp only [closeMove]
      split
      · next hc =>
        have hgroup := Phase.Begun.afterOperand (.mk hpurpose houter) (.group ho hvalue hc)
        exact h'.goto (by simpa using hgroup)
      · trivial
    | arguments houter hcallee ho hbefore =>
      simp only [closeMove]
      split
      · next hcomma =>
        have hargument := Phase.Begun.operand (.mk hpurpose
          (.arguments houter hcallee ho (hbefore.more hvalue hcomma)))
        exact h'.goto (by simpa using hargument)
      · split
        · next hc =>
          have hcall := Phase.Begun.afterOperand (.mk hpurpose houter)
            (.call (Nat.le_refl 8) hcallee ho (hbefore.items (.lastItem hvalue)) hc)
          exact h'.goto (by simpa using hcall)
        · trivial
    | elements houter ho hbefore =>
      simp only [closeMove]
      split
      · next hcomma =>
        have helement := Phase.Begun.operand (.mk hpurpose
          (.elements houter ho (hbefore.more hvalue hcomma)))
        exact h'.goto (by simpa using helement)
      · split
        · next hc =>
          have harray := Phase.Begun.afterOperand (.mk hpurpose houter)
            (.array ho (hbefore.items (.lastItem hvalue)) hc)
          exact h'.goto (by simpa using harray)
        · trivial
    | property houter ho hbefore hkey hcolon =>
      simp only [closeMove]
      split
      · next hcomma =>
        have hnext := Phase.Begun.key (.mk hpurpose houter) ho
          (hbefore.more hkey hcolon hvalue hcomma)
        exact h'.goto (by simpa using hnext)
      · split
        · next hc =>
          have hobject := Phase.Begun.afterOperand (.mk hpurpose houter)
            (.object ho (hbefore.properties (.lastProperty hkey hcolon hvalue)) hc)
          exact h'.goto (by simpa using hobject)
        · trivial

/-- What follows an operand: arguments, an operator, or the end of the expression. -/
theorem Inside.afterOperand {operand : Node} {context : Context} (hcontext : context.Begun ts)
    (hoperand : Derives (.expr 8 operand) us) (h : Inside s.before s.blocks front (ts ++ us))
    (hne : ts ++ us ≠ []) :
    (afterOperandMove s operand context t).Sound (front ++ (ts ++ us)) t := by
  unfold afterOperandMove
  split
  · next ho => exact (h.append hne [t]).goto (.argumentOrEnd hcontext hoperand ho)
  · next hk =>
    cases hcontext with
    | @mk pending purpose hs os hpurpose hopened =>
      split
      · next level hlevel =>
        have hle := level?_le hlevel
        have hone := one_le_level? hlevel
        obtain ⟨os', us', heq, hopened', hopens, hleft⟩ :=
          hopened.reduce hle (by omega) (hopened.opens (by omega)) hoperand
        rw [Nat.max_eq_right hone] at hleft
        have hsign := Phase.Begun.operand (.mk hpurpose (.binary hopened' hopens hleft hlevel))
        refine (h.append hne [t]).goto ?_
        rw [List.append_assoc hs, heq]
        simpa using hsign
      · next hlevel =>
        obtain ⟨os', us', heq, hopened', hopens, hvalue⟩ :=
          hopened.reduce (Nat.zero_le 6) (by omega) (hopened.opens (by omega)) hoperand
        rw [List.append_assoc hs os us, heq, ← List.append_assoc hs os' us'] at h hne ⊢
        exact Inside.close (.mk hpurpose hopened') hopens hvalue h hne hk hlevel

/-! ### Steps -/

/-- A name that has to come either does, or the reader stops. -/
theorem nameMove_sound {kinds : List TokenKind} {what : Expectation} {next : String → Move}
    (h : t.kind ∈ kinds → (next t.text).Sound ts t) : (nameMove kinds what t next).Sound ts t := by
  unfold nameMove
  split
  · next hk => exact h hk
  · trivial

/-- A sign that has to come either does, or the reader stops. -/
theorem signMove_sound {kind : TokenKind} {what : Expectation} {next : Move}
    (h : t.kind = kind → next.Sound ts t) : (signMove kind what t next).Sound ts t := by
  unfold signMove
  split
  · next hk => exact h hk
  · trivial

section Phases

variable {context : Context} {opening word : Token} {hs : List Token}

/-- Behind the `(` of a call: its end, or an argument. -/
theorem Inside.argumentOrEnd {callee : Node}
    (h : Inside before blocks front (hs ++ us ++ [opening] ++ [t])) (hcontext : context.Begun hs)
    (hcallee : Derives (.expr 8 callee) us) (ho : opening.kind = .leftParen) :
    (step ⟨before, blocks, .argumentOrEnd callee opening.line context⟩ t).Sound
      (front ++ (hs ++ us ++ [opening])) t := by
  simp only [step]
  split
  · next hc =>
    have hcall := Phase.Begun.afterOperand hcontext (.call (Nat.le_refl 8) hcallee ho .noItems hc)
    exact h.goto (by simpa using hcall)
  · refine h.operand ?_
    rw [List.append_assoc]
    exact hcontext.push fun os hos => .arguments hos hcallee ho .none

/-- Behind the `[` of an array: its end, or an element. -/
theorem Inside.elementOrEnd (h : Inside before blocks front (hs ++ [opening] ++ [t]))
    (hcontext : context.Begun hs) (ho : opening.kind = .leftBracket) :
    (step ⟨before, blocks, .elementOrEnd opening.line context⟩ t).Sound
      (front ++ (hs ++ [opening])) t := by
  simp only [step]
  split
  · next hc =>
    have harray := Phase.Begun.afterOperand hcontext (.array ho .noItems hc)
    exact h.goto (by simpa using harray)
  · exact h.operand (hcontext.push fun os hos => .elements hos ho .none)

/-- Behind the `{` of an object: its end, or a key. -/
theorem Inside.keyOrEnd (h : Inside before blocks front (hs ++ [opening] ++ [t]))
    (hcontext : context.Begun hs) (ho : opening.kind = .leftBrace) :
    (step ⟨before, blocks, .keyOrEnd opening.line context⟩ t).Sound
      (front ++ (hs ++ [opening])) t := by
  simp only [step]
  split
  · next hc =>
    have hobject := Phase.Begun.afterOperand hcontext (.object ho .noProperties hc)
    exact h.goto (by simpa using hobject)
  · refine nameMove_sound fun hkey => ?_
    have hcolon := Phase.Begun.propertyColon hcontext ho .none (by simpa using hkey)
    exact h.goto (by simpa using hcolon)

/-- Behind the `(` of a function: the end of its parameters, or the first of them. -/
theorem Inside.parameterOrEnd {name : Token}
    (h : Inside before blocks front ([word, name, opening] ++ [t])) (hword : word.kind = .fnWord)
    (hname : name.kind = .identifier) (ho : opening.kind = .leftParen) :
    (step ⟨before, blocks, .parameterOrEnd name.text word.line⟩ t).Sound
      (front ++ [word, name, opening]) t := by
  simp only [step]
  split
  · next hc => exact h.goto (.openBlock (.functionBody hword hname ho .none hc))
  · exact nameMove_sound fun hparam =>
      h.goto (.afterParameter hword hname ho .none (List.mem_singleton.1 hparam))

/-- Behind a parameter: another one, or the end of them. -/
theorem Inside.afterParameter {params : List String} {name param : Token}
    (h : Inside before blocks front (word :: name :: opening :: (ts ++ [param]) ++ [t]))
    (hword : word.kind = .fnWord) (hname : name.kind = .identifier)
    (ho : opening.kind = .leftParen) (hbefore : ParametersBefore params ts)
    (hparam : param.kind = .identifier) :
    (step ⟨before, blocks, .afterParameter name.text (param.text :: params) word.line⟩ t).Sound
      (front ++ word :: name :: opening :: (ts ++ [param])) t := by
  simp only [step]
  split
  · next hcomma =>
    have hnext := Phase.Begun.parameter hword hname ho (hbefore.more hparam hcomma)
    exact h.goto (by simpa using hnext)
  · refine signMove_sound fun hc => ?_
    have hblock := Phase.Begun.openBlock
      (.functionBody hword hname ho (hbefore.parameters (.last hparam)) hc)
    exact h.goto (by simpa using hblock)

/-- Behind the first block of an `if`: an `else`, or what follows the whole statement. -/
theorem Inside.afterThen {chain : List OpenIf} {condition thenPart : Node}
    (h : Inside before blocks front (hs ++ word :: (ts ++ us))) (hchain : IfsBefore chain hs)
    (hword : word.kind = .ifWord) (hcondition : Derives (.expr 1 condition) ts)
    (hthen : Stands (.block thenPart) us) :
    (step ⟨before, blocks, .afterThen chain condition thenPart word.line⟩ t).Sound
      (front ++ (hs ++ word :: (ts ++ us))) t := by
  simp only [step]
  split
  · next helse =>
    have hchain' := hchain.more hword hcondition hthen helse
    exact (h.append (by simp) [t]).goto (.afterElse (by simpa using hchain'))
  · have hconditional := hchain.conditional (.branch hword hcondition hthen)
    refine Settled.statement (h.settled.finish h.follows (.conditional hconditional)) ?_
    intro helse last hlast
    obtain rfl := Option.some.inj hlast
    exact hconditional.follows_conditional helse

/-- Behind `return`: the end of the statement, or a value. -/
theorem Inside.returnValue (h : Inside before blocks front [word]) (hword : word.kind = .returnWord) :
    (step ⟨before, blocks, .returnValue word.line⟩ t).Sound (front ++ [word]) t := by
  simp only [step]
  split
  · next hend =>
    refine Settled.statement (h.settled.finish h.follows (.returningNothing hword)) ?_
    intro helse last hlast
    obtain rfl := Option.some.inj hlast
    exact hend
  · exact (h.append (by simp) [t]).operand (.first (.returnValue hword))

end Phases

/-- **One token.** From a state that agrees with the tokens before, a token leads to one that agrees
with it as well, or it is the end of the program that the tokens stand for. -/
theorem step_sound (h : s.Reached ts) : (step s t).Sound ts t := by
  cases h with
  | between h hclosed =>
    exact Settled.statement h fun helse last hlast => hclosed last hlast t helse
  | @within before blocks phase front part h hne hphase =>
    have h' : Inside before blocks front (part ++ [t]) := h.append hne [t]
    cases hphase with
    | operand hcontext => exact h'.operand hcontext
    | afterOperand hcontext hoperand => exact Inside.afterOperand hcontext hoperand h hne
    | argumentOrEnd hcontext hcallee ho => exact h'.argumentOrEnd hcontext hcallee ho
    | elementOrEnd hcontext ho => exact h'.elementOrEnd hcontext ho
    | keyOrEnd hcontext ho => exact h'.keyOrEnd hcontext ho
    | key hcontext ho hbefore =>
      simp only [step]
      refine nameMove_sound fun hkey => ?_
      have hcolon := Phase.Begun.propertyColon hcontext ho hbefore (by simpa using hkey)
      exact h'.goto (by simpa using hcolon)
    | propertyColon hcontext ho hbefore hkey =>
      refine signMove_sound fun hcolon => ?_
      have hvalue := Phase.Begun.operand (hcontext.push fun os hos =>
        .property hos ho hbefore hkey hcolon)
      exact h'.goto (by simpa using hvalue)
    | templateName hcontext ho =>
      simp only [step]
      refine nameMove_sound fun hname => ?_
      have hend := Phase.Begun.templateEnd hcontext ho (List.mem_singleton.1 hname)
      exact h'.goto (by simpa using hend)
    | templateEnd hcontext ho hname =>
      refine signMove_sound fun hc => ?_
      have htemplate := Phase.Begun.afterOperand hcontext (.template ho hname hc)
      exact h'.goto (by simpa using htemplate)
    | bindingName hword =>
      simp only [step]
      exact nameMove_sound fun hname => h'.goto (.bindingSign hword (List.mem_singleton.1 hname))
    | bindingSign hword hname =>
      exact signMove_sound fun hsign =>
        h'.goto (.operand (.first (.bindingValue hword hname hsign)))
    | functionName hword =>
      simp only [step]
      exact nameMove_sound fun hname =>
        h'.goto (.openParameters hword (List.mem_singleton.1 hname))
    | openParameters hword hname =>
      exact signMove_sound fun ho => h'.goto (.parameterOrEnd hword hname ho)
    | parameterOrEnd hword hname ho => exact h'.parameterOrEnd hword hname ho
    | parameter hword hname ho hbefore =>
      simp only [step]
      exact nameMove_sound fun hparam =>
        h'.goto (.afterParameter hword hname ho hbefore (List.mem_singleton.1 hparam))
    | afterParameter hword hname ho hbefore hparam =>
      exact h'.afterParameter hword hname ho hbefore hparam
    | loopVariable hword =>
      simp only [step]
      exact nameMove_sound fun hitem => h'.goto (.inWord hword (List.mem_singleton.1 hitem))
    | inWord hword hitem =>
      simp only [step]
      split
      · next hin => exact h'.goto (.operand (.first (.forSource hword hitem hin)))
      · trivial
    | openBlock huse => exact h.block hne huse
    | afterThen hchain hword hcondition hthen => exact h.afterThen hchain hword hcondition hthen
    | afterElse hchain =>
      simp only [step]
      split
      · next hword => exact h'.goto (.operand (.first (.ifCondition hchain hword)))
      · exact h.block hne (.elsePart hchain)
    | returnValue hword => exact h.returnValue hword

/-- What is read to the end, from a state that agrees with the tokens before, stands for the
program. -/
theorem run_sound {limit : Nat} {program : Program} (h : s.Reached ts)
    (hrun : run limit s us = .program program) :
    ∃ front last back, us = front ++ last :: back ∧ last.kind = .endOfInput ∧
      Stands (.statements program.body) (ts ++ front) := by
  induction us generalizing s ts with
  | nil => cases hrun
  | cons t us ih =>
    have hsound := step_sound (t := t) h
    rw [run] at hrun
    split at hrun
    · next program' hstep =>
      rw [hstep] at hsound
      cases hrun
      exact ⟨[], t, us, rfl, hsound.1, by simpa using hsound.2⟩
    · cases hrun
    · next next hstep =>
      rw [hstep] at hsound
      split at hrun
      · cases hrun
      · obtain ⟨front, last, back, rfl, hlast, hstands⟩ := ih hsound hrun
        exact ⟨t :: front, last, back, rfl, hlast, by simpa using hstands⟩

/-- **What is accepted is derived.** The tokens of a program, up to the end of the input, stand for
it. -/
theorem stands_of_run {limit : Nat} {program : Program}
    (hrun : run limit start us = .program program) :
    ∃ front last back, us = front ++ last :: back ∧ last.kind = .endOfInput ∧
      Stands (.statements program.body) front := by
  have hsettled : Settled [] [] ([] ++ []) := .mk .none .noStatements
  exact run_sound (.between hsettled (by simp)) hrun

end PageScript.Reader
