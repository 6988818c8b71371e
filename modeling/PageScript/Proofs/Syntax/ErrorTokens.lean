import PageScript.Proofs.Lexing.Counting
import PageScript.Proofs.Syntax.Blame
import PageScript.Proofs.Syntax.Completion

/-!
What is said of an error token at which the reading fails. A token that can only be an operand is
read as one, or refused for want of something else, and the tokens before it decide which. So an
error token is described as such exactly where an expression may begin. Everywhere else the message
is the one that the word `true` would get in its place.
-/
namespace PageScript
namespace Reader

/-! ### Tokens that can only be operands -/

/-- Kinds of tokens that the grammar has no place for but that of an operand, and errors. -/
def valueKinds : List TokenKind := [.trueWord, .falseWord, .number, .error]

/-- Whether a move treats all tokens of these kinds alike: it reads them as operands, nested no
deeper than `limit`, or refuses them for want of one and the same thing. -/
def TreatsAlike (limit : Nat) (move : Token → Move) : Prop :=
  (∃ (s : State) (context : Context), s.blocksWeight + context.weight ≤ limit ∧
    ∀ t : Token, t.kind ∈ valueKinds → move t = operandMove s context t) ∨
  ∃ what, ∀ t : Token, t.kind ∈ valueKinds → move t = .fail (.expected what)

theorem kind_ne {t : Token} (ht : t.kind ∈ valueKinds) {kind : TokenKind}
    (h : kind ∉ valueKinds) : t.kind ≠ kind := by
  rintro rfl
  exact h ht

theorem kind_not_mem {t : Token} (ht : t.kind ∈ valueKinds) {kinds : List TokenKind}
    (h : ∀ kind ∈ kinds, kind ∉ valueKinds) : t.kind ∉ kinds := fun hk => h _ hk ht

theorem level?_eq_none {t : Token} (ht : t.kind ∈ valueKinds) : level? t.kind = none := by
  have hall : ∀ kind ∈ valueKinds, level? kind = none := by decide
  exact hall _ ht

namespace TreatsAlike
variable {limit : Nat} {move : Token → Move}

theorem of_expected {what : Expectation}
    (h : ∀ t : Token, t.kind ∈ valueKinds → move t = .fail (.expected what)) :
    TreatsAlike limit move := .inr ⟨what, h⟩

theorem of_operand {s : State} {context : Context} (hle : s.blocksWeight + context.weight ≤ limit)
    (h : ∀ t : Token, t.kind ∈ valueKinds → move t = operandMove s context t) :
    TreatsAlike limit move := .inl ⟨s, context, hle, h⟩

theorem mono {limit' : Nat} (h : TreatsAlike limit move) (hle : limit ≤ limit') :
    TreatsAlike limit' move := by
  rcases h with ⟨s, context, hlimit, h⟩ | h
  · exact .inl ⟨s, context, Nat.le_trans hlimit hle, h⟩
  · exact .inr h

theorem congr {move' : Token → Move} (h : TreatsAlike limit move)
    (heq : ∀ t : Token, t.kind ∈ valueKinds → move' t = move t) : TreatsAlike limit move' := by
  rcases h with ⟨s, context, hlimit, h⟩ | ⟨what, h⟩
  · exact .of_operand hlimit fun t ht => (heq t ht).trans (h t ht)
  · exact .of_expected fun t ht => (heq t ht).trans (h t ht)

/-- One kind that is not among these may be treated in another way. -/
theorem ite {kind : TokenKind} {other : Token → Move} (hkind : kind ∉ valueKinds)
    (h : TreatsAlike limit move) :
    TreatsAlike limit fun t => if t.kind = kind then other t else move t :=
  h.congr fun _ ht => if_neg (kind_ne ht hkind)

variable (s : State)

theorem statement : TreatsAlike s.blocksWeight (statementMove s) := by
  refine .inl ⟨s, ⟨[], .statement⟩, Nat.le_refl _, fun t ht => ?_⟩
  simp only [valueKinds, List.mem_cons, List.not_mem_nil, or_false] at ht
  unfold statementMove
  split <;> simp_all

theorem block (use : BlockUse) : TreatsAlike limit (blockMove s use) :=
  .of_expected fun _ ht => if_neg (kind_ne ht (by decide))

theorem purpose (value : Node) (purpose : Purpose) :
    TreatsAlike s.blocksWeight fun t => purposeMove s value t purpose := by
  rcases purposeMove_cases value purpose with ⟨node, h⟩ | ⟨use, -, h⟩
  · exact (statement (s.finish node)).congr fun t _ => h s t
  · exact (block s use).congr fun t _ => h s t

theorem close (value : Node) (context : Context) :
    TreatsAlike s.blocksWeight (closeMove s value context) := by
  unfold closeMove
  split
  · exact ite (by decide) (.of_expected fun _ _ => rfl)
  · exact ite (by decide) (ite (by decide) (.of_expected fun _ _ => rfl))
  · exact ite (by decide) (ite (by decide) (.of_expected fun _ _ => rfl))
  · exact ite (by decide) (ite (by decide) (.of_expected fun _ _ => rfl))
  · exact purpose s value context.purpose

theorem afterOperand (operand : Node) (context : Context) :
    TreatsAlike s.blocksWeight (afterOperandMove s operand context) :=
  (close s _ _).congr fun _ ht =>
    afterOperandMove_close (kind_ne ht (by decide)) (level?_eq_none ht) ..

/-- **One token.** Whatever the reader waits for, it treats these tokens alike. -/
theorem step : TreatsAlike s.weight (step s) := by
  obtain ⟨before, blocks, phase⟩ := s
  have hblocks : State.blocksWeight ⟨before, blocks, phase⟩ ≤
      State.weight ⟨before, blocks, phase⟩ := Nat.le_add_right _ _
  have hname {t : Token} (ht : t.kind ∈ valueKinds) : t.kind ∉ [.identifier] :=
    kind_not_mem ht (by decide)
  have hkey {t : Token} (ht : t.kind ∈ valueKinds) : t.kind ∉ [.identifier, .string] :=
    kind_not_mem ht (by decide)
  cases phase with
  | statement => exact statement _
  | operand context => exact .of_operand (Nat.le_refl _) fun _ _ => rfl
  | afterOperand operand context => exact (afterOperand _ operand context).mono hblocks
  | argumentOrEnd callee line context =>
    exact ite (by decide) (.of_operand (Nat.le_of_eq (congrArg _ (Context.weight_cons ..)))
      fun _ _ => rfl)
  | elementOrEnd line context =>
    exact ite (by decide) (.of_operand (Nat.le_of_eq (congrArg _ (Context.weight_cons ..)))
      fun _ _ => rfl)
  | keyOrEnd line context => exact ite (by decide) (.of_expected fun _ ht => if_neg (hkey ht))
  | key before line context => exact .of_expected fun _ ht => if_neg (hkey ht)
  | propertyColon before key line context =>
    exact .of_expected fun _ ht => if_neg (kind_ne ht (by decide))
  | templateName line context => exact .of_expected fun _ ht => if_neg (hname ht)
  | templateEnd word line context =>
    exact .of_expected fun _ ht => if_neg (kind_ne ht (by decide))
  | bindingName line => exact .of_expected fun _ ht => if_neg (hname ht)
  | bindingSign word line =>
    exact .of_expected fun _ ht => if_neg (kind_ne ht (by decide))
  | functionName line => exact .of_expected fun _ ht => if_neg (hname ht)
  | openParameters word line =>
    exact .of_expected fun _ ht => if_neg (kind_ne ht (by decide))
  | parameterOrEnd word line => exact ite (by decide) (.of_expected fun _ ht => if_neg (hname ht))
  | parameter word before line => exact .of_expected fun _ ht => if_neg (hname ht)
  | afterParameter word before line =>
    exact ite (by decide) (.of_expected fun _ ht => if_neg (kind_ne ht (by decide)))
  | loopVariable line => exact .of_expected fun _ ht => if_neg (hname ht)
  | inWord item line =>
    exact .of_expected fun _ ht => if_neg fun h => kind_ne ht (by decide) h.1
  | openBlock use => exact block _ use
  | afterThen chain condition thenPart line =>
    exact ite (by decide) ((statement _).mono hblocks)
  | afterElse chain => exact ite (by decide) (block _ _)
  | returnValue line =>
    refine .inl ⟨⟨before, blocks, .returnValue line⟩, ⟨[], .returnValue line⟩, Nat.le_refl _,
      fun t ht => if_neg ?_⟩
    rintro (hk | hk)
    · exact kind_ne ht (by decide) hk
    · exact kind_ne ht (by decide) hk

end TreatsAlike
end Reader

/-! ### What is said of an error token -/

/-- The word `true` at the place of a token. -/
def Token.asTrue (t : Token) : Token := { t with kind := .trueWord, text := "true" }

/-- No message for want of something is one for an error token. -/
theorem Expectation.message_ne_describe (what : Expectation) (text : String) :
    what.message ≠ describeErrorText text := by
  have hwhat : what.message.toList.head? = some 'E' := by cases what <;> decide
  have htext : (describeErrorText text).toList.head? = some 'U' := by
    have hstray : ("Unexpected character: " ++ text).toList.head? = some 'U' := by
      rw [String.toList_append]
      rfl
    unfold describeErrorText
    split
    · split
      · decide
      · exact hstray
    · exact hstray
  intro heq
  rw [heq, htext] at hwhat
  cases hwhat

namespace Program
open Reader

variable {front : List Token} {s : State}

/-- Tokens that lead to a state within the limit begin a program. -/
theorem begins_of_steps (hsteps : steps start front = some s) (hweight : s.weight ≤ nestingLimit)
    (hrun : ∀ limit, nestingLimit ≤ limit → ∀ us, run limit start (front ++ us) = run limit s us) :
    Begins front := by
  obtain ⟨rest, program, hrest⟩ := completable s
  have haccepted {limit : Nat} (hle : nestingLimit ≤ limit)
      (hroom : s.weight + blockWeight ≤ limit) :
      run limit start (front ++ rest) = .program program := by
    rw [hrun limit hle]
    exact run_mono hroom hrest (Outcome.not_tooDeep_program program)
  exact ⟨s, rest, program, hsteps, haccepted (Nat.le_refl _),
    fun limit hle => haccepted (by omega) (by omega)⟩

/-- Tokens of which the last one is refused begin no program. -/
theorem excludes_of_fail {t : Token} {fault : SyntaxFault} (hstep : step s t = .fail fault)
    (hrun : ∀ limit, nestingLimit ≤ limit → ∀ us, run limit start (front ++ us) = run limit s us)
    (hfault : fault ≠ .nestingTooDeep) : Excludes (front ++ [t]) ⟨fault, t.line, t.column⟩ := by
  intro rest
  have herror : ofTokens (front ++ [t] ++ rest) = .error ⟨fault, t.line, t.column⟩ := by
    rw [List.append_assoc, ofTokens, hrun nestingLimit (Nat.le_refl _), List.singleton_append, run,
      hstep]
  refine ⟨herror, fun limit => ?_⟩
  rcases Nat.le_total limit nestingLimit with hle | hle
  · exact (run_eq_or_tooDeep hle start _).imp_left fun heq => heq.trans herror
  · exact .inl (run_mono hle herror (Outcome.not_tooDeep_error hfault))

theorem Begins.not_excludes {e : SyntaxError} (h : Begins front) : ¬ Excludes front e := by
  intro hnone
  obtain ⟨-, rest, program, -, -, hprogram⟩ := h
  have hrun := hprogram _ (Nat.le_refl _)
  rcases (hnone rest).2 (nestingLimit + blockWeight) with herror | hdeep
  · rw [hrun] at herror
    cases herror
  · rw [hrun] at hdeep
    exact Outcome.not_tooDeep_program program hdeep

theorem ofTokens_of_error {source : String} {e : SyntaxError} (h : ofSource source = .error e) :
    ofTokens (Token.ofSource source) = .error e := by
  unfold ofSource at h
  split at h
  · cases h
  · next hrun =>
    cases h
    exact hrun
  · next hrun => exact absurd hrun (run_ne_unended _ _ _ (Token.exists_endOfInput source))

/-- **Error tokens.** A source that fails at an error token is told what is wrong with that token if
and only if an expression may begin there: the word `true` in its place would be read on. Otherwise
something else has to come there, and the message asks for that, as it would if the word `true`
stood in its place. -/
theorem message_of_error_token {source : String} {e : SyntaxError} {t : Token}
    {before after : List Token} (h : ofSource source = .error e)
    (hsource : Token.ofSource source = before ++ t :: after) (hk : t.kind = .error)
    (hline : e.line = t.line) (hcolumn : e.column = t.column) :
    (e.fault.message = describeErrorText t.text ↔ Begins (before ++ [t.asTrue])) ∧
      (¬ Begins (before ++ [t.asTrue]) →
        ∃ what, e.fault = .expected what ∧ Excludes (before ++ [t.asTrue]) e) := by
  obtain ⟨before', t', after', s, hsource', hsteps, hweight, hrun, hline', hcolumn', hstep⟩ :=
    exists_fault (ofTokens_of_error h) (Nat.zero_le _)
  -- The reading fails at `t`: no other token stands at its position.
  obtain ⟨rfl, rfl, rfl⟩ :=
    Token.split_unique hsource hsource' (hline ▸ hline') (hcolumn ▸ hcolumn')
  have hstep : step s t = .fail e.fault := by
    rcases hstep with hstep | ⟨-, next, hnext⟩
    · exact hstep
    · exact absurd hk (kind_ne_error_of_next hnext)
  have htrue : t.asTrue.kind ∈ valueKinds := by simp [Token.asTrue, valueKinds]
  have herror : t.kind ∈ valueKinds := by simp [hk, valueKinds]
  rcases TreatsAlike.step s with ⟨s', context, hle, hoperand⟩ | ⟨what, hexpected⟩
  · have hfault : e.fault = .lexical t.text := by
      have hlexical : operandMove s' context t = .fail (.lexical t.text) := by
        simp only [operandMove, hk]
      exact Move.fail.inj (hstep.symm.trans ((hoperand t herror).trans hlexical))
    have hnext : step s t.asTrue =
        s'.goto (.afterOperand (.literal (.bool true) t.line) context) := hoperand _ htrue
    have hbegins : Begins (before ++ [t.asTrue]) := by
      refine begins_of_steps ((steps_append hsteps _).trans (steps_cons hnext _))
        (Nat.le_trans hle hweight) fun limit hlimit us => ?_
      rw [List.append_assoc, hrun limit hlimit, List.singleton_append, run_cons hnext, if_neg]
      exact Nat.not_lt.2 (Nat.le_trans (Nat.le_trans hle hweight) hlimit)
    exact ⟨⟨fun _ => hbegins, fun _ => by rw [hfault]; rfl⟩, fun hnot => absurd hbegins hnot⟩
  · have hfault : e.fault = .expected what :=
      Move.fail.inj (hstep.symm.trans (hexpected t herror))
    have hexcludes : Excludes (before ++ [t.asTrue]) e := by
      have hnone := excludes_of_fail (hexpected _ htrue) hrun (by simp)
      rwa [← hfault, show t.asTrue.line = e.line from hline.symm,
        show t.asTrue.column = e.column from hcolumn.symm] at hnone
    refine ⟨⟨fun hmessage => ?_, fun hbegins => absurd hexcludes hbegins.not_excludes⟩,
      fun _ => ⟨what, hfault, hexcludes⟩⟩
    rw [hfault] at hmessage
    exact absurd hmessage (what.message_ne_describe t.text)

/-- The same character among the arguments of a call, where it is described, and in the place of a
name, where a name is asked for. -/
theorem message_of_error_token_places :
    let call : List Token := [⟨.identifier, "f", 1, 1⟩, ⟨.leftParen, "(", 1, 2⟩,
      ⟨.number, "1", 1, 3⟩, ⟨.comma, ",", 1, 4⟩]
    let stray : Token := ⟨.error, "@", 1, 6⟩
    let closing : List Token := [⟨.rightParen, ")", 1, 7⟩, ⟨.endOfInput, "", 1, 8⟩]
    let word : List Token := [⟨.letWord, "let", 1, 1⟩]
    let stray' : Token := ⟨.error, "@", 1, 5⟩
    (ofSource "f(1, @)" = .error ⟨.lexical "@", 1, 6⟩ ∧
      Token.ofSource "f(1, @)" = call ++ stray :: closing ∧ Begins (call ++ [stray.asTrue])) ∧
    ofSource "let @" = .error ⟨.expected .variableName, 1, 5⟩ ∧
      Token.ofSource "let @" = word ++ [stray', ⟨.endOfInput, "", 1, 6⟩] ∧
      Excludes (word ++ [stray'.asTrue]) ⟨.expected .variableName, 1, 5⟩ := by
  intro call stray closing word stray'
  have hcall : ofSource "f(1, @)" = .error ⟨.lexical "@", 1, 6⟩ := by
    clear stray' word closing stray call
    with_unfolding_all rfl
  have hword : ofSource "let @" = .error ⟨.expected .variableName, 1, 5⟩ := by
    clear stray' word closing stray call
    with_unfolding_all rfl
  have hcallTokens : Token.ofSource "f(1, @)" = call ++ stray :: closing := by decide +kernel
  have hwordTokens : Token.ofSource "let @" = word ++ [stray', ⟨.endOfInput, "", 1, 6⟩] := by
    decide +kernel
  obtain ⟨hdescribed, -⟩ := message_of_error_token hcall hcallTokens rfl rfl rfl
  obtain ⟨hmissing, hasked⟩ := message_of_error_token hword hwordTokens rfl rfl rfl
  have hnot : ¬ Begins (word ++ [stray'.asTrue]) := fun h => absurd (hmissing.2 h) (by decide)
  obtain ⟨what, hfault, hexcludes⟩ := hasked hnot
  exact ⟨⟨hcall, hcallTokens, hdescribed.1 (by decide)⟩, hword, hwordTokens, hexcludes⟩

/-- An error token in the place of a name is not described by the message. -/
theorem not_forall_described :
    ¬ ∀ source e, ofSource source = .error e → ∀ t ∈ Token.ofSource source, t.kind = .error →
      e.line = t.line → e.column = t.column → e.fault.message = describeErrorText t.text := by
  intro hall
  have h : ofSource "let @" = .error ⟨.expected .variableName, 1, 5⟩ := by
    clear hall
    with_unfolding_all rfl
  have ht : ⟨.error, "@", 1, 5⟩ ∈ Token.ofSource "let @" := by decide +kernel
  exact absurd (hall _ _ h _ ht rfl rfl rfl) (by decide)

end Program
end PageScript
