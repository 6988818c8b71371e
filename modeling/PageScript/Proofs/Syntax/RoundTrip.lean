import PageScript.Proofs.Number.Decimal
import PageScript.Proofs.Syntax.Lines
import PageScript.Proofs.Syntax.Reading
import PageScript.Proofs.Syntax.Writing

/-!
Written expressions are read back: the tokens of an expression are those of its text, the grammar
derives the expression from them, and the reader follows the grammar.
-/
namespace PageScript
namespace Node
open Reader Lexeme

/-! ### The text has the tokens -/

theorem spells_repr (n : Nat) : Spells .number n.repr.toList n.repr.toList := by
  rw [Nat.toList_repr]
  refine .whole Nat.toDigits_ne_nil fun c hc => ?_
  have hdigit : c.isDigit := Nat.isDigit_of_mem_toDigits (by omega) (by omega) hc
  rw [isDigit_iff]
  exact Numeral.toNat_of_isDigit hdigit

/-- Tokens that are what their text is scanned as. -/
def Spelled (quote : String → Char) (contents : List Token.Content) : Prop :=
  ∀ c ∈ contents, Spells c.1 c.2.toList (Lexeme.written quote c).toList

variable {quote : String → Char}

theorem Spelled.nil : Spelled quote [] := by
  intro c hc
  cases hc

theorem Spelled.append {front rest : List Token.Content} (hfront : Spelled quote front)
    (hrest : Spelled quote rest) : Spelled quote (front ++ rest) := by
  intro c hc
  rcases List.mem_append.1 hc with hc | hc
  · exact hfront c hc
  · exact hrest c hc

theorem Spelled.cons {kind : TokenKind} {text : String} {rest : List Token.Content}
    (hk : kind ≠ .string) (h : Spells kind text.toList text.toList) (hrest : Spelled quote rest) :
    Spelled quote ((kind, text) :: rest) := by
  intro c hc
  rcases List.mem_cons.1 hc with rfl | hc
  · rw [written_of_ne hk]
    exact h
  · exact hrest c hc

/-- A sign or a keyword before spelled tokens. -/
theorem Spelled.fixed {kind : TokenKind} {text : String} {rest : List Token.Content}
    (h : (kind, text) ∈ fixedContents) (hrest : Spelled quote rest) :
    Spelled quote ((kind, text) :: rest) :=
  hrest.cons (kind_of_mem_fixedContents h).1 (spells_fixed h)

theorem Spelled.name {name : String} (h : isName name) {rest : List Token.Content}
    (hrest : Spelled quote rest) : Spelled quote ((.identifier, name) :: rest) := by
  unfold isName at h
  split at h
  · next c cs hname =>
    simp only [Bool.and_eq_true, List.all_eq_true, beq_iff_eq] at h
    obtain ⟨⟨hc, hcs⟩, hkind⟩ := h
    refine hrest.cons (by decide) ?_
    rw [← hkind]
    exact spells_word hname hc hcs
  · cases h

theorem Spelled.grouped {needed : Bool} {contents : List Token.Content}
    (h : Spelled quote contents) : Spelled quote (grouped needed contents) := by
  unfold Node.grouped
  split
  · exact .fixed (by decide) (h.append (.fixed (by decide) .nil))
  · exact h

theorem binaryKind_fixed {operator : String} (h : (binaryOperators.lookup operator).isSome) :
    (binaryKind operator, operator) ∈ fixedContents := by
  obtain ⟨kind, hkind⟩ := Option.isSome_iff_exists.1 h
  have hall : ∀ p ∈ binaryOperators, (p.2, p.1) ∈ fixedContents := by decide
  rw [binaryKind, hkind]
  exact hall _ (mem_of_lookup hkind)

theorem unaryKind_fixed {operator : String} (h : (unaryOperators.lookup operator).isSome) :
    (unaryKind operator, operator) ∈ fixedContents := by
  obtain ⟨kind, hkind⟩ := Option.isSome_iff_exists.1 h
  have hall : ∀ p ∈ unaryOperators, (p.2, p.1) ∈ fixedContents := by decide
  rw [unaryKind, hkind]
  exact hall _ (mem_of_lookup hkind)

theorem Spelled.string (hquote : ∀ text, isQuote (quote text)) {text : String}
    (h : isWritableText text) {rest : List Token.Content} (hrest : Spelled quote rest) :
    Spelled quote ((.string, text) :: rest) := by
  intro c hc
  rcases List.mem_cons.1 hc with rfl | hc
  · exact spells_written_string (hquote text) (by simpa [isWritableText] using h)
  · exact hrest c hc

theorem spelled_key (hquote : ∀ text, isQuote (quote text)) {key : String}
    (h : isWritableText key) {rest : List Token.Content} (hrest : Spelled quote rest) :
    Spelled quote (keyContent key :: rest) := by
  unfold keyContent
  split
  · next hname => exact hrest.name hname
  · exact hrest.string hquote h

theorem spelled_literal (hquote : ∀ text, isQuote (quote text)) {value : Literal}
    (h : isWritableLiteral value) : Spelled quote [literalContent value] := by
  unfold isWritableLiteral at h
  split at h
  · next value =>
    cases value
    · exact .fixed (by decide) .nil
    · exact .fixed (by decide) .nil
  · next n =>
    simp only [Bool.and_eq_true, decide_eq_true_eq] at h
    obtain ⟨m, rfl⟩ := Int.eq_ofNat_of_zero_le h.1
    exact .cons (by decide) (spells_repr m) .nil
  · next text => exact .string hquote h .nil
  · cases h

mutual

/-- Every token of a writable expression is what its text is scanned as. -/
theorem spelled_contents (hquote : ∀ text, isQuote (quote text)) (nested : Bool) :
    ∀ (node : Node) (level : Nat), node.isWritable → Spelled quote (node.contents nested level)
  | .binary operator left right _, level, h => by
    simp only [isWritable, Bool.and_eq_true] at h
    obtain ⟨⟨hoperator, hleft⟩, hright⟩ := h
    exact ((spelled_contents hquote nested left _ hleft).append
      (.fixed (binaryKind_fixed hoperator) (spelled_contents hquote nested right _ hright))).grouped
  | .unary operator operand _, level, h => by
    simp only [isWritable, Bool.and_eq_true] at h
    exact (Spelled.fixed (unaryKind_fixed h.1) (spelled_contents hquote nested operand _ h.2)).grouped
  | .call callee args _, level, h => by
    simp only [isWritable, Bool.and_eq_true] at h
    exact (spelled_contents hquote nested callee 8 h.1).append
      (.fixed (by decide) ((spelled_contentsAll hquote nested args h.2).append (.fixed (by decide) .nil)))
  | .identifier name _, level, h => .name h .nil
  | .literal value _, level, h => spelled_literal hquote h
  | .array elements _, level, h =>
    .fixed (by decide) ((spelled_contentsAll hquote nested elements h).append (.fixed (by decide) .nil))
  | .object properties _, level, h =>
    .fixed (by decide)
      ((spelled_contentsProperties hquote nested properties h).append (.fixed (by decide) .nil))
  | .template name _, level, h => .fixed (by decide) (.name h (.fixed (by decide) .nil))

theorem spelled_contentsAll (hquote : ∀ text, isQuote (quote text)) (nested : Bool) :
    ∀ nodes : List Node, areWritable nodes → Spelled quote (contentsAll nested nodes)
  | [], _ => .nil
  | [node], h => by
    simp only [areWritable, Bool.and_eq_true] at h
    exact spelled_contents hquote nested node 1 h.1
  | node :: next :: rest, h => by
    rw [areWritable, Bool.and_eq_true] at h
    exact (spelled_contents hquote nested node 1 h.1).append
      (.fixed (by decide) (spelled_contentsAll hquote nested (next :: rest) h.2))

theorem spelled_contentsProperties (hquote : ∀ text, isQuote (quote text)) (nested : Bool) :
    ∀ properties : List (String × Node), haveWritable properties →
      Spelled quote (contentsProperties nested properties)
  | [], _ => .nil
  | [(key, value)], h => by
    simp only [haveWritable, Bool.and_eq_true] at h
    exact spelled_key hquote h.1.1 (.fixed (by decide) (spelled_contents hquote nested value 1 h.1.2))
  | (key, value) :: next :: rest, h => by
    rw [haveWritable, Bool.and_eq_true, Bool.and_eq_true] at h
    exact spelled_key hquote h.1.1 (.fixed (by decide)
      ((spelled_contents hquote nested value 1 h.1.2).append
        (.fixed (by decide) (spelled_contentsProperties hquote nested (next :: rest) h.2))))

end

/-! ### The grammar derives the tokens -/

theorem content_eq {t : Token} {kind : TokenKind} {text : String}
    (h : t.content = (kind, text)) : t.kind = kind ∧ t.text = text := by
  exact Prod.mk.inj h

theorem exists_bracket {ts : List Token} {left right : Token.Content}
    {contents : List Token.Content} (h : ts.map Token.content = left :: (contents ++ [right])) :
    ∃ opening inside closing, ts = opening :: (inside ++ [closing]) ∧ opening.content = left ∧
      inside.map Token.content = contents ∧ closing.content = right := by
  obtain ⟨opening, rest, rfl, hopening, hrest⟩ := List.map_eq_cons_iff.1 h
  obtain ⟨inside, last, rfl, hinside, hlast⟩ := List.map_eq_append_iff.1 hrest
  obtain ⟨closing, rfl, hclosing⟩ := List.map_eq_singleton_iff.1 hlast
  exact ⟨opening, inside, closing, rfl, hopening, hinside, hclosing⟩

/-- Whatever derives an expression at its own level also derives it in parentheses, where these are
needed. -/
theorem exists_derives_grouped {node : Node} {contents : List Token.Content} {level own : Nat}
    (hown : 1 ≤ own)
    (h : ∀ level ≤ own, ∀ ts : List Token, ts.map Token.content = contents →
      ∃ node', node'.unlined = node.unlined ∧ Derives (.expr level node') ts)
    {ts : List Token} (hts : ts.map Token.content = grouped (own < level) contents) :
    ∃ node', node'.unlined = node.unlined ∧ Derives (.expr level node') ts := by
  by_cases hneeded : own < level
  · simp only [grouped, hneeded, decide_true, if_true] at hts
    obtain ⟨opening, ts, closing, rfl, hopening, hts, hclosing⟩ := exists_bracket hts
    obtain ⟨node', hnode, hderives⟩ := h 1 hown ts hts
    exact ⟨node', hnode, .group (content_eq hopening).1 hderives (content_eq hclosing).1⟩
  · simp only [grouped, hneeded, decide_false, Bool.false_eq_true, if_false] at hts
    exact h level (by omega) ts hts

theorem level?_binaryKind {operator : String} (h : (binaryOperators.lookup operator).isSome) :
    level? (binaryKind operator) = some (binaryLevel operator) ∧ 1 ≤ binaryLevel operator := by
  obtain ⟨kind, hkind⟩ := Option.isSome_iff_exists.1 h
  have hall : ∀ p ∈ binaryOperators, ∃ held ∈ level? p.2, 1 ≤ held := by decide
  obtain ⟨held, hheld, hpos⟩ := hall _ (mem_of_lookup hkind)
  have heq : level? kind = some held := hheld
  simp [binaryLevel, binaryKind, hkind, heq, hpos]

theorem kind_unaryKind {operator : String} (h : (unaryOperators.lookup operator).isSome) :
    unaryKind operator = .notOp ∨ unaryKind operator = .minus := by
  obtain ⟨kind, hkind⟩ := Option.isSome_iff_exists.1 h
  have hall : ∀ p ∈ unaryOperators, p.2 = .notOp ∨ p.2 = .minus := by decide
  rw [unaryKind, hkind]
  exact hall _ (mem_of_lookup hkind)

theorem leaf?_literalContent {value : Literal} (h : isWritableLiteral value) {t : Token}
    (ht : t.content = literalContent value) : leaf? t = some (.literal value t.line) := by
  unfold isWritableLiteral at h
  split at h
  · next value =>
    cases value
    all_goals
      obtain ⟨hk, -⟩ := content_eq ht
      simp [leaf?, hk]
  · next n =>
    simp only [Bool.and_eq_true, decide_eq_true_eq] at h
    obtain ⟨m, rfl⟩ := Int.eq_ofNat_of_zero_le h.1
    obtain ⟨hk, htext⟩ := content_eq ht
    have hvalue : numberValue? t.text = some (.integer m) := by
      rw [htext]
      exact numberValue?_repr (lt_of_fitsText h.2)
    simp [leaf?, hk, hvalue]
  · next text =>
    obtain ⟨hk, htext⟩ := content_eq ht
    simp [leaf?, hk, htext]
  · cases h

theorem kind_keyContent {key : String} {t : Token} (ht : t.content = keyContent key) :
    (t.kind = .identifier ∨ t.kind = .string) ∧ t.text = key := by
  unfold keyContent at ht
  split at ht
  · exact ⟨.inl (content_eq ht).1, (content_eq ht).2⟩
  · exact ⟨.inr (content_eq ht).1, (content_eq ht).2⟩

mutual

/-- The grammar derives a writable expression, up to lines, from its tokens. -/
theorem exists_derives (nested : Bool) : ∀ (node : Node) (level : Nat), node.isWritable →
    level ≤ 8 → ∀ ts : List Token, ts.map Token.content = node.contents nested level →
      ∃ node', node'.unlined = node.unlined ∧ Derives (.expr level node') ts
  | .binary operator left right _, level, h, hlevel, ts, hts => by
    simp only [isWritable, Bool.and_eq_true] at h
    obtain ⟨⟨hoperator, hleft⟩, hright⟩ := h
    obtain ⟨hheld, hpos⟩ := level?_binaryKind hoperator
    have hle := level?_le hheld
    refine exists_derives_grouped hpos ?_ hts
    intro level' hlevel' ts hts
    obtain ⟨us, rest, rfl, hus, hrest⟩ := List.map_eq_append_iff.1 hts
    obtain ⟨sign, vs, rfl, hsign, hvs⟩ := List.map_eq_cons_iff.1 hrest
    obtain ⟨left', hleft', hderives⟩ := exists_derives nested left _ hleft (by omega) us hus
    obtain ⟨right', hright', hderives'⟩ := exists_derives nested right _ hright (by omega) vs hvs
    obtain ⟨hkind, htext⟩ := content_eq hsign
    refine ⟨_, ?_, .binary hlevel' hderives (hkind ▸ hheld) hderives'⟩
    simp only [unlined, hleft', hright', htext]
  | .unary operator operand _, level, h, hlevel, ts, hts => by
    simp only [isWritable, Bool.and_eq_true] at h
    obtain ⟨hoperator, hoperand⟩ := h
    refine exists_derives_grouped (by omega) ?_ hts
    intro level' hlevel' ts hts
    obtain ⟨sign, us, rfl, hsign, hus⟩ := List.map_eq_cons_iff.1 hts
    obtain ⟨operand', hoperand', hderives⟩ :=
      exists_derives nested operand _ hoperand (by split <;> omega) us hus
    obtain ⟨hkind, htext⟩ := content_eq hsign
    -- An operand in parentheses of its own may stand wherever one without them may.
    refine ⟨_, ?_, .unary hlevel' (hkind ▸ kind_unaryKind hoperator) (hderives.mono ?_)⟩
    · simp only [unlined, hoperand', htext]
    · split <;> omega
  | .call callee args _, level, h, hlevel, ts, hts => by
    simp only [isWritable, Bool.and_eq_true] at h
    obtain ⟨us, rest, rfl, hus, hrest⟩ := List.map_eq_append_iff.1 hts
    obtain ⟨opening, vs, closing, rfl, hopening, hvs, hclosing⟩ := exists_bracket hrest
    obtain ⟨callee', hcallee', hderives⟩ := exists_derives nested callee 8 h.1 (by omega) us hus
    obtain ⟨args', hargs', hderives'⟩ := exists_derives_items nested args h.2 vs hvs
    refine ⟨_, ?_, .call hlevel hderives (content_eq hopening).1 hderives' (content_eq hclosing).1⟩
    simp only [unlined, hcallee', hargs']
  | .identifier name _, level, h, hlevel, ts, hts => by
    obtain ⟨t, rfl, ht⟩ := List.map_eq_singleton_iff.1 hts
    obtain ⟨hkind, htext⟩ := content_eq ht
    refine ⟨.identifier name t.line, rfl, .leaf ?_⟩
    simp [leaf?, hkind, htext]
  | .literal value _, level, h, hlevel, ts, hts => by
    obtain ⟨t, rfl, ht⟩ := List.map_eq_singleton_iff.1 hts
    exact ⟨.literal value t.line, rfl, .leaf (leaf?_literalContent h ht)⟩
  | .array elements _, level, h, hlevel, ts, hts => by
    obtain ⟨opening, us, closing, rfl, hopening, hus, hclosing⟩ := exists_bracket hts
    obtain ⟨elements', helements', hderives⟩ := exists_derives_items nested elements h us hus
    refine ⟨_, ?_, .array (content_eq hopening).1 hderives (content_eq hclosing).1⟩
    simp only [unlined, helements']
  | .object properties _, level, h, hlevel, ts, hts => by
    obtain ⟨opening, us, closing, rfl, hopening, hus, hclosing⟩ := exists_bracket hts
    obtain ⟨properties', hproperties', hderives⟩ :=
      exists_derives_properties nested properties h us hus
    refine ⟨_, ?_, .object (content_eq hopening).1 hderives (content_eq hclosing).1⟩
    simp only [unlined, hproperties']
  | .template name _, level, h, hlevel, ts, hts => by
    have hbracket : ts.map Token.content =
        (.templateStart, "\x7b\x7b") :: ([(.identifier, name)] ++ [(.templateEnd, "\x7d\x7d")]) :=
      hts
    obtain ⟨opening, us, closing, rfl, hopening, hus, hclosing⟩ := exists_bracket hbracket
    obtain ⟨t, rfl, ht⟩ := List.map_eq_singleton_iff.1 hus
    obtain ⟨hkind, htext⟩ := content_eq ht
    refine ⟨_, ?_, .template (content_eq hopening).1 hkind (content_eq hclosing).1⟩
    simp only [unlined, htext]

theorem exists_derives_items (nested : Bool) : ∀ nodes : List Node, areWritable nodes →
    ∀ ts : List Token, ts.map Token.content = contentsAll nested nodes →
      ∃ nodes', unlinedAll nodes' = unlinedAll nodes ∧ Derives (.items nodes') ts
  | [], h, ts, hts => by
    obtain rfl := List.map_eq_nil_iff.1 hts
    exact ⟨[], rfl, .noItems⟩
  | [node], h, ts, hts => by
    simp only [areWritable, Bool.and_eq_true] at h
    obtain ⟨node', hnode', hderives⟩ := exists_derives nested node 1 h.1 (by omega) ts hts
    exact ⟨[node'], by simp only [unlinedAll, hnode'], .lastItem hderives⟩
  | node :: next :: rest, h, ts, hts => by
    rw [areWritable, Bool.and_eq_true] at h
    obtain ⟨us, others, rfl, hus, hothers⟩ := List.map_eq_append_iff.1 hts
    obtain ⟨comma, vs, rfl, hcomma, hvs⟩ := List.map_eq_cons_iff.1 hothers
    obtain ⟨node', hnode', hderives⟩ := exists_derives nested node 1 h.1 (by omega) us hus
    obtain ⟨nodes', hnodes', hderives'⟩ := exists_derives_items nested (next :: rest) h.2 vs hvs
    cases nodes' with
    | nil => simp [unlinedAll] at hnodes'
    | cons next' rest' =>
      refine ⟨node' :: next' :: rest', ?_,
        .moreItems hderives (content_eq hcomma).1 hderives'⟩
      show unlined node' :: unlinedAll (next' :: rest') = unlined node :: unlinedAll (next :: rest)
      rw [hnode', hnodes']

theorem exists_derives_properties (nested : Bool) : ∀ properties : List (String × Node),
    haveWritable properties →
    ∀ ts : List Token, ts.map Token.content = contentsProperties nested properties →
      ∃ properties', unlinedProperties properties' = unlinedProperties properties ∧
        Derives (.properties properties') ts
  | [], h, ts, hts => by
    obtain rfl := List.map_eq_nil_iff.1 hts
    exact ⟨[], rfl, .noProperties⟩
  | [(key, value)], h, ts, hts => by
    simp only [haveWritable, Bool.and_eq_true] at h
    obtain ⟨name, rest, rfl, hname, hrest⟩ := List.map_eq_cons_iff.1 hts
    obtain ⟨colon, us, rfl, hcolon, hus⟩ := List.map_eq_cons_iff.1 hrest
    obtain ⟨value', hvalue', hderives⟩ := exists_derives nested value 1 h.1.2 (by omega) us hus
    obtain ⟨hkind, htext⟩ := kind_keyContent hname
    refine ⟨_, ?_, .lastProperty hkind (content_eq hcolon).1 hderives⟩
    simp only [unlinedProperties, htext, hvalue']
  | (key, value) :: next :: rest, h, ts, hts => by
    rw [haveWritable, Bool.and_eq_true, Bool.and_eq_true] at h
    obtain ⟨name, us, rfl, hname, hus⟩ := List.map_eq_cons_iff.1 hts
    obtain ⟨colon, vs, rfl, hcolon, hvs⟩ := List.map_eq_cons_iff.1 hus
    obtain ⟨ws, others, rfl, hws, hothers⟩ := List.map_eq_append_iff.1 hvs
    obtain ⟨comma, others, rfl, hcomma, hothers⟩ := List.map_eq_cons_iff.1 hothers
    obtain ⟨value', hvalue', hderives⟩ := exists_derives nested value 1 h.1.2 (by omega) ws hws
    obtain ⟨properties', hproperties', hderives'⟩ :=
      exists_derives_properties nested (next :: rest) h.2 others hothers
    obtain ⟨hkind, htext⟩ := kind_keyContent hname
    cases properties' with
    | nil => simp [unlinedProperties] at hproperties'
    | cons next' rest' =>
      refine ⟨(name.text, value') :: next' :: rest', ?_,
        .moreProperties hkind (content_eq hcolon).1 hderives (content_eq hcomma).1 hderives'⟩
      show (name.text, unlined value') :: unlinedProperties (next' :: rest') =
        (key, unlined value) :: unlinedProperties (next :: rest)
      rw [htext, hvalue', hproperties']

end

/-! ### Reading what is written -/

theorem contents_ne_nil {node : Node} (h : node.isWritable) (nested : Bool) :
    node.contents nested 1 ≠ [] := by
  intro hnil
  obtain ⟨node', -, hderives⟩ := exists_derives nested node 1 h (by omega) [] (by rw [hnil]; rfl)
  obtain ⟨t, rest, hcons, -⟩ := hderives.first (by simp) (by simp)
  cases hcons

/-- The tokens of a binding of an expression that is written out. -/
theorem content_ofSource_binding (hquote : ∀ text, isQuote (quote text)) (nested : Bool)
    {node : Node} (h : node.isWritable) :
    (Token.ofSource ("let x = " ++ node.written quote nested)).map Token.content =
      (.letWord, "let") :: (.identifier, "x") :: (.assign, "=") :: node.contents nested 1 ++
        [(.endOfInput, "")] := by
  have hspelled : Spelled quote
      ((.letWord, "let") :: (.identifier, "x") :: (.assign, "=") :: node.contents nested 1) :=
    .fixed (by decide) (.name (by decide)
      (.fixed (by decide) (spelled_contents hquote nested node 1 h)))
  have htokens := Lexeme.content_ofSource_written hspelled
  have hne : (node.contents nested 1).map (Lexeme.written quote) ≠ [] := by
    simpa using contents_ne_nil h nested
  have hsource : " ".intercalate (((.letWord, "let") :: (.identifier, "x") :: (.assign, "=") ::
      node.contents nested 1).map (Lexeme.written quote)) =
        "let x = " ++ node.written quote nested := by
    have hfront : "let x = " = "let" ++ (" " ++ ("x" ++ (" " ++ ("=" ++ " ")))) := by decide
    simp only [List.map_cons, Lexeme.written, String.intercalate_cons_cons,
      String.intercalate_cons_of_ne_nil hne, hfront, Node.written, String.append_assoc]
  rw [hsource] at htokens
  exact htokens

end Node

namespace Program
open Reader

theorem ofSource_of_run {source : String} {program : Program}
    (h : run nestingLimit start (Token.ofSource source) = .program program) :
    ofSource source = .ok program := by
  unfold ofSource ofTokens
  split <;> simp_all

theorem ofSource_of_error {source : String} {error : SyntaxError}
    (h : run nestingLimit start (Token.ofSource source) = .error error) :
    ofSource source = .error error := by
  unfold ofSource ofTokens
  split <;> simp_all

/-- **What is written is read back.** A binding of an expression, written with blanks between its
tokens and parentheses only where they are needed, is read as that binding, up to lines, whatever
the quotes of its strings. Only the limit of nesting can come between, and a limit that is large
enough does not. -/
theorem ofSource_written (quote : String → Char) (hquote : ∀ text, isQuote (quote text))
    (nested : Bool) (node : Node) (h : node.isWritable) :
    ∃ program : Program, program.unlined = unlined ⟨[.binding "x" node 0]⟩ ∧
      (ofSource ("let x = " ++ node.written quote nested) = .ok program ∨
        ∃ line column, ofSource ("let x = " ++ node.written quote nested) =
          .error ⟨.nestingTooDeep, line, column⟩) ∧
      ∃ enough, ∀ limit, enough ≤ limit →
        run limit start (Token.ofSource ("let x = " ++ node.written quote nested)) =
          .program program := by
  have htokens := Node.content_ofSource_binding hquote nested h
  generalize hts : Token.ofSource ("let x = " ++ node.written quote nested) = tokens at htokens
  obtain ⟨word, rest, rfl, hword, hrest⟩ := List.map_eq_cons_iff.1 htokens
  obtain ⟨name, rest, rfl, hname, hrest⟩ := List.map_eq_cons_iff.1 hrest
  obtain ⟨sign, rest, rfl, hsign, hrest⟩ := List.map_eq_cons_iff.1 hrest
  obtain ⟨ts, last, rfl, hcontents, hlast⟩ := List.map_eq_append_iff.1 hrest
  obtain ⟨last, rfl, hend⟩ := List.map_eq_singleton_iff.1 hlast
  obtain ⟨node', hnode', hderives⟩ :=
    Node.exists_derives nested node 1 h (by omega) ts hcontents
  obtain ⟨s', hsteps, hrun⟩ := hderives.run_binding (Node.content_eq hword).1
    (Node.content_eq hname).1 (Node.content_eq hsign).1 (Node.content_eq hend).1
  rw [(Node.content_eq hname).2] at hrun
  refine ⟨⟨[.binding "x" node' word.line]⟩, ?_, ?_, ?_⟩
  · simp only [unlined, Node.unlinedAll, Node.unlined, hnode']
  · rcases run_append_of_steps hsteps nestingLimit [last] with heq | ⟨line, column, heq⟩
    · refine .inl (ofSource_of_run ?_)
      rw [hts]
      exact heq.trans (hrun nestingLimit)
    · refine .inr ⟨line, column, ofSource_of_error ?_⟩
      rw [hts]
      exact heq
  · obtain ⟨enough, henough⟩ := exists_limit_of_steps hsteps
    exact ⟨enough, fun limit hle => (henough limit hle [last]).trans (hrun limit)⟩

/-- A difference is subtracted in parentheses, behind a negative call. -/
theorem ofSource_written_difference :
    let quote : String → Char := fun _ => '"'
    let difference (left right : Node) : Node := .binary "-" left right 0
    let node := difference (.unary "-" (.call (.identifier "f" 0) [.literal (.string "a") 0] 0) 0)
      (difference (.literal (.number (.integer 2)) 0) (.literal (.number (.integer 1)) 0))
    (∀ text, isQuote (quote text)) ∧ node.isWritable ∧
      node.written quote false = "- f ( \"a\" ) - ( 2 - 1 )" ∧
      ∃ program : Program, program.unlined = unlined ⟨[.binding "x" node 0]⟩ ∧
        (ofSource ("let x = " ++ node.written quote false) = .ok program ∨
          ∃ line column, ofSource ("let x = " ++ node.written quote false) =
            .error ⟨.nestingTooDeep, line, column⟩) ∧
        ∃ enough, ∀ limit, enough ≤ limit →
          run limit start (Token.ofSource ("let x = " ++ node.written quote false)) =
            .program program := by
  intro quote difference node
  have hnode : node.isWritable := by decide +kernel
  have hquote : ∀ text, isQuote (quote text) := fun _ => rfl
  exact ⟨hquote, hnode, by decide +kernel, ofSource_written quote hquote false node hnode⟩

end Program

end PageScript
