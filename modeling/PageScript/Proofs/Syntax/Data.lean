import PageScript.Proofs.Syntax.Completion
import PageScript.Proofs.Syntax.RoundTrip
import PageScript.Proofs.Syntax.Statements
import PageScript.Value.Display

/-!
Data as text. Booleans, integers and arrays of them are displayed as they may be written in a
program, and so are the strings inside arrays, as long as nothing in them would have to be escaped.
The text of such a value is read as an expression of the same structure. How deeply the reader goes
into it is counted exactly, so that it is known which texts are not nested too deeply for it.
-/
namespace PageScript

/-! ### Data -/

namespace Value

mutual

/-- Whether a value inside an array is written in its text as it would be in a program: a boolean, an
integer that is not too long, a string without double quotes and without a backslash at its end, or
an array of such values. -/
def isItem : Value → Bool
  | bool _ => true
  | number (.integer n) => Number.fitsText n
  | string s => !s.toList.contains '"' && Node.isWritableText s
  | array items => areItems items
  | _ => false

def areItems : List Value → Bool
  | [] => true
  | item :: rest => isItem item && areItems rest

end

/-- Whether a value is written in its text as it would be in a program. A string on its own has no
quotes around it, and is not. -/
def isData : Value → Bool
  | string _ => false
  | v => isItem v

mutual

/-- The expression that is written for data. -/
def expression : Value → Node
  | bool b => .literal (.bool b) 0
  | number (.integer (.ofNat n)) => .literal (.number (.integer n)) 0
  | number (.integer (.negSucc n)) =>
    .unary "-" (.literal (.number (.integer (n + 1 : Nat))) 0) 0
  | string s => .literal (.string s) 0
  | array items => .array (expressions items) 0
  | _ => .literal .null 0

def expressions : List Value → List Node
  | [] => []
  | item :: rest => expression item :: expressions rest

end

mutual

/-- How deeply data is nested, if a literal, a sign before one and a bracket count so much. -/
def nesting (literal sign bracket : Nat) : Value → Nat
  | number (.integer (.negSucc _)) => sign + literal
  | array items => bracket + nestingItems literal sign bracket items
  | _ => literal

def nestingItems (literal sign bracket : Nat) : List Value → Nat
  | [] => 0
  | item :: rest => max (nesting literal sign bracket item) (nestingItems literal sign bracket rest)

end

end Value

/-! ### The tokens of a text -/

namespace Lexeme

/-- The tokens of a text, apart from their places. -/
def contents (cs : List Char) : List Token.Content := (tokens .start (all cs)).map Token.content

theorem map_content_tokens (p q : Position) (lexemes : List Lexeme) :
    (tokens p lexemes).map Token.content = (tokens q lexemes).map Token.content := by
  induction lexemes generalizing p q with
  | nil => rfl
  | cons lexeme rest ih =>
    simp only [tokens]
    cases lexeme.token? with
    | none => exact ih _ _
    | some token => exact congrArg (token :: ·) (ih _ _)

theorem contents_nil : contents [] = [(.endOfInput, "")] := by
  rw [contents, all]
  rfl

theorem contents_append {kind : TokenKind} {text : String} {raw rest : List Char}
    (h : Spells kind text.toList raw) (hrest : ∀ d, rest.head? = some d → isBreak d) :
    contents (raw ++ rest) = (kind, text) :: contents rest := by
  rw [contents, tokens_all_append h hrest, List.map_cons, map_content_tokens _ .start]
  rfl

theorem contents_sign {c : Char} {kind : TokenKind} (h : (c, kind) ∈ singleSigns)
    {rest : List Char} (hdouble : doubleSign? c rest = none) (hcomment : c ≠ '/') :
    contents (c :: rest) = (kind, String.singleton c) :: contents rest := by
  have hscan : scan c rest = (some (kind, String.singleton c), 0) :=
    scan_sign h hdouble fun h => hcomment h.1
  rw [contents, all, hscan]
  simp only [tokens, List.drop_zero, List.map_cons]
  rw [map_content_tokens _ .start]
  rfl

theorem contents_blank {c : Char} (h : isSpace c) (rest : List Char) :
    contents (c :: rest) = contents rest := by
  rw [contents, tokens_all_blank h, map_content_tokens _ .start]
  rfl

/-- A sign that begins no longer one is a token whatever follows. -/
theorem contents_single (c : Char) (kind : TokenKind) (h : (c, kind) ∈ singleSigns)
    (hpairs : ∀ p ∈ doubleSigns, p.1.1 ≠ c) (hcomment : c ≠ '/') (rest : List Char) :
    contents (c :: rest) = (kind, String.singleton c) :: contents rest := by
  refine contents_sign h ?_ hcomment
  cases hdouble : doubleSign? c rest with
  | none => rfl
  | some kind' =>
    obtain ⟨d, ds, rfl, hmem⟩ := mem_of_doubleSign? hdouble
    exact absurd rfl (hpairs _ hmem)

/-- The sign of a negative number. -/
theorem contents_minus {c : Char} (h : isDigit c) (rest : List Char) :
    contents ('-' :: c :: rest) = (.minus, "-") :: contents (c :: rest) := by
  refine contents_sign (by decide) ?_ (by decide)
  cases hdouble : doubleSign? '-' (c :: rest) with
  | none => rfl
  | some kind =>
    obtain ⟨d, ds, hcons, hmem⟩ := mem_of_doubleSign? hdouble
    obtain ⟨rfl, -⟩ := List.cons.inj hcons
    have hall : ∀ p ∈ doubleSigns, p.1.1 = '-' → isDigit p.1.2 = false := by decide
    have := hall _ hmem rfl
    rw [h] at this
    cases this

theorem escape_eq_self {quote : Char} {cs : List Char} (h : quote ∉ cs) :
    escape quote cs = cs := by
  induction cs with
  | nil => rfl
  | cons c cs ih =>
    simp only [List.mem_cons, not_or] at h
    rw [escape, if_neg (Ne.symm h.1), ih h.2]

end Lexeme

namespace Value
open Lexeme Node Reader

/-! ### The text of data has the tokens of its expression -/

/-- The text of a negative integer. -/
theorem toList_toString_negSucc (n : Nat) :
    ∃ c cs, (n + 1).repr.toList = c :: cs ∧ isDigit c ∧
      (toString (Int.negSucc n)).toList = '-' :: c :: cs := by
  have htext : (toString (Int.negSucc n)).toList = '-' :: (n + 1).repr.toList := by
    simp [Int.repr_eq_if]
  have hspells := spells_repr (n + 1)
  rw [Nat.toList_repr] at htext hspells ⊢
  cases hdigits : Nat.toDigits 10 (n + 1) with
  | nil => exact absurd hdigits Nat.toDigits_ne_nil
  | cons c cs =>
    have hmem : c ∈ Nat.toDigits 10 (n + 1) := by simp [hdigits]
    have hdigit : c.isDigit := Nat.isDigit_of_mem_toDigits (by omega) (by omega) hmem
    exact ⟨c, cs, rfl, isDigit_iff.2 (Numeral.toNat_of_isDigit hdigit), by rw [htext, hdigits]⟩

/-- The text of an integer has the token of its digits, and a sign before it if it is negative. -/
theorem exists_nested?_integer {n : Int} (h : Number.fitsText n) :
    ∃ text, (number (.integer n)).nested? = some text ∧
      ∀ rest : List Char, (∀ d, rest.head? = some d → isBreak d) →
        Lexeme.contents (text.toList ++ rest) =
          (number (.integer n)).expression.contents false 1 ++ Lexeme.contents rest := by
  have htext : (number (.integer n)).nested? = some (toString n) := by
    rw [nested?, Number.display?, Number.integerText?, if_pos h]
  refine ⟨toString n, htext, fun rest hrest => ?_⟩
  cases n with
  | ofNat n => exact contents_append (spells_repr n) hrest
  | negSucc n =>
    obtain ⟨c, cs, hrepr, hdigit, htext⟩ := toList_toString_negSucc n
    have hnumber := contents_append (spells_repr (n + 1)) hrest
    rw [hrepr] at hnumber
    rw [htext, List.cons_append, List.cons_append, contents_minus hdigit, ← List.cons_append,
      hnumber]
    rfl

mutual

/-- The text of a value in an array has the tokens of its expression. -/
theorem exists_nested? : ∀ v : Value, v.isItem → ∃ text, v.nested? = some text ∧
    ∀ rest : List Char, (∀ d, rest.head? = some d → isBreak d) →
      Lexeme.contents (text.toList ++ rest) =
        v.expression.contents false 1 ++ Lexeme.contents rest
  | bool b => by
    intro _
    cases b with
    | true =>
      refine ⟨"true", rfl, fun rest hrest => ?_⟩
      exact contents_append (spells_keyword ("true", .trueWord) (by decide)) hrest
    | false =>
      refine ⟨"false", rfl, fun rest hrest => ?_⟩
      exact contents_append (spells_keyword ("false", .falseWord) (by decide)) hrest
  | number (.integer n) => by
    intro h
    rw [isItem] at h
    exact exists_nested?_integer h
  | string s => by
    intro h
    obtain ⟨hquote, hlast⟩ := by simpa [isItem, isWritableText] using h
    have hquoted : isQuote '"' := rfl
    have hspells := spells_escape hquoted hlast
    rw [escape_eq_self hquote] at hspells
    refine ⟨"\"" ++ s ++ "\"", rfl, fun rest hrest => ?_⟩
    have htext : ("\"" ++ s ++ "\"").toList = '"' :: (s.toList ++ ['"']) := by simp
    rw [htext, contents_append hspells hrest]
    rfl
  | array items => by
    intro h
    obtain ⟨texts, htexts, hcontents⟩ := exists_nestedItems? items h
    refine ⟨"[" ++ ", ".intercalate texts ++ "]", ?_, fun rest hrest => ?_⟩
    · rw [nested?, htexts]
      rfl
    · have htext : ("[" ++ ", ".intercalate texts ++ "]").toList ++ rest =
          '[' :: ((", ".intercalate texts).toList ++ ']' :: rest) := by simp
      have hclosing : ∀ d, (']' :: rest).head? = some d → isBreak d := by
        rintro d ⟨⟩
        decide
      rw [htext, contents_single '[' .leftBracket (by decide) (by decide) (by decide),
        hcontents _ hclosing, contents_single ']' .rightBracket (by decide) (by decide) (by decide),
        expression, Node.contents, List.cons_append, List.append_assoc]
      rfl
  | null | number (.double _) | object _ | closure _ | builtin _ => nofun

theorem exists_nestedItems? : ∀ items : List Value, areItems items → ∃ texts,
    nestedItems? items = some texts ∧
    ∀ rest : List Char, (∀ d, rest.head? = some d → isBreak d) →
      Lexeme.contents ((", ".intercalate texts).toList ++ rest) =
        contentsAll false (expressions items) ++ Lexeme.contents rest
  | [], _ => ⟨[], rfl, fun _ _ => rfl⟩
  | [item], h => by
    obtain ⟨text, htext, hcontents⟩ := exists_nested? item (by simpa [areItems] using h)
    refine ⟨[text], by simp [nestedItems?, htext], fun rest hrest => ?_⟩
    rw [String.intercalate_singleton, hcontents rest hrest]
    rfl
  | item :: next :: more, h => by
    rw [areItems, Bool.and_eq_true] at h
    obtain ⟨text, htext, hcontents⟩ := exists_nested? item h.1
    obtain ⟨texts, htexts, hmore⟩ := exists_nestedItems? (next :: more) h.2
    refine ⟨text :: texts, by rw [nestedItems?, htext, htexts]; rfl, fun rest hrest => ?_⟩
    cases texts with
    | nil => simp [nestedItems?, Option.bind_eq_some_iff] at htexts
    | cons second others =>
      have hjoined : (", ".intercalate (text :: second :: others)).toList ++ rest =
          text.toList ++ ',' :: ' ' :: ((", ".intercalate (second :: others)).toList ++ rest) := by
        simp [String.intercalate_cons_cons]
      have hcomma {cs : List Char} : ∀ d, (',' :: cs).head? = some d → isBreak d := by
        rintro d ⟨⟩
        decide
      have hall : contentsAll false (expressions (item :: next :: more)) =
          item.expression.contents false 1 ++
            (.comma, ",") :: contentsAll false (expressions (next :: more)) := rfl
      rw [hjoined, hcontents _ hcomma,
        contents_single ',' .comma (by decide) (by decide) (by decide), contents_blank rfl,
        hmore rest hrest, hall, List.append_assoc]
      rfl

end

/-- The expression begins with a token that only an operand begins with. -/
theorem exists_contents_cons {v : Value} (h : v.isItem) : ∃ c rest,
    v.expression.contents false 1 = c :: rest ∧ c.1 ∈ operandKinds ∧ c.1 ≠ .leftBrace := by
  cases v with
  | bool b => cases b <;> exact ⟨_, _, rfl, by decide⟩
  | number n =>
    cases n with
    | integer n =>
      cases n with
      | ofNat n => exact ⟨(.number, toString (n : Int)), [], rfl, by simp [operandKinds], by simp⟩
      | negSucc n => exact ⟨_, _, rfl, by decide⟩
    | double d => cases h
  | string s => exact ⟨(.string, s), [], rfl, by simp [operandKinds], by simp⟩
  | array items => exact ⟨_, _, rfl, by decide⟩
  | null | object | closure | builtin => cases h

end Value

/-! ### Reading within a limit -/

namespace Reader
variable {limit : Nat} {s s' s'' : State} {t : Token} {ts us : List Token}

/-- Within a limit of nesting, tokens lead from one state to another, whatever follows. -/
def Goes (limit : Nat) (s : State) (ts : List Token) (s' : State) : Prop :=
  ∀ us, run limit s (ts ++ us) = run limit s' us

theorem Goes.nil : Goes limit s [] s := fun _ => rfl

theorem Goes.cons (hstep : step s t = .next s') (hweight : s'.weight ≤ limit)
    (h : Goes limit s' ts s'') : Goes limit s (t :: ts) s'' := by
  intro us
  rw [List.cons_append, run_cons hstep, if_neg (by omega)]
  exact h us

theorem Goes.append (h : Goes limit s ts s') (h' : Goes limit s' us s'') :
    Goes limit s (ts ++ us) s'' := by
  intro vs
  rw [List.append_assoc, h, h']

theorem Goes.congr (hstep : step s t = step s' t) (h : Goes limit s' (t :: ts) s'') :
    Goes limit s (t :: ts) s'' := by
  intro us
  rw [List.cons_append, run, hstep]
  exact h us

end Reader

namespace Value
open Node Reader
variable {limit : Nat}

/-- What the tokens of data do to the reader where an operand may begin and none is awaited by an
operator: they lead behind the operand, if its nesting is within the limit. -/
def Reads (limit : Nat) (v : Value) (ts : List Token) : Prop :=
  ∀ (s : State) (context : Context),
    (∀ node, reduce 0 node context.pending = (node, context.pending)) →
    s.blocksWeight + context.weight + v.nesting 0 linkWeight bracketWeight ≤ limit →
    ∃ operand pending node, node.unlined = v.expression ∧
      reduce 0 operand pending = (node, context.pending) ∧
      Goes limit { s with phase := .operand context } ts
        { s with phase := .afterOperand operand ⟨pending, context.purpose⟩ }

theorem goes_literal {value : Literal} (h : isWritableLiteral value) {t : Token}
    (ht : t.content = literalContent value) {s : State} {context : Context}
    (hlimit : s.blocksWeight + context.weight ≤ limit) :
    Goes limit { s with phase := .operand context } [t]
      { s with phase := .afterOperand (.literal value t.line) context } :=
  .cons (operandMove_leaf (leaf?_literalContent h ht) _ _) hlimit .nil

theorem reads_literal {v : Value} {value : Literal} (hv : v.expression = .literal value 0)
    (h : isWritableLiteral value) {ts : List Token}
    (hts : ts.map Token.content = v.expression.contents false 1) : v.Reads limit ts := by
  intro s context hsettled hlimit
  rw [hv] at hts
  obtain ⟨t, rfl, ht⟩ := List.map_eq_singleton_iff.1 hts
  exact ⟨.literal value t.line, context.pending, .literal value t.line, by rw [hv]; rfl,
    hsettled _, goes_literal h ht (by omega)⟩

theorem isWritableLiteral_natural {n : Nat} (h : Number.fitsText n) :
    isWritableLiteral (.number (.integer n)) := by
  simp [isWritableLiteral, h]

theorem reads_integer {n : Int} (h : Number.fitsText n) {ts : List Token}
    (hts : ts.map Token.content = (number (.integer n)).expression.contents false 1) :
    (number (.integer n)).Reads limit ts := by
  cases n with
  | ofNat n => exact reads_literal rfl (isWritableLiteral_natural h) hts
  | negSucc n =>
    rintro s ⟨pending, purpose⟩ hsettled hlimit
    obtain ⟨sign, rest, rfl, hsign, hrest⟩ := List.map_eq_cons_iff.1 hts
    obtain ⟨t, rfl, ht⟩ := List.map_eq_singleton_iff.1 hrest
    obtain ⟨hkind, htext⟩ : sign.kind = .minus ∧ sign.text = "-" := content_eq hsign
    have hwritable := isWritableLiteral_natural (n := n + 1) h
    have hstep : step { s with phase := .operand ⟨pending, purpose⟩ } sign =
        .next { s with phase := .operand ⟨.unary sign.text sign.line :: pending, purpose⟩ } := by
      simp [step, operandMove, hkind, State.goto]
    have hweight : s.blocksWeight +
        Context.weight ⟨.unary sign.text sign.line :: pending, purpose⟩ ≤ limit := by
      simp only [nesting, Context.weight_cons, Pending.weight] at hlimit ⊢
      omega
    refine ⟨.literal (.number (.integer (n + 1 : Nat))) t.line,
      .unary sign.text sign.line :: pending, _, ?_, hsettled _,
      .cons hstep hweight (goes_literal hwritable ht hweight)⟩
    rw [htext]
    rfl

theorem exists_first {item : Value} {more : List Value} (h : areItems (item :: more))
    {ts : List Token} (hts : ts.map Token.content = contentsAll false (expressions (item :: more))) :
    ∃ t rest, ts = t :: rest ∧ t.kind ∉ closers := by
  rw [areItems, Bool.and_eq_true] at h
  obtain ⟨c, rest, hcontents, hoperand, -⟩ := exists_contents_cons h.1
  have hcons : ∃ behind, contentsAll false (expressions (item :: more)) = c :: behind := by
    cases more with
    | nil => exact ⟨_, hcontents⟩
    | cons next more => exact ⟨_, congrArg (· ++ _) hcontents⟩
  obtain ⟨behind, hbehind⟩ := hcons
  rw [hbehind] at hts
  obtain ⟨t, us, rfl, ht, -⟩ := List.map_eq_cons_iff.1 hts
  have hall : ∀ kind ∈ operandKinds, kind ∉ closers := by decide
  exact ⟨t, us, rfl, by rw [(content_eq ht).1]; exact hall _ hoperand⟩

mutual

/-- The tokens of data are read as its expression. -/
theorem reads_item : ∀ v : Value, v.isItem → ∀ ts : List Token,
    ts.map Token.content = v.expression.contents false 1 → v.Reads limit ts
  | bool b => by
    intro _ ts hts
    have hwritable : isWritableLiteral (.bool b) := rfl
    exact reads_literal rfl hwritable hts
  | number (.integer n) => by
    intro h ts hts
    rw [isItem] at h
    exact reads_integer h hts
  | string s => by
    intro h ts hts
    rw [isItem, Bool.and_eq_true] at h
    have hwritable : isWritableLiteral (.string s) := h.2
    exact reads_literal rfl hwritable hts
  | array items => by
    rintro h ts hts s ⟨outer, purpose⟩ hsettled hlimit
    obtain ⟨opening, us, closing, rfl, hopening, hus, hclosing⟩ := exists_bracket hts
    have hopen : step { s with phase := .operand ⟨outer, purpose⟩ } opening =
        .next { s with phase := .elementOrEnd opening.line ⟨outer, purpose⟩ } := by
      simp [step, operandMove, (content_eq hopening).1, State.goto]
    rw [nesting] at hlimit
    have hweight : s.blocksWeight + (bracketWeight + Context.weight ⟨outer, purpose⟩) ≤ limit := by
      omega
    cases items with
    | nil =>
      obtain rfl := List.map_eq_nil_iff.1 hus
      have hclose : step { s with phase := .elementOrEnd opening.line ⟨outer, purpose⟩ } closing =
          .next { s with phase := .afterOperand (.array [] opening.line) ⟨outer, purpose⟩ } := by
        simp [step, (content_eq hclosing).1, State.goto]
      have hweight' : s.blocksWeight + Context.weight ⟨outer, purpose⟩ ≤ limit := by omega
      exact ⟨_, outer, .array [] opening.line, rfl, hsettled _,
        .cons hopen hweight (.cons hclose hweight' .nil)⟩
    | cons item more =>
      obtain ⟨nodes, hnodes, hgoes⟩ := reads_items (item :: more) h (by simp) us hus s []
        opening.line outer purpose (by rw [Context.weight_cons, Pending.weight]; omega)
        closing (content_eq hclosing).1
      obtain ⟨t, rest, rfl, hfirst⟩ := exists_first h hus
      exact ⟨.array nodes opening.line, outer, .array nodes opening.line, by
        rw [unlined, hnodes, expression], hsettled _,
        .cons hopen hweight (.congr (step_elementOrEnd hfirst _ _) hgoes)⟩
  | null | number (.double _) | object _ | closure _ | builtin _ => nofun

/-- The tokens of items, and of the end of the bracket around them, are read as the array of the
items read before and these. -/
theorem reads_items : ∀ items : List Value, areItems items → items ≠ [] → ∀ ts : List Token,
    ts.map Token.content = contentsAll false (expressions items) →
    ∀ (s : State) (before : List Node) (line : Int) (outer : List Pending) (purpose : Purpose),
    s.blocksWeight + Context.weight ⟨.elements before line :: outer, purpose⟩ +
      nestingItems 0 linkWeight bracketWeight items ≤ limit →
    ∀ closing : Token, closing.kind = .rightBracket →
    ∃ nodes, unlinedAll nodes = expressions items ∧
      Goes limit { s with phase := .operand ⟨.elements before line :: outer, purpose⟩ }
        (ts ++ [closing])
        { s with phase := .afterOperand (.array (before.reverse ++ nodes) line) ⟨outer, purpose⟩ }
  | [], _, hne => absurd rfl hne
  | [item], h, _ => by
    intro ts hts s before line outer purpose hlimit closing hclosing
    rw [areItems, Bool.and_eq_true] at h
    simp only [nestingItems, Context.weight_cons, Pending.weight] at hlimit
    obtain ⟨operand, pending, node, hnode, hreduce, hgoes⟩ := reads_item item h.1 ts hts s
      ⟨.elements before line :: outer, purpose⟩ (fun _ => rfl)
      (by rw [Context.weight_cons, Pending.weight]; omega)
    have hclose : step { s with phase := .afterOperand operand ⟨pending, purpose⟩ } closing =
        .next { s with
          phase := .afterOperand (.array (node :: before).reverse line) ⟨outer, purpose⟩ } :=
      step_bracket (by rw [hclosing, Pending.close?]) hreduce
    have hweight : s.blocksWeight + Context.weight ⟨outer, purpose⟩ ≤ limit := by omega
    refine ⟨[node], by rw [unlinedAll, hnode]; rfl, ?_⟩
    rw [← List.reverse_cons]
    exact hgoes.append (.cons hclose hweight .nil)
  | item :: next :: more, h, _ => by
    intro ts hts s before line outer purpose hlimit closing hclosing
    rw [areItems, Bool.and_eq_true] at h
    rw [nestingItems, Context.weight_cons, Pending.weight] at hlimit
    obtain ⟨us, others, rfl, hus, hothers⟩ := List.map_eq_append_iff.1 hts
    obtain ⟨comma, vs, rfl, hcomma, hvs⟩ := List.map_eq_cons_iff.1 hothers
    obtain ⟨operand, pending, node, hnode, hreduce, hgoes⟩ := reads_item item h.1 us hus s
      ⟨.elements before line :: outer, purpose⟩ (fun _ => rfl)
      (by rw [Context.weight_cons, Pending.weight]; omega)
    obtain ⟨nodes, hnodes, hmore⟩ := reads_items (next :: more) h.2 (by simp) vs hvs s
      (node :: before) line outer purpose (by rw [Context.weight_cons, Pending.weight]; omega)
      closing hclosing
    have hstep : step { s with phase := .afterOperand operand ⟨pending, purpose⟩ } comma =
        .next { s with phase := .operand ⟨.elements (node :: before) line :: outer, purpose⟩ } :=
      step_comma (.elements line) (content_eq hcomma).1 hreduce
    have hweight : s.blocksWeight +
        Context.weight ⟨.elements (node :: before) line :: outer, purpose⟩ ≤ limit := by
      rw [Context.weight_cons, Pending.weight]
      omega
    refine ⟨node :: nodes, by rw [unlinedAll, hnode, hnodes]; rfl, ?_⟩
    rw [List.append_assoc, List.cons_append]
    simpa using hgoes.append (.cons hstep hweight hmore)

end

theorem isItem_of_isData {v : Value} (h : v.isData) : v.isItem := by
  cases v with
  | string => cases h
  | _ => exact h

theorem display?_of_isData {v : Value} (h : v.isData) : v.display? = v.nested? := by
  cases v with
  | string => cases h
  | _ => rfl

/-- The text of data that is not nested too deeply is a program of one expression. -/
theorem exists_ofSource {v : Value} (h : v.isData)
    (hnesting : v.nesting 0 linkWeight bracketWeight ≤ nestingLimit) : ∃ text node,
      v.display? = some text ∧ Program.ofSource text = .ok ⟨[node]⟩ ∧
        node.unlined = v.expression := by
  have hitem := isItem_of_isData h
  obtain ⟨text, htext, hcontents⟩ := exists_nested? v hitem
  have htokens := hcontents [] (by simp)
  rw [List.append_nil, Lexeme.contents_nil] at htokens
  obtain ⟨ts, rest, hsource, hts, hrest⟩ := List.map_eq_append_iff.1 htokens
  obtain ⟨last, rfl, hlast⟩ := List.map_eq_singleton_iff.1 hrest
  have hend : last.kind = .endOfInput := (content_eq hlast).1
  obtain ⟨operand, pending, node, hnode, hreduce, hgoes⟩ :=
    reads_item v hitem ts hts start ⟨[], .statement⟩ (fun _ => rfl) (by
      simpa [State.blocksWeight, Context.weight, start] using hnesting)
  obtain ⟨c, behind, hc, hoperand, hbrace⟩ := exists_contents_cons hitem
  rw [hc] at hts
  obtain ⟨t, us, rfl, ht, -⟩ := List.map_eq_cons_iff.1 hts
  rw [← (content_eq ht).1] at hoperand hbrace
  have hfirst : step start t = step { start with phase := .operand ⟨[], .statement⟩ } t :=
    statementMove_operand hoperand hbrace start
  refine ⟨text, node, by rw [display?_of_isData h, htext], ?_, hnode⟩
  apply Program.ofSource_of_run
  rw [Token.ofSource, hsource, Goes.congr hfirst hgoes [last], run,
    step_close (by simp [hend]) (by simp [hend, level?]) hreduce]
  simp [closeMove, purposeMove, statementMove, State.finish, hend, start]

end Value
end PageScript
