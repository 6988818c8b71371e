import PageScript.Proofs.Syntax.RoundTrip
import PageScript.Proofs.Syntax.Symbols

/-!
Programs that are written down are read back. What was once read can be written with its own
parentheses left out and others put in, as a tree needs them; the statements still fall apart at the
same places, since what is written first of a statement goes on the one before it only if what was
read did.
-/
namespace PageScript
open Reader Node

/-! ### Tokens that symbols are written as -/

theorem Symbol.Fits.kind_eq {symbol : Symbol} {t : Token} (h : symbol.Fits t) :
    t.kind = symbol.kind ∨ t.kind = .string := by
  cases symbol with
  | plain kind text => exact .inl h.1
  | number value => exact .inl h.1
  | key text => exact h.1

section Fits

variable {symbol symbol' : Symbol} {symbols symbols' : List Symbol} {us : List Token}

theorem exists_fits_cons (h : List.Forall₂ Symbol.Fits (symbol :: symbols) us) :
    ∃ t vs, us = t :: vs ∧ symbol.Fits t ∧ List.Forall₂ Symbol.Fits symbols vs := by
  obtain ⟨t, vs, ht, hvs, rfl⟩ := List.forall₂_cons_left_iff.1 h
  exact ⟨t, vs, rfl, ht, hvs⟩

theorem exists_fits_singleton (h : List.Forall₂ Symbol.Fits [symbol] us) :
    ∃ t, us = [t] ∧ symbol.Fits t := by
  obtain ⟨t, vs, rfl, ht, hvs⟩ := exists_fits_cons h
  obtain rfl := List.forall₂_nil_left_iff.1 hvs
  exact ⟨t, rfl, ht⟩

theorem exists_fits_head (h : List.Forall₂ Symbol.Fits symbols us)
    (hsymbol : symbol ∈ symbols.head?) : ∃ t rest, us = t :: rest ∧ symbol.Fits t := by
  obtain ⟨rest, rfl⟩ := List.head?_eq_some_iff.1 hsymbol
  obtain ⟨t, vs, rfl, ht, -⟩ := exists_fits_cons h
  exact ⟨t, vs, rfl, ht⟩

theorem exists_fits_append (h : List.Forall₂ Symbol.Fits (symbols ++ symbols') us) :
    ∃ vs ws, us = vs ++ ws ∧ List.Forall₂ Symbol.Fits symbols vs ∧
      List.Forall₂ Symbol.Fits symbols' ws := by
  induction symbols generalizing us with
  | nil => exact ⟨[], us, rfl, .nil, h⟩
  | cons symbol symbols ih =>
    obtain ⟨t, us, rfl, ht, hus⟩ := exists_fits_cons h
    obtain ⟨vs, ws, rfl, hvs, hws⟩ := ih hus
    exact ⟨t :: vs, ws, rfl, .cons ht hvs, hws⟩

theorem exists_fits_bracket (h : List.Forall₂ Symbol.Fits (symbol :: (symbols ++ [symbol'])) us) :
    ∃ opening inside closing, us = opening :: (inside ++ [closing]) ∧ symbol.Fits opening ∧
      List.Forall₂ Symbol.Fits symbols inside ∧ symbol'.Fits closing := by
  obtain ⟨opening, us, rfl, hopening, hus⟩ := exists_fits_cons h
  obtain ⟨inside, last, rfl, hinside, hlast⟩ := exists_fits_append hus
  obtain ⟨closing, rfl, hclosing⟩ := exists_fits_singleton hlast
  exact ⟨opening, inside, closing, rfl, hopening, hinside, hclosing⟩

end Fits

namespace Reader

/-! ### Expressions that are written again -/

/-- Whatever derives an expression at its own level also derives it in parentheses, where these are
needed. -/
theorem exists_derives_parenthesized {node : Node} {symbols : List Symbol} {level own : Nat}
    {needed : Bool} (hown : 1 ≤ own) (hneeded : needed = false → level ≤ own)
    (h : ∀ level ≤ own, ∀ us : List Token, List.Forall₂ Symbol.Fits symbols us →
      ∃ node', node'.unlined = node.unlined ∧ Derives (.expr level node') us)
    {us : List Token} (hus : List.Forall₂ Symbol.Fits (parenthesized needed symbols) us) :
    ∃ node', node'.unlined = node.unlined ∧ Derives (.expr level node') us := by
  cases needed with
  | true =>
    obtain ⟨opening, us, closing, rfl, hopening, hus, hclosing⟩ := exists_fits_bracket hus
    obtain ⟨node', hnode, hderives⟩ := h 1 hown us hus
    exact ⟨node', hnode, .group hopening.1 hderives hclosing.1⟩
  | false => exact h level (hneeded rfl) us hus

/-- How a phrase that was derived can be derived again, from whatever tokens it is written with. -/
def Phrase.Rewritten (nested : Bool) : Phrase → Prop
  | .expr _ node => ∀ (head : Bool) (level : Nat) (us : List Token), level ≤ 8 →
    List.Forall₂ Symbol.Fits (node.symbols nested head level) us →
    ∃ node', node'.unlined = node.unlined ∧ Derives (.expr level node') us
  | .items nodes => ∀ us : List Token, List.Forall₂ Symbol.Fits (symbolsItems nested nodes) us →
    ∃ nodes', unlinedAll nodes' = unlinedAll nodes ∧ Derives (.items nodes') us
  | .properties entries => ∀ us : List Token,
    List.Forall₂ Symbol.Fits (symbolsProperties nested entries) us →
    ∃ entries', unlinedProperties entries' = unlinedProperties entries ∧
      Derives (.properties entries') us

theorem leaf?_rewritten {t : Token} {node : Node} (h : leaf? t = some node) (nested head : Bool)
    (level : Nat) {us : List Token}
    (hus : List.Forall₂ Symbol.Fits (node.symbols nested head level) us) :
    ∃ node', node'.unlined = node.unlined ∧ Derives (.expr level node') us := by
  unfold leaf? at h
  split at h
  case h_6 => cases h
  case h_3 =>
    obtain ⟨n, -, rfl⟩ := Option.map_eq_some_iff.1 h
    obtain ⟨t', rfl, hk, hn⟩ := exists_fits_singleton hus
    exact ⟨.literal (.number n) t'.line, rfl, .leaf (by simp [leaf?, hk, hn])⟩
  case h_5 =>
    cases h
    obtain ⟨t', rfl, hk, htext⟩ := exists_fits_singleton hus
    exact ⟨.identifier t.text t'.line, rfl, .leaf (by simp [leaf?, hk, htext])⟩
  all_goals
    cases h
    obtain ⟨t', rfl, hk, htext⟩ := exists_fits_singleton hus
    refine ⟨.literal _ t'.line, rfl, .leaf ?_⟩
    simp only [literalContent] at hk htext
    simp [leaf?, hk, htext]

namespace Phrase

variable {nested : Bool} {level : Nat} {line : Int} {node left right callee operand : Node}
  {nodes args : List Node} {key : String} {entries : List (String × Node)} {sign : Token}

theorem rewritten_template {name : String} :
    (Phrase.expr level (.template name line)).Rewritten nested := by
  intro head level us hlevel hus
  obtain ⟨opening, inside, closing, rfl, hopening, hinside, hclosing⟩ := exists_fits_bracket
    (show List.Forall₂ Symbol.Fits (.plain .templateStart "\x7b\x7b" ::
      ([.plain .identifier name] ++ [.plain .templateEnd "\x7d\x7d"])) us from hus)
  obtain ⟨name', rfl, hname⟩ := exists_fits_singleton hinside
  refine ⟨_, ?_, .template hopening.1 hname.1 hclosing.1⟩
  rw [unlined, unlined, hname.2]

theorem rewritten_array (ih : (Phrase.items nodes).Rewritten nested) :
    (Phrase.expr level (.array nodes line)).Rewritten nested := by
  intro head level us hlevel hus
  obtain ⟨opening, inside, closing, rfl, hopening, hinside, hclosing⟩ := exists_fits_bracket hus
  obtain ⟨nodes', hnodes, hderives⟩ := ih inside hinside
  refine ⟨_, ?_, .array hopening.1 hderives hclosing.1⟩
  rw [unlined, unlined, hnodes]

theorem rewritten_object (ih : (Phrase.properties entries).Rewritten nested) :
    (Phrase.expr level (.object entries line)).Rewritten nested := by
  intro head level us hlevel hus
  refine exists_derives_parenthesized (by omega) (fun _ => hlevel) (fun _ _ us hus => ?_) hus
  obtain ⟨opening, inside, closing, rfl, hopening, hinside, hclosing⟩ := exists_fits_bracket hus
  obtain ⟨entries', hentries, hderives⟩ := ih inside hinside
  refine ⟨_, ?_, .object hopening.1 hderives hclosing.1⟩
  rw [unlined, unlined, hentries]

theorem rewritten_call (ihcallee : (Phrase.expr 8 callee).Rewritten nested)
    (ihargs : (Phrase.items args).Rewritten nested) :
    (Phrase.expr level (.call callee args line)).Rewritten nested := by
  intro head level us hlevel hus
  obtain ⟨vs, rest, rfl, hvs, hrest⟩ := exists_fits_append hus
  obtain ⟨opening, inside, closing, rfl, hopening, hinside, hclosing⟩ := exists_fits_bracket hrest
  obtain ⟨callee', hcallee, hderives⟩ := ihcallee head 8 vs (Nat.le_refl 8) hvs
  obtain ⟨args', hargs, hderives'⟩ := ihargs inside hinside
  refine ⟨_, ?_, .call hlevel hderives hopening.1 hderives' hclosing.1⟩
  rw [unlined, unlined, hcallee, hargs]

/-- Sign and operand fall apart at the same place, whether or not the operand is parenthesized. -/
theorem rewritten_unary (hlexed : sign.Lexed) (hsign : sign.kind = .notOp ∨ sign.kind = .minus)
    (ih : (Phrase.expr 7 operand).Rewritten nested) :
    (Phrase.expr level (.unary sign.text operand line)).Rewritten nested := by
  intro head level us hlevel hus
  have hkind := hlexed.unaryKind hsign
  have hneeded : decide (7 < level) = false → level ≤ 7 := by simp
  refine exists_derives_parenthesized (by omega) hneeded (fun level' hle us hus => ?_) hus
  obtain ⟨sign', vs, rfl, hsign', hvs⟩ := exists_fits_cons hus
  have hnested : (if nested then 8 else 7) ≤ 8 ∧ 7 ≤ (if nested then 8 else 7) := by
    split <;> omega
  obtain ⟨operand', hoperand, hderives⟩ := ih false _ vs hnested.1 hvs
  refine ⟨_, ?_, .unary hle (hsign'.1 ▸ hkind ▸ hsign) (hderives.mono hnested.2)⟩
  rw [unlined, unlined, hoperand, hsign'.2]

/-- The operands are derived at the level of the operator, or in parentheses. -/
theorem rewritten_binary {held : Nat} (hlexed : sign.Lexed) (hsign : level? sign.kind = some held)
    (ihleft : (Phrase.expr held left).Rewritten nested)
    (ihright : (Phrase.expr (held + 1) right).Rewritten nested) :
    (Phrase.expr level (.binary sign.text left right line)).Rewritten nested := by
  intro head level us hlevel hus
  obtain ⟨hkind, hheld⟩ := hlexed.binaryKind hsign
  have hle := level?_le hsign
  have hone := one_le_level? hsign
  have hneeded : decide (binaryLevel sign.text < level) = false → level ≤ held := by
    simp [hheld]
  refine exists_derives_parenthesized hone hneeded (fun level' hle' us hus => ?_) hus
  obtain ⟨vs, rest, rfl, hvs, hrest⟩ := exists_fits_append hus
  obtain ⟨sign', ws, rfl, hsign', hws⟩ := exists_fits_cons hrest
  obtain ⟨left', hleft, hderives⟩ := ihleft _ _ vs (by omega) hvs
  obtain ⟨right', hright, hderives'⟩ := ihright _ _ ws (by omega) hws
  rw [hheld] at hderives hderives'
  have hlevel' : level? sign'.kind = some held := by rw [hsign'.1, hkind, hsign]
  refine ⟨_, ?_, .binary hle' hderives hlevel' hderives'⟩
  rw [unlined, unlined, hleft, hright, hsign'.2]

theorem rewritten_lastItem (ih : (Phrase.expr 1 node).Rewritten nested) :
    (Phrase.items [node]).Rewritten nested := by
  intro us hus
  obtain ⟨node', hnode, hderives⟩ := ih false 1 us (by omega) hus
  exact ⟨[node'], by simp only [unlinedAll, hnode], .lastItem hderives⟩

theorem rewritten_moreItems {next : Node} (ih : (Phrase.expr 1 node).Rewritten nested)
    (ihmore : (Phrase.items (next :: nodes)).Rewritten nested) :
    (Phrase.items (node :: next :: nodes)).Rewritten nested := by
  intro us hus
  obtain ⟨vs, rest, rfl, hvs, hrest⟩ := exists_fits_append hus
  obtain ⟨comma, ws, rfl, hcomma, hws⟩ := exists_fits_cons hrest
  obtain ⟨node', hnode, hderives⟩ := ih false 1 vs (by omega) hvs
  obtain ⟨nodes', hnodes, hderives'⟩ := ihmore ws hws
  cases nodes' with
  | nil => cases hnodes
  | cons next' nodes' =>
    refine ⟨node' :: next' :: nodes', ?_, .moreItems hderives hcomma.1 hderives'⟩
    rw [unlinedAll, hnodes, hnode]
    rfl

theorem rewritten_lastProperty (ih : (Phrase.expr 1 node).Rewritten nested) :
    (Phrase.properties [(key, node)]).Rewritten nested := by
  intro us hus
  obtain ⟨key', rest, rfl, hkey, hrest⟩ := exists_fits_cons hus
  obtain ⟨colon, vs, rfl, hcolon, hvs⟩ := exists_fits_cons hrest
  obtain ⟨node', hnode, hderives⟩ := ih false 1 vs (by omega) hvs
  refine ⟨_, ?_, .lastProperty hkey.1 hcolon.1 hderives⟩
  simp only [unlinedProperties, hkey.2, hnode]

theorem rewritten_moreProperties {next : String × Node} (ih : (Phrase.expr 1 node).Rewritten nested)
    (ihmore : (Phrase.properties (next :: entries)).Rewritten nested) :
    (Phrase.properties ((key, node) :: next :: entries)).Rewritten nested := by
  intro us hus
  obtain ⟨key', others, rfl, hkey, hothers⟩ := exists_fits_cons hus
  obtain ⟨colon, others, rfl, hcolon, hmembers⟩ := exists_fits_cons hothers
  obtain ⟨vs, others, rfl, hvs, hnext⟩ := exists_fits_append hmembers
  obtain ⟨comma, ws, rfl, hcomma, hws⟩ := exists_fits_cons hnext
  obtain ⟨node', hnode, hderives⟩ := ih false 1 vs (by omega) hvs
  obtain ⟨entries', hentries, hderives'⟩ := ihmore ws hws
  cases entries' with
  | nil => cases next; cases hentries
  | cons next' entries' =>
    refine ⟨_, ?_, .moreProperties hkey.1 hcolon.1 hderives hcomma.1 hderives'⟩
    rw [unlinedProperties, hentries, hkey.2, hnode]
    rfl

end Phrase

/-- **An expression can be derived again**, up to lines, from any tokens that it is written with. -/
theorem Derives.rewritten {phrase : Phrase} {ts : List Token} (h : Derives phrase ts)
    (hts : ∀ t ∈ ts, t.Lexed) (nested : Bool) : phrase.Rewritten nested := by
  induction h with
  | leaf h =>
    intro head level us hlevel hus
    exact leaf?_rewritten h nested head level hus
  | template => exact Phrase.rewritten_template
  -- Parentheses that were read leave no trace in the tree.
  | group ho h hc ih => exact ih fun t ht => hts t (by simp [ht])
  | array ho h hc ih => exact Phrase.rewritten_array (ih fun t ht => hts t (by simp [ht]))
  | object ho h hc ih => exact Phrase.rewritten_object (ih fun t ht => hts t (by simp [ht]))
  | call hlevel hcallee ho hargs hc ihcallee ihargs =>
    exact Phrase.rewritten_call (ihcallee fun t ht => hts t (by simp [ht]))
      (ihargs fun t ht => hts t (by simp [ht]))
  | unary hlevel hsign h ih =>
    exact Phrase.rewritten_unary (hts _ (by simp)) hsign (ih fun t ht => hts t (by simp [ht]))
  | binary hlevel hleft hsign hright ihleft ihright =>
    exact Phrase.rewritten_binary (hts _ (by simp)) hsign
      (ihleft fun t ht => hts t (by simp [ht])) (ihright fun t ht => hts t (by simp [ht]))
  | noItems =>
    intro us hus
    obtain rfl := List.forall₂_nil_left_iff.1 hus
    exact ⟨[], rfl, .noItems⟩
  | lastItem h ih => exact Phrase.rewritten_lastItem (ih hts)
  | moreItems h hcomma hmore ih ihmore =>
    exact Phrase.rewritten_moreItems (ih fun t ht => hts t (by simp [ht]))
      (ihmore fun t ht => hts t (by simp [ht]))
  | noProperties =>
    intro us hus
    obtain rfl := List.forall₂_nil_left_iff.1 hus
    exact ⟨[], rfl, .noProperties⟩
  | lastProperty hkey hcolon h ih =>
    exact Phrase.rewritten_lastProperty (ih fun t ht => hts t (by simp [ht]))
  | moreProperties hkey hcolon h hcomma hmore ih ihmore =>
    exact Phrase.rewritten_moreProperties (ih fun t ht => hts t (by simp [ht]))
      (ihmore fun t ht => hts t (by simp [ht]))

/-! ### What is written first -/

/-- Whether a token would continue an expression. -/
def Continues (kind : TokenKind) : Prop := kind = .leftParen ∨ (level? kind).isSome

/-- What is written first of an expression that begins a statement is no `{`. It would continue an
expression before it only if that was so of the first token that was read. -/
theorem Derives.first_symbol {level : Nat} {node : Node} {ts : List Token}
    (h : Derives (.expr level node) ts) (hts : ∀ t ∈ ts, t.Lexed) (nested : Bool) (level' : Nat) :
    ∃ symbol ∈ (node.symbols nested true level').head?, ∃ t ∈ ts.head?,
      symbol.kind ∈ operandKinds ∧ symbol.kind ≠ .leftBrace ∧
      (level' ≤ level → t.kind ≠ .leftBrace → Continues symbol.kind → Continues t.kind) := by
  generalize hphrase : Phrase.expr level node = phrase at h
  induction h generalizing level node level' with
  | @leaf held t leaf h =>
    obtain ⟨rfl, rfl⟩ := Phrase.expr.inj hphrase
    obtain ⟨symbol, hsymbols, -, hkind⟩ := leaf?_fits h (hts t (by simp)) nested true level'
    obtain ⟨_, _, hcons, hoperand⟩ := (Derives.leaf h : Derives (.expr level node) [t]).first_expr
    obtain ⟨rfl, -⟩ := List.cons.inj hcons
    have hbrace : t.kind ≠ .leftBrace := fun hk => by simp [leaf?, hk] at h
    rw [hsymbols]
    rw [← hkind] at hoperand hbrace
    exact ⟨symbol, rfl, t, rfl, hoperand, hbrace, fun _ _ hc => by rwa [hkind] at hc⟩
  | @template held opening name closing ho hn hc =>
    obtain ⟨rfl, rfl⟩ := Phrase.expr.inj hphrase
    exact ⟨_, rfl, opening, rfl, by decide, by decide, fun _ _ hc => by
      simp [Continues, Symbol.kind, level?] at hc⟩
  | @group held inner opening closing ts ho h hc ih =>
    obtain ⟨rfl, rfl⟩ := Phrase.expr.inj hphrase
    obtain ⟨symbol, hsymbol, -, -, hoperand, hbrace, -⟩ :=
      ih (fun t ht => hts t (by simp [ht])) level' rfl
    exact ⟨symbol, hsymbol, opening, rfl, hoperand, hbrace, fun _ _ _ => .inl ho⟩
  | @array held nodes opening closing ts ho h hc ih =>
    obtain ⟨rfl, rfl⟩ := Phrase.expr.inj hphrase
    exact ⟨_, rfl, opening, rfl, by decide, by decide, fun _ _ hc => by
      simp [Continues, Symbol.kind, level?] at hc⟩
  | @object held entries opening closing ts ho h hc ih =>
    obtain ⟨rfl, rfl⟩ := Phrase.expr.inj hphrase
    exact ⟨_, rfl, opening, rfl, by decide, by decide, fun _ hbrace _ => absurd ho hbrace⟩
  | @call held callee args opening closing ts us hlevel hcallee ho hargs hc ihcallee ihargs =>
    obtain ⟨rfl, rfl⟩ := Phrase.expr.inj hphrase
    obtain ⟨symbol, hsymbol, t, ht, hoperand, hbrace, hcontinues⟩ :=
      ihcallee (fun t ht => hts t (by simp [ht])) 8 rfl
    refine ⟨symbol, ?_, t, List.mem_head?_append_of_mem_head? ht, hoperand, hbrace,
      fun _ => hcontinues (Nat.le_refl 8)⟩
    rw [Node.symbols]
    exact List.mem_head?_append_of_mem_head? hsymbol
  | @unary held operand sign ts hlevel hsign h ih =>
    obtain ⟨rfl, rfl⟩ := Phrase.expr.inj hphrase
    have hkind := (hts sign (by simp)).unaryKind hsign
    rw [Node.symbols]
    by_cases hneeded : 7 < level'
    · refine ⟨.plain .leftParen "(", ?_, sign, rfl, by decide, by decide, fun hle => by omega⟩
      simp [parenthesized, hneeded]
    · refine ⟨.plain (unaryKind sign.text) sign.text, ?_, sign, rfl, ?_, ?_, fun _ _ => ?_⟩
      · simp [parenthesized, hneeded]
      · rcases hsign with hk | hk <;> simp [Symbol.kind, hkind, hk, operandKinds]
      · rcases hsign with hk | hk <;> simp [Symbol.kind, hkind, hk]
      · rw [Symbol.kind, hkind]
        exact id
  | @binary _ held left right sign ts us hlevel hleft hsign hright ihleft ihright =>
    obtain ⟨rfl, rfl⟩ := Phrase.expr.inj hphrase
    obtain ⟨-, hheld⟩ := (hts sign (by simp)).binaryKind hsign
    -- Without parentheses around the operator, its left operand is written first.
    obtain ⟨symbol, hsymbol, t, ht, hoperand, hbrace, hcontinues⟩ :=
      ihleft (fun t ht => hts t (by simp [ht])) held rfl
    have ht' := List.mem_head?_append_of_mem_head? (t := sign :: us) ht
    rw [Node.symbols, hheld]
    by_cases hneeded : held < level'
    · refine ⟨.plain .leftParen "(", ?_, t, ht', by decide, by decide, fun hle => by omega⟩
      simp [parenthesized, hneeded]
    · refine ⟨symbol, ?_, t, ht', hoperand, hbrace, fun _ => hcontinues (Nat.le_refl held)⟩
      simp only [hneeded, parenthesized, decide_false, Bool.not_false, Bool.and_true,
        Bool.false_eq_true, if_false]
      exact List.mem_head?_append_of_mem_head? hsymbol
  | noItems | lastItem | moreItems | noProperties | lastProperty | moreProperties => cases hphrase

/-- What begins a statement that is no expression. -/
def statementWords : List TokenKind :=
  [.letWord, .fnWord, .ifWord, .forWord, .whileWord, .returnWord, .leftBrace]

/-- What is written first is no `else`, and would continue an expression before it only if that was
so of the first token that was read. -/
def BeginsAlike (symbols : List Symbol) (ts : List Token) : Prop :=
  ∃ symbol ∈ symbols.head?, ∃ t ∈ ts.head?, symbol.kind ≠ .elseWord ∧
    ¬ (t.kind = .rightBrace ∨ t.kind = .endOfInput) ∧ (Continues symbol.kind → Continues t.kind)

theorem Stands.beginsAlike {node : Node} {ts : List Token} (h : Stands (.statement node) ts)
    (hts : ∀ t ∈ ts, t.Lexed) (nested : Bool) : BeginsAlike (node.symbols nested true 1) ts := by
  have hword {symbols : List Symbol} {symbol : Symbol} {t : Token}
      (hsymbol : symbol ∈ symbols.head?) (ht : t ∈ ts.head?) (hkind : t.kind = symbol.kind)
      (hmem : symbol.kind ∈ statementWords) : BeginsAlike symbols ts := by
    have hall : ∀ kind ∈ statementWords, kind ≠ .elseWord ∧
        ¬ (kind = .rightBrace ∨ kind = .endOfInput) ∧ kind ≠ .leftParen ∧ level? kind = none := by
      decide
    obtain ⟨helse, hend, hparen, hlevel⟩ := hall _ hmem
    refine ⟨symbol, hsymbol, t, ht, helse, hkind ▸ hend, fun hc => ?_⟩
    rcases hc with hc | hc
    · exact absurd hc hparen
    · simp [hlevel] at hc
  cases h with
  | expression h hfirst =>
    obtain ⟨symbol, hsymbol, t, ht, hoperand, -, hc⟩ := h.first_symbol hts nested 1
    obtain ⟨t', rest, rfl, ht'⟩ := h.first_expr
    obtain rfl : t' = t := by simpa using ht
    refine ⟨symbol, hsymbol, t', ht, ?_, ?_, hc (Nat.le_refl 1) (hfirst t' rfl)⟩
    · intro hk
      simp [operandKinds, hk] at hoperand
    · rintro (hk | hk) <;> simp [operandKinds, hk] at ht'
  | binding h | returning h | returningNothing h | function h | whileLoop h | forEach h =>
    exact hword rfl rfl h (by simp [statementWords, Symbol.kind])
  | plain h =>
    cases h with
    | block ho => exact hword rfl rfl ho (by simp [statementWords, Symbol.kind])
  | conditional h =>
    cases h with
    | branch h | branchElse h => exact hword rfl rfl h (by simp [statementWords, Symbol.kind])

theorem follows_unlined (t : Token) (node : Node) : Follows t node.unlined ↔ Follows t node := by
  cases node with
  | returning value line => cases value <;> rfl
  | _ => rfl

/-- What may come behind a statement may be something else if that does not continue an expression
either. -/
theorem Follows.of_alike {last last' : Node} {t t' : Token} (h : Follows t last)
    (hlast : last'.unlined = last.unlined)
    (hend : ¬ (t.kind = .rightBrace ∨ t.kind = .endOfInput)) (helse : t'.kind ≠ .elseWord)
    (hcontinues : Continues t'.kind → Continues t.kind) : Follows t' last' := by
  have hopen (h : t.kind ≠ .leftParen ∧ level? t.kind = none) :
      t'.kind ≠ .leftParen ∧ level? t'.kind = none := by
    have hnot : ¬ Continues t'.kind := fun hc => by simpa [Continues, h] using hcontinues hc
    simpa [Continues] using hnot
  rw [← follows_unlined, hlast, follows_unlined]
  cases last with
  | branch => exact helse
  | function | forEach | whileLoop | block => trivial
  | returning value line =>
    cases value with
    | none => exact absurd h hend
    | some value => exact hopen h
  | _ => exact hopen h

/-! ### Statements that are written again -/

/-- How a passage that was derived can be derived again, from whatever tokens it is written with. -/
def Passage.Rewritten (nested : Bool) : Passage → Prop
  | .statement node => ∀ us : List Token,
    List.Forall₂ Symbol.Fits (node.symbols nested true 1) us →
    ∃ node', node'.unlined = node.unlined ∧ Stands (.statement node') us
  | .conditional node => ∀ (head : Bool) (us : List Token),
    List.Forall₂ Symbol.Fits (node.symbols nested head 1) us →
    ∃ node', node'.unlined = node.unlined ∧ Stands (.conditional node') us
  | .elsePart node => ∀ us : List Token,
    List.Forall₂ Symbol.Fits (node.symbols nested false 1) us →
    ∃ node', node'.unlined = node.unlined ∧ Stands (.elsePart node') us
  | .block node => ∀ (head : Bool) (us : List Token),
    List.Forall₂ Symbol.Fits (node.symbols nested head 1) us →
    ∃ node', node'.unlined = node.unlined ∧ Stands (.block node') us
  | .statements nodes => ∀ us : List Token,
    List.Forall₂ Symbol.Fits (symbolsEach nested nodes) us →
    ∃ nodes', unlinedAll nodes' = unlinedAll nodes ∧ Stands (.statements nodes') us

/-- The names of parameters are read from whatever they are written with. -/
theorem parameters_of_fits (names : List String) {us : List Token}
    (hus : List.Forall₂ Symbol.Fits (nameSymbols names) us) : Parameters names us := by
  induction names generalizing us with
  | nil =>
    obtain rfl := List.forall₂_nil_left_iff.1 hus
    exact .none
  | cons name names ih =>
    cases names with
    | nil =>
      obtain ⟨t, rfl, hk, rfl⟩ := exists_fits_singleton hus
      exact .last hk
    | cons next names =>
      obtain ⟨t, rest, rfl, ⟨hk, rfl⟩, hrest⟩ := exists_fits_cons hus
      obtain ⟨comma, vs, rfl, hcomma, hvs⟩ := exists_fits_cons hrest
      exact .more hk hcomma.1 (ih hvs)

namespace Passage

variable {nested : Bool} {line : Int} {node condition body thenPart elsePart : Node}
  {nodes : List Node} {ts us : List Token}

/-- An expression that was a statement is one again: it is written without a brace in front. -/
theorem rewritten_expression (h : Derives (.expr 1 node) ts) (hts : ∀ t ∈ ts, t.Lexed) :
    (Passage.statement node).Rewritten nested := by
  intro us hus
  obtain ⟨node', hnode, hderives⟩ := h.rewritten hts nested true 1 us (by omega) hus
  obtain ⟨symbol, hsymbol, -, -, -, hbrace, -⟩ := h.first_symbol hts nested 1
  obtain ⟨t, rest, rfl, ht⟩ := exists_fits_head hus hsymbol
  refine ⟨node', hnode, .expression hderives fun t' ht' => ?_⟩
  obtain rfl : t = t' := by simpa using ht'
  rcases ht.kind_eq with hk | hk <;> simp [hk, hbrace]

theorem rewritten_binding {name : String} (ih : (Phrase.expr 1 node).Rewritten nested) :
    (Passage.statement (.binding name node line)).Rewritten nested := by
  intro us hus
  obtain ⟨word, rest, rfl, hword, hrest⟩ := exists_fits_cons hus
  obtain ⟨name', rest', rfl, hname, hrest'⟩ := exists_fits_cons hrest
  obtain ⟨sign, vs, rfl, hsign, hvs⟩ := exists_fits_cons hrest'
  obtain ⟨value, hvalue, hderives⟩ := ih false 1 vs (by omega) hvs
  refine ⟨_, ?_, .binding hword.1 hname.1 hsign.1 hderives⟩
  rw [unlined, unlined, hname.2, hvalue]

theorem rewritten_returning (ih : (Phrase.expr 1 node).Rewritten nested) :
    (Passage.statement (.returning (some node) line)).Rewritten nested := by
  intro us hus
  obtain ⟨word, vs, rfl, hword, hvs⟩ := exists_fits_cons hus
  obtain ⟨value, hvalue, hderives⟩ := ih false 1 vs (by omega) hvs
  refine ⟨_, ?_, .returning hword.1 hderives⟩
  simp only [unlined, unlinedOption, hvalue]

theorem rewritten_function {name : String} {params : List String}
    (ih : (Passage.block body).Rewritten nested) :
    (Passage.statement (.function name params body line)).Rewritten nested := by
  intro us hus
  obtain ⟨word, rest, rfl, hword, hrest⟩ := exists_fits_cons hus
  obtain ⟨name', rest', rfl, hname, hrest'⟩ := exists_fits_cons hrest
  obtain ⟨opening, others, rfl, hopening, hothers⟩ := exists_fits_cons hrest'
  obtain ⟨ps, others', rfl, hps, hothers'⟩ := exists_fits_append hothers
  obtain ⟨closing, vs, rfl, hclosing, hvs⟩ := exists_fits_cons hothers'
  obtain ⟨body', hbody, hstands⟩ := ih false vs hvs
  refine ⟨_, ?_, .function hword.1 hname.1 hopening.1 (parameters_of_fits params hps)
    hclosing.1 hstands⟩
  rw [unlined, unlined, hname.2, hbody]

theorem rewritten_whileLoop (ihcondition : (Phrase.expr 1 condition).Rewritten nested)
    (ihbody : (Passage.block body).Rewritten nested) :
    (Passage.statement (.whileLoop condition body line)).Rewritten nested := by
  intro us hus
  obtain ⟨word, rest, rfl, hword, hrest⟩ := exists_fits_cons hus
  obtain ⟨cs, vs, rfl, hcs, hvs⟩ := exists_fits_append hrest
  obtain ⟨condition', hcondition, hderives⟩ := ihcondition false 1 cs (by omega) hcs
  obtain ⟨body', hbody, hstands⟩ := ihbody false vs hvs
  refine ⟨_, ?_, .whileLoop hword.1 hderives hstands⟩
  rw [unlined, unlined, hcondition, hbody]

theorem rewritten_forEach {item : String} (ihsource : (Phrase.expr 1 node).Rewritten nested)
    (ihbody : (Passage.block body).Rewritten nested) :
    (Passage.statement (.forEach item node body line)).Rewritten nested := by
  intro us hus
  obtain ⟨word, rest, rfl, hword, hrest⟩ := exists_fits_cons hus
  obtain ⟨item', rest', rfl, hitem, hrest'⟩ := exists_fits_cons hrest
  obtain ⟨inWord, others, rfl, hin, hothers⟩ := exists_fits_cons hrest'
  obtain ⟨cs, vs, rfl, hcs, hvs⟩ := exists_fits_append hothers
  obtain ⟨source, hsource, hderives⟩ := ihsource false 1 cs (by omega) hcs
  obtain ⟨body', hbody, hstands⟩ := ihbody false vs hvs
  refine ⟨_, ?_, .forEach hword.1 hitem.1 hin hderives hstands⟩
  rw [unlined, unlined, hitem.2, hsource, hbody]

theorem rewritten_branch (ihcondition : (Phrase.expr 1 condition).Rewritten nested)
    (ihthen : (Passage.block thenPart).Rewritten nested) :
    (Passage.conditional (.branch condition thenPart none line)).Rewritten nested := by
  intro head us hus
  obtain ⟨word, rest, rfl, hword, hrest⟩ := exists_fits_cons hus
  obtain ⟨cs, vs, rfl, hcs, hvs⟩ := exists_fits_append hrest
  rw [symbolsElse, List.append_nil] at hvs
  obtain ⟨condition', hcondition, hderives⟩ := ihcondition false 1 cs (by omega) hcs
  obtain ⟨thenPart', hthen, hstands⟩ := ihthen false vs hvs
  refine ⟨_, ?_, .branch hword.1 hderives hstands⟩
  simp only [unlined, unlinedOption, hcondition, hthen]

theorem rewritten_branchElse (ihcondition : (Phrase.expr 1 condition).Rewritten nested)
    (ihthen : (Passage.block thenPart).Rewritten nested)
    (ihelse : (Passage.elsePart elsePart).Rewritten nested) :
    (Passage.conditional (.branch condition thenPart (some elsePart) line)).Rewritten nested := by
  intro head us hus
  obtain ⟨word, rest, rfl, hword, hrest⟩ := exists_fits_cons hus
  obtain ⟨cs, rest', rfl, hcs, hrest'⟩ := exists_fits_append hrest
  obtain ⟨vs, others, rfl, hvs, hothers⟩ := exists_fits_append hrest'
  obtain ⟨elseWord, ws, rfl, helseWord, hws⟩ := exists_fits_cons hothers
  obtain ⟨condition', hcondition, hderives⟩ := ihcondition false 1 cs (by omega) hcs
  obtain ⟨thenPart', hthen, hstands⟩ := ihthen false vs hvs
  obtain ⟨elsePart', helse, hstands'⟩ := ihelse ws hws
  refine ⟨_, ?_, .branchElse hword.1 hderives hstands helseWord.1 hstands'⟩
  simp only [unlined, unlinedOption, hcondition, hthen, helse]

theorem rewritten_block (ih : (Passage.statements nodes).Rewritten nested) :
    (Passage.block (.block nodes line)).Rewritten nested := by
  intro head us hus
  obtain ⟨opening, inside, closing, rfl, hopening, hinside, hclosing⟩ := exists_fits_bracket hus
  obtain ⟨nodes', hnodes, hstands⟩ := ih inside hinside
  refine ⟨_, ?_, .block hopening.1 hstands hclosing.1⟩
  rw [unlined, unlined, hnodes]

/-- What is written first of the last statement does not go on the one before it either. -/
theorem rewritten_moreStatements (ih : (Passage.statements nodes).Rewritten nested)
    (ihnext : (Passage.statement node).Rewritten nested)
    (hbegins : BeginsAlike (node.symbols nested true 1) us)
    (hfollows : ∀ last ∈ nodes.getLast?, ∀ t ∈ us.head?, Follows t last) :
    (Passage.statements (nodes ++ [node])).Rewritten nested := by
  intro vs hvs
  rw [symbolsEach_append, symbolsEach, symbolsEach, List.append_nil] at hvs
  obtain ⟨front, back, rfl, hfront, hback⟩ := exists_fits_append hvs
  obtain ⟨nodes', hnodes, hstands⟩ := ih front hfront
  obtain ⟨node', hnode, hstands'⟩ := ihnext back hback
  obtain ⟨symbol, hsymbol, t, ht, helse, hend, hcontinues⟩ := hbegins
  obtain ⟨t', rest, rfl, ht'⟩ := exists_fits_head hback hsymbol
  rw [unlinedAll_eq_map, unlinedAll_eq_map] at hnodes
  refine ⟨nodes' ++ [node'], ?_, .moreStatements hstands hstands' ?_⟩
  · rw [unlinedAll_eq_map, unlinedAll_eq_map, List.map_append, List.map_append, hnodes]
    simp [hnode]
  · intro last' hlast' first hfirst
    obtain rfl : t' = first := by simpa using hfirst
    have hlasts : (nodes'.map unlined).getLast? = (nodes.map unlined).getLast? := by rw [hnodes]
    rw [List.getLast?_map, List.getLast?_map, hlast'] at hlasts
    obtain ⟨last, hlast, hsame⟩ := Option.map_eq_some_iff.1 hlasts.symm
    refine (hfollows last hlast t ht).of_alike hsame.symm hend ?_ ?_
    · rcases ht'.kind_eq with hk | hk <;> simp [hk, helse]
    · rcases ht'.kind_eq with hk | hk
      · rwa [hk]
      · simp [hk, Continues, level?]

end Passage

/-- **Statements can be derived again**, up to lines, from any tokens that they are written with. -/
theorem Stands.rewritten {passage : Passage} {ts : List Token} (h : Stands passage ts)
    (hts : ∀ t ∈ ts, t.Lexed) (nested : Bool) : passage.Rewritten nested := by
  induction h with
  | expression h hfirst => exact Passage.rewritten_expression h hts
  | binding hword hname hsign h =>
    exact Passage.rewritten_binding (h.rewritten (fun t ht => hts t (by simp [ht])) nested)
  | returning hword h =>
    exact Passage.rewritten_returning (h.rewritten (fun t ht => hts t (by simp [ht])) nested)
  | returningNothing hword =>
    intro us hus
    obtain ⟨word, rfl, hword⟩ := exists_fits_singleton hus
    exact ⟨.returning none word.line, rfl, .returningNothing hword.1⟩
  | function hword hname ho hparams hc hbody ih =>
    exact Passage.rewritten_function (ih fun t ht => hts t (by simp [ht]))
  | whileLoop hword hcondition hbody ih =>
    exact Passage.rewritten_whileLoop
      (hcondition.rewritten (fun t ht => hts t (by simp [ht])) nested)
      (ih fun t ht => hts t (by simp [ht]))
  | forEach hword hitem hin hsource hbody ih =>
    exact Passage.rewritten_forEach (hsource.rewritten (fun t ht => hts t (by simp [ht])) nested)
      (ih fun t ht => hts t (by simp [ht]))
  | plain h ih =>
    intro us hus
    obtain ⟨node', hnode, hstands⟩ := ih hts true us hus
    exact ⟨node', hnode, .plain hstands⟩
  | conditional h ih =>
    intro us hus
    obtain ⟨node', hnode, hstands⟩ := ih hts true us hus
    exact ⟨node', hnode, .conditional hstands⟩
  | elseBlock h ih =>
    intro us hus
    obtain ⟨node', hnode, hstands⟩ := ih hts false us hus
    exact ⟨node', hnode, .elseBlock hstands⟩
  | elseIf h ih =>
    intro us hus
    obtain ⟨node', hnode, hstands⟩ := ih hts false us hus
    exact ⟨node', hnode, .elseIf hstands⟩
  | branch hword hcondition hthen ih =>
    exact Passage.rewritten_branch (hcondition.rewritten (fun t ht => hts t (by simp [ht])) nested)
      (ih fun t ht => hts t (by simp [ht]))
  | branchElse hword hcondition hthen helseWord helse ih ihelse =>
    exact Passage.rewritten_branchElse
      (hcondition.rewritten (fun t ht => hts t (by simp [ht])) nested)
      (ih fun t ht => hts t (by simp [ht])) (ihelse fun t ht => hts t (by simp [ht]))
  | block ho h hc ih => exact Passage.rewritten_block (ih fun t ht => hts t (by simp [ht]))
  | noStatements =>
    intro us hus
    obtain rfl := List.forall₂_nil_left_iff.1 hus
    exact ⟨[], rfl, .noStatements⟩
  | @moreStatements nodes node ts us h hnext hfollows ih ihnext =>
    have hnextLexed : ∀ t ∈ us, t.Lexed := fun t ht => hts t (by simp [ht])
    exact Passage.rewritten_moreStatements (ih fun t ht => hts t (by simp [ht])) (ihnext hnextLexed)
      (hnext.beginsAlike hnextLexed nested) hfollows

end Reader

/-! ### Symbols as text -/

namespace Symbol

/-- The ways to write a symbol: a number with any digits that have its value, a string between
quotes of either kind with a backslash before each such quote, the key of an object as a name or as
a string, and everything else as it is. -/
def Written : Symbol → String → Prop
  | plain kind text, raw =>
    ∃ quote : Char, isQuote quote ∧ raw = Lexeme.written (fun _ => quote) (kind, text)
  | number value, raw =>
    Lexeme.Spells .number raw.toList raw.toList ∧ numberValue? raw = some value
  | key text, raw => (isName text ∧ raw = text) ∨
    ∃ quote : Char, isQuote quote ∧ raw = Lexeme.written (fun _ => quote) (.string, text)

end Symbol

namespace Symbol

variable {symbol : Symbol} {t : Token} {raw : String}

theorem Fits.exists_written (h : symbol.Fits t) (ht : t.Lexed) : ∃ raw, symbol.Written raw := by
  cases symbol with
  | plain kind text => exact ⟨_, '"', rfl, rfl⟩
  | number value =>
    obtain ⟨hk, hvalue⟩ := h
    obtain ⟨raw, hraw⟩ := ht
    refine ⟨t.text, ?_, hvalue⟩
    have htext := hraw.text_eq (by simp [hk])
    rwa [← htext, hk] at hraw
  | key text => exact ⟨_, .inr ⟨'"', rfl, rfl⟩⟩

/-- However a symbol is written, what is read is a token that fits it. -/
theorem Written.exists_spells (hraw : symbol.Written raw) (h : symbol.Fits t) (ht : t.Lexed) :
    ∃ content : Token.Content, Lexeme.Spells content.1 content.2.toList raw.toList ∧
      ∀ t : Token, t.content = content → symbol.Fits t := by
  obtain ⟨piece, hpiece⟩ := ht
  have hstring (hk : t.kind = .identifier ∨ t.kind = .string) {quote : Char} (hq : isQuote quote) :
      Lexeme.Spells .string t.text.toList
        (Lexeme.written (fun _ => quote) (.string, t.text)).toList :=
    Lexeme.spells_written_string hq (hpiece.word_of.getLast?_ne hk)
  cases symbol with
  | plain kind text =>
    obtain ⟨rfl, rfl⟩ := h
    obtain ⟨quote, hq, rfl⟩ := hraw
    refine ⟨(t.kind, t.text), ?_, fun _ ht => Prod.mk.inj ht⟩
    by_cases hk : t.kind = .string
    · rw [hk]
      exact hstring (.inr hk) hq
    · rw [Lexeme.written_of_ne hk]
      have htext := hpiece.text_eq hk
      rwa [← htext] at hpiece
  | number value =>
    obtain ⟨hspells, hvalue⟩ := hraw
    refine ⟨(.number, raw), hspells, fun t ht => ?_⟩
    obtain ⟨hk, rfl⟩ := Prod.mk.inj ht
    exact ⟨hk, hvalue⟩
  | key text =>
    obtain ⟨hk, rfl⟩ := h
    rcases hraw with ⟨hname, rfl⟩ | ⟨quote, hq, rfl⟩
    · refine ⟨(.identifier, t.text), ?_, fun _ ht => (Prod.mk.inj ht).imp_left .inl⟩
      have hspelled : Spelled (fun _ => '"') [(.identifier, t.text)] := .name hname .nil
      have hspells := hspelled _ (List.mem_singleton_self _)
      rwa [Lexeme.written_of_ne (by decide)] at hspells
    · exact ⟨(.string, t.text), hstring hk hq, fun _ ht => (Prod.mk.inj ht).imp_left .inr⟩

theorem exists_written {symbols : List Symbol}
    (h : ∀ symbol ∈ symbols, ∃ t : Token, t.Lexed ∧ symbol.Fits t) :
    ∃ raws, List.Forall₂ Symbol.Written symbols raws := by
  induction symbols with
  | nil => exact ⟨[], .nil⟩
  | cons symbol symbols ih =>
    obtain ⟨t, ht, hfits⟩ := h symbol List.mem_cons_self
    obtain ⟨raw, hraw⟩ := hfits.exists_written ht
    obtain ⟨raws, hraws⟩ := ih fun symbol hsymbol => h symbol (List.mem_cons_of_mem _ hsymbol)
    exact ⟨raw :: raws, .cons hraw hraws⟩

/-- However symbols are written, with blanks between them, what is read are tokens that fit them. -/
theorem exists_fits_ofSource {symbols : List Symbol} {raws : List String}
    (hraws : List.Forall₂ Symbol.Written symbols raws)
    (h : ∀ symbol ∈ symbols, ∃ t : Token, t.Lexed ∧ symbol.Fits t) :
    ∃ us eof, Token.ofSource (" ".intercalate raws) = us ++ [eof] ∧ eof.kind = .endOfInput ∧
      List.Forall₂ Symbol.Fits symbols us := by
  have hcontents : ∃ contents : List Token.Content,
      List.Forall₂ (fun c raw => Lexeme.Spells c.1 c.2.toList raw.toList) contents raws ∧
      ∀ us : List Token, us.map Token.content = contents → List.Forall₂ Symbol.Fits symbols us := by
    induction hraws with
    | nil => exact ⟨[], .nil, fun us hus => by rw [List.map_eq_nil_iff.1 hus]; exact .nil⟩
    | @cons symbol raw symbols raws hraw hraws ih =>
      obtain ⟨t, ht, hfits⟩ := h symbol List.mem_cons_self
      obtain ⟨content, hspells, hcontent⟩ := hraw.exists_spells hfits ht
      obtain ⟨contents, hall, hus⟩ :=
        ih fun symbol hsymbol => h symbol (List.mem_cons_of_mem _ hsymbol)
      refine ⟨content :: contents, .cons hspells hall, fun vs hvs => ?_⟩
      obtain ⟨u, us, rfl, hu, hrest⟩ := List.map_eq_cons_iff.1 hvs
      exact .cons (hcontent u hu) (hus us hrest)
  obtain ⟨contents, hspells, hfits⟩ := hcontents
  have htokens : (Token.ofSource (" ".intercalate raws)).map Token.content =
      contents ++ [(.endOfInput, "")] := Lexeme.content_tokens_intercalate hspells .start
  obtain ⟨us, last, hsource, hus, hlast⟩ := List.map_eq_append_iff.1 htokens
  obtain ⟨eof, rfl, heof⟩ := List.map_eq_singleton_iff.1 hlast
  exact ⟨us, eof, hsource, (Prod.mk.inj heof).1, hfits us hus⟩

end Symbol

/-! ### Programs that are written again -/

/-- Every symbol of a program that was read is that of a token. -/
theorem Program.exists_fits {source : String} {program : Program}
    (h : ofSource source = .ok program) (nested : Bool) :
    ∀ symbol ∈ program.symbols nested, ∃ t : Token, t.Lexed ∧ symbol.Fits t := by
  obtain ⟨ts, eof, -, -, hts, hstands⟩ := exists_stands h
  have hagrees := hstands.agrees (fun t ht => (hts t ht).2) nested true 1
  intro symbol hsymbol
  rcases hagrees.mem symbol hsymbol with ⟨t, ht, hfits⟩ | hparen
  · exact ⟨t, (hts t ht).2, hfits⟩
  · rcases List.mem_pair.1 hparen with rfl | rfl
    · have hopening : (TokenKind.leftParen, "(") ∈ Lexeme.fixedContents := by decide
      exact ⟨⟨.leftParen, "(", 0, 0⟩, ⟨_, Lexeme.spells_fixed hopening⟩, rfl, rfl⟩
    · have hclosing : (TokenKind.rightParen, ")") ∈ Lexeme.fixedContents := by decide
      exact ⟨⟨.rightParen, ")", 0, 0⟩, ⟨_, Lexeme.spells_fixed hclosing⟩, rfl, rfl⟩

/-- **What was read and is written down again is read as the same program.** -/
theorem Program.ofSource_rewritten (nested : Bool) {source : String} {program : Program}
    (h : ofSource source = .ok program) :
    (∃ raws, List.Forall₂ Symbol.Written (program.symbols nested) raws) ∧
      ∀ raws, List.Forall₂ Symbol.Written (program.symbols nested) raws →
        ∃ again : Program, again.unlined = program.unlined ∧
          (ofSource (" ".intercalate raws) = .ok again ∨
            ∃ line column, ofSource (" ".intercalate raws) =
              .error ⟨.nestingTooDeep, line, column⟩) ∧
          ∃ enough, ∀ limit, enough ≤ limit →
            run limit start (Token.ofSource (" ".intercalate raws)) = .program again := by
  have hfits := exists_fits h nested
  refine ⟨Symbol.exists_written hfits, fun raws hraws => ?_⟩
  · obtain ⟨ts, -, -, -, hts, hstands⟩ := exists_stands h
    obtain ⟨us, eof, hsource, heof, hus⟩ := Symbol.exists_fits_ofSource hraws hfits
    obtain ⟨nodes, hnodes, hagain⟩ :=
      hstands.rewritten (fun t ht => (hts t ht).2) nested us hus
    obtain ⟨s', hsteps, hrun⟩ := hagain.steps_program
    refine ⟨⟨nodes⟩, ?_, ?_, ?_⟩
    · rw [unlined, unlined, hnodes]
    · rcases run_append_of_steps hsteps nestingLimit [eof] with heq | ⟨line, column, heq⟩
      · refine .inl (ofSource_of_run ?_)
        rw [hsource, heq, hrun eof heof nestingLimit]
      · refine .inr ⟨line, column, ofSource_of_error ?_⟩
        rw [hsource, heq]
    · obtain ⟨enough, henough⟩ := exists_limit_of_steps hsteps
      refine ⟨enough, fun limit hle => ?_⟩
      rw [hsource, henough limit hle [eof], hrun eof heof limit]

/-- A minus in parentheses behind a block is written without them. -/
theorem Program.ofSource_rewritten_minus :
    let source := "let x = a \x7b\x7d ((-b))"
    let program : Program := ⟨[.binding "x" (.identifier "a" 1) 1, .block [] 1,
      .unary "-" (.identifier "b" 1) 1]⟩
    let raws := ["let", "x", "=", "a", "\x7b", "\x7d", "-", "b"]
    ofSource source = .ok program ∧
      List.Forall₂ Symbol.Written (program.symbols false) raws ∧
      ∃ again : Program, again.unlined = program.unlined ∧
        (ofSource (" ".intercalate raws) = .ok again ∨
          ∃ line column, ofSource (" ".intercalate raws) =
            .error ⟨.nestingTooDeep, line, column⟩) ∧
        ∃ enough, ∀ limit, enough ≤ limit →
          run limit start (Token.ofSource (" ".intercalate raws)) = .program again := by
  intro source program raws
  have h : ofSource source = .ok program := by
    revert program source
    with_unfolding_all rfl
  have hsymbols : program.symbols false = [.plain .letWord "let", .plain .identifier "x",
      .plain .assign "=", .plain .identifier "a", .plain .leftBrace "\x7b",
      .plain .rightBrace "\x7d", .plain .minus "-", .plain .identifier "b"] := by rfl
  have hplain {kind : TokenKind} (text : String) (hk : kind ≠ .string) :
      Symbol.Written (.plain kind text) text := ⟨'"', rfl, (Lexeme.written_of_ne hk _ text).symm⟩
  have hraws : List.Forall₂ Symbol.Written (program.symbols false) raws := by
    rw [hsymbols]
    simp [raws, hplain]
  exact ⟨h, hraws, (ofSource_rewritten false h).2 raws hraws⟩

end PageScript
