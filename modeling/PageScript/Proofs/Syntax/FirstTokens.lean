import PageScript.Node.Record
import PageScript.Proofs.Syntax.Symbols
import PageScript.Proofs.Syntax.Trees

/-!
The lines of nodes. Each node below the root is read from tokens that stand one behind the other in
the source, parentheses around the whole of it aside. Its line is that of the first of them, but for
two forms: an operator between operands has the line of its sign, and a call that of the parenthesis
before its arguments. The root has line 1, wherever the program begins.
-/
namespace PageScript
open Reader

/-! ### The tokens of a node -/

namespace Node

/-- Whether tokens are those of a node with grouping parentheses around it. -/
def Grouped (node : Node) (ts : List Token) : Prop :=
  ∃ opening inner closing, ts = opening :: (inner ++ [closing]) ∧ opening.kind = .leftParen ∧
    closing.kind = .rightParen ∧ Derives (.expr 1 node) inner

/-- The tokens that a node is read from, without grouping parentheses around the whole. -/
structure ReadFrom (node : Node) (ts : List Token) : Prop where
  read : Derives (.expr 1 node) ts ∨ Stands (.statement node) ts
  bare : ¬ node.Grouped ts

/-- Whether a node is read from tokens that stand one behind the other among others. -/
def ReadWithin (node : Node) (ts : List Token) : Prop := ∃ us, us <:+: ts ∧ node.ReadFrom us

theorem ReadWithin.mono {node : Node} {ts us : List Token} (h : node.ReadWithin ts)
    (hwithin : ts <:+: us) : node.ReadWithin us := by
  obtain ⟨vs, hvs, hread⟩ := h
  exact ⟨vs, hvs.trans hwithin, hread⟩

/-- Parentheses around an expression are taken off until there are none. -/
theorem readWithin_of_read {node : Node} {ts : List Token}
    (h : Derives (.expr 1 node) ts ∨ Stands (.statement node) ts) : node.ReadWithin ts := by
  by_cases hgrouped : node.Grouped ts
  · obtain ⟨opening, inner, closing, rfl, -, -, hinner⟩ := hgrouped
    exact (readWithin_of_read (.inl hinner)).mono ⟨[opening], [closing], rfl⟩
  · exact ⟨ts, List.infix_rfl, h, hgrouped⟩
termination_by ts.length

variable {node child : Node} {nodes : List Node} {ts : List Token}

theorem readWithin_of_expression (h : Derives (.expr 1 node) ts) : node.ReadWithin ts :=
  readWithin_of_read (.inl h)

theorem readWithin_of_derives {level : Nat} (h : Derives (.expr level node) ts)
    (hlevel : 1 ≤ level) : node.ReadWithin ts :=
  readWithin_of_expression (h.mono hlevel)

theorem readWithin_of_stands (h : Stands (.statement node) ts) : node.ReadWithin ts :=
  readWithin_of_read (.inr h)

theorem readWithin_of_items (h : Derives (.items nodes) ts) (hmem : node ∈ nodes) :
    node.ReadWithin ts := by
  generalize hphrase : Phrase.items nodes = phrase at h
  induction h generalizing nodes with
  | noItems =>
    cases hphrase
    cases hmem
  | lastItem h =>
    cases hphrase
    obtain rfl := List.mem_singleton.1 hmem
    exact readWithin_of_expression h
  | @moreItems first next nodes comma ts us h hcomma hmore _ ih =>
    cases hphrase
    rcases List.mem_cons.1 hmem with rfl | hmem
    · exact (readWithin_of_expression h).mono ⟨[], comma :: us, rfl⟩
    · exact (ih hmem rfl).mono ⟨ts ++ [comma], [], by simp⟩
  | _ => cases hphrase

theorem readWithin_of_properties {entries : List (String × Node)}
    (h : Derives (.properties entries) ts) (hmem : node ∈ entries.map (·.2)) :
    node.ReadWithin ts := by
  generalize hphrase : Phrase.properties entries = phrase at h
  induction h generalizing entries with
  | noProperties =>
    cases hphrase
    cases hmem
  | @lastProperty first key colon ts hkey hcolon h =>
    cases hphrase
    obtain rfl := List.mem_singleton.1 hmem
    exact (readWithin_of_expression h).mono ⟨[key, colon], [], by simp⟩
  | @moreProperties first next entries key colon comma ts us hkey hcolon h hcomma hmore _ ih =>
    cases hphrase
    rcases List.mem_cons.1 hmem with rfl | hmem
    · exact (readWithin_of_expression h).mono ⟨[key, colon], comma :: us, by simp⟩
    · exact (ih hmem rfl).mono ⟨key :: colon :: (ts ++ [comma]), [], by simp⟩
  | _ => cases hphrase

theorem readWithin_of_statements (h : Stands (.statements nodes) ts) (hmem : node ∈ nodes) :
    node.ReadWithin ts := by
  generalize hpassage : Passage.statements nodes = passage at h
  induction h generalizing nodes with
  | noStatements =>
    cases hpassage
    cases hmem
  | @moreStatements before last ts us h hlast hfollows ih _ =>
    cases hpassage
    rcases List.mem_append.1 hmem with hmem | hmem
    · exact (ih hmem rfl).mono ⟨[], us, rfl⟩
    · obtain rfl := List.mem_singleton.1 hmem
      exact (readWithin_of_stands hlast).mono ⟨ts, [], by simp⟩
  | _ => cases hpassage

/-! ### The tokens of parts -/

theorem child_readWithin_of_derives {level : Nat} (h : Derives (.expr level node) ts)
    (hchild : child ∈ node.children) : child.ReadWithin ts := by
  -- The induction is on parentheses: inside them the same node is derived again.
  generalize hphrase : Phrase.expr level node = phrase at h
  induction h generalizing level node with
  | leaf h =>
    cases hphrase
    unfold leaf? at h
    split at h
    case h_3 =>
      obtain ⟨n, -, rfl⟩ := Option.map_eq_some_iff.1 h
      cases hchild
    case h_6 => cases h
    all_goals
      cases h
      cases hchild
  | template =>
    cases hphrase
    cases hchild
  | @group level node opening closing ts ho h hc ih =>
    cases hphrase
    exact (ih hchild rfl).mono ⟨[opening], [closing], rfl⟩
  | @array level nodes opening closing ts ho h hc _ =>
    cases hphrase
    have hmem : child ∈ nodes := by simpa [children, operands, parts, body?] using hchild
    exact (readWithin_of_items h hmem).mono ⟨[opening], [closing], rfl⟩
  | @object level entries opening closing ts ho h hc _ =>
    cases hphrase
    have hmem : child ∈ entries.map (·.2) := by
      simpa [children, operands, parts, body?] using hchild
    exact (readWithin_of_properties h hmem).mono ⟨[opening], [closing], rfl⟩
  | @call level callee args opening closing ts us hlevel hcallee ho hargs hc _ _ =>
    cases hphrase
    have hmem : child = callee ∨ child ∈ args := by
      simpa [children, operands, parts, body?] using hchild
    rcases hmem with rfl | hmem
    · exact (readWithin_of_derives hcallee (by decide)).mono ⟨[], _, rfl⟩
    · exact (readWithin_of_items hargs hmem).mono ⟨ts ++ [opening], [closing], by simp⟩
  | @unary level operand sign ts hlevel hsign h _ =>
    cases hphrase
    have hmem : child = operand := by simpa [children, operands, parts, body?] using hchild
    subst hmem
    exact (readWithin_of_derives h (by decide)).mono ⟨[sign], [], by simp⟩
  | @binary level held left right sign ts us hlevel hleft hsign hright _ _ =>
    cases hphrase
    have hmem : child = left ∨ child = right := by
      simpa [children, operands, parts, body?] using hchild
    rcases hmem with rfl | rfl
    · exact (readWithin_of_derives hleft (one_le_level? hsign)).mono ⟨[], _, rfl⟩
    · exact (readWithin_of_derives hright (Nat.le_add_left 1 held)).mono
        ⟨ts ++ [sign], [], by simp⟩
  | _ => cases hphrase

theorem child_readWithin_of_block (h : Stands (.block node) ts) (hchild : child ∈ node.children) :
    child.ReadWithin ts := by
  cases h with
  | @block nodes opening closing ts ho h hc =>
    have hmem : child ∈ nodes := by simpa [children, operands, parts, body?] using hchild
    exact (readWithin_of_statements h hmem).mono ⟨[opening], [closing], rfl⟩

theorem readWithin_of_block (h : Stands (.block node) ts) : node.ReadWithin ts :=
  readWithin_of_stands (.plain h)

theorem readWithin_of_elsePart (h : Stands (.elsePart node) ts) : node.ReadWithin ts := by
  cases h with
  | elseBlock h => exact readWithin_of_block h
  | elseIf h => exact readWithin_of_stands (.conditional h)

theorem child_readWithin_of_conditional (h : Stands (.conditional node) ts)
    (hchild : child ∈ node.children) : child.ReadWithin ts := by
  cases h with
  | @branch condition thenPart word cs ts hword hcondition hthen =>
    have hmem : child = condition ∨ child = thenPart := by
      simpa [children, operands, parts, body?] using hchild
    rcases hmem with rfl | rfl
    · exact (readWithin_of_expression hcondition).mono ⟨[word], ts, by simp⟩
    · exact (readWithin_of_block hthen).mono ⟨word :: cs, [], by simp⟩
  | @branchElse condition thenPart elsePart word elseWord cs ts us hword hcondition hthen helseWord
      helse =>
    have hmem : child = condition ∨ child = thenPart ∨ child = elsePart := by
      simpa [children, operands, parts, body?] using hchild
    rcases hmem with rfl | rfl | rfl
    · exact (readWithin_of_expression hcondition).mono ⟨[word], _, rfl⟩
    · exact (readWithin_of_block hthen).mono ⟨word :: cs, elseWord :: us, by simp⟩
    · exact (readWithin_of_elsePart helse).mono ⟨word :: (cs ++ (ts ++ [elseWord])), [], by simp⟩

theorem child_readWithin_of_stands (h : Stands (.statement node) ts)
    (hchild : child ∈ node.children) : child.ReadWithin ts := by
  cases h with
  | expression h hfirst => exact child_readWithin_of_derives h hchild
  | plain h => exact child_readWithin_of_block h hchild
  | conditional h => exact child_readWithin_of_conditional h hchild
  | returningNothing => cases hchild
  | @binding value word name sign ts hword hname hsign h =>
    have hmem : child = value := by simpa [children, operands, parts, body?] using hchild
    subst hmem
    exact (readWithin_of_expression h).mono ⟨[word, name, sign], [], by simp⟩
  | @returning value word ts hword h =>
    have hmem : child = value := by simpa [children, operands, parts, body?] using hchild
    subst hmem
    exact (readWithin_of_expression h).mono ⟨[word], [], by simp⟩
  | @function params body word name opening closing ps ts hword hname ho hparams hc hbody =>
    have hmem : child = body := by simpa [children, operands, parts, body?] using hchild
    subst hmem
    exact (readWithin_of_block hbody).mono
      ⟨word :: name :: opening :: (ps ++ [closing]), [], by simp⟩
  | @whileLoop condition body word cs ts hword hcondition hbody =>
    have hmem : child = condition ∨ child = body := by
      simpa [children, operands, parts, body?] using hchild
    rcases hmem with rfl | rfl
    · exact (readWithin_of_expression hcondition).mono ⟨[word], ts, by simp⟩
    · exact (readWithin_of_block hbody).mono ⟨word :: cs, [], by simp⟩
  | @forEach source body word item inWord cs ts hword hitem hin hsource hbody =>
    have hmem : child = source ∨ child = body := by
      simpa [children, operands, parts, body?] using hchild
    rcases hmem with rfl | rfl
    · exact (readWithin_of_expression hsource).mono ⟨[word, item, inWord], ts, by simp⟩
    · exact (readWithin_of_block hbody).mono ⟨word :: item :: inWord :: cs, [], by simp⟩

theorem ReadFrom.child_readWithin (h : node.ReadFrom ts) (hchild : child ∈ node.children) :
    child.ReadWithin ts := by
  rcases h.read with hread | hread
  · exact child_readWithin_of_derives hread hchild
  · exact child_readWithin_of_stands hread hchild

/-- All nodes of a tree are read from tokens of its root. -/
theorem ReadFrom.nodes_readWithin {node : Node} {ts : List Token} (h : node.ReadFrom ts) :
    ∀ n ∈ node.nodes, n.ReadWithin ts := by
  intro n hn
  rw [nodes_eq, List.mem_cons] at hn
  rcases hn with rfl | hn
  · exact ⟨ts, List.infix_rfl, h⟩
  · obtain ⟨child, hchild, hn⟩ := List.mem_flatMap.1 hn
    obtain ⟨us, hus, hread⟩ := h.child_readWithin hchild
    exact (hread.nodes_readWithin n hn).mono hus
termination_by node.size
decreasing_by exact size_lt_of_mem_children hchild

/-! ### The lines of nodes -/

/-- The line of a node, given its tokens: an operator between operands has that of its sign, which
comes behind the left operand, a call that of the parenthesis behind the callee, and every other
node that of its first token. -/
def LinedBy (ts : List Token) : Node → Prop
  | .binary operator left right line =>
    ∃ level ls sign rs, ts = ls ++ sign :: rs ∧ level? sign.kind = some level ∧
      Derives (.expr level left) ls ∧ Derives (.expr (level + 1) right) rs ∧
      operator = sign.text ∧ line = sign.line
  | .call callee args line =>
    ∃ cs opening us closing, ts = cs ++ opening :: (us ++ [closing]) ∧
      opening.kind = .leftParen ∧ Derives (.expr 8 callee) cs ∧ Derives (.items args) us ∧
      closing.kind = .rightParen ∧ line = opening.line
  | node => ∃ first rest, ts = first :: rest ∧ node.line = first.line

theorem linedBy_of_derives {level : Nat} (h : Derives (.expr level node) ts)
    (hbare : ¬ node.Grouped ts) : node.LinedBy ts := by
  cases h with
  | @leaf level t node h =>
    unfold leaf? at h
    split at h
    case h_3 =>
      obtain ⟨n, -, rfl⟩ := Option.map_eq_some_iff.1 h
      exact ⟨t, [], rfl, rfl⟩
    case h_6 => cases h
    all_goals
      cases h
      exact ⟨t, [], rfl, rfl⟩
  | group ho h hc => exact absurd ⟨_, _, _, rfl, ho, hc, h⟩ hbare
  | template | array | object | unary => exact ⟨_, _, rfl, rfl⟩
  | call hlevel hcallee ho hargs hc => exact ⟨_, _, _, _, rfl, ho, hcallee, hargs, hc, rfl⟩
  | binary hlevel hleft hsign hright => exact ⟨_, _, _, _, rfl, hsign, hleft, hright, rfl, rfl⟩

theorem linedBy_of_stands (h : Stands (.statement node) ts) (hbare : ¬ node.Grouped ts) :
    node.LinedBy ts := by
  cases h with
  | expression h hfirst => exact linedBy_of_derives h hbare
  | plain h =>
    cases h
    exact ⟨_, _, rfl, rfl⟩
  | conditional h => cases h <;> exact ⟨_, _, rfl, rfl⟩
  | _ => exact ⟨_, _, rfl, rfl⟩

theorem ReadFrom.linedBy (h : node.ReadFrom ts) : node.LinedBy ts := by
  rcases h.read with hread | hread
  · exact linedBy_of_derives hread h.bare
  · exact linedBy_of_stands hread h.bare

/-- The line of a node is that of one of its tokens. -/
theorem ReadFrom.exists_line (h : node.ReadFrom ts) : ∃ t ∈ ts, node.line = t.line := by
  have hline := h.linedBy
  unfold LinedBy at hline
  split at hline
  · obtain ⟨level, ls, sign, rs, rfl, -, -, -, -, hline⟩ := hline
    exact ⟨sign, by simp, hline⟩
  · obtain ⟨cs, opening, us, closing, rfl, -, -, -, -, hline⟩ := hline
    exact ⟨opening, by simp, hline⟩
  · obtain ⟨first, rest, rfl, hline⟩ := hline
    exact ⟨first, List.mem_cons_self, hline⟩

end Node

namespace Program
variable {source : String} {program : Program}

/-- Each node of a program is read from tokens of the source before its end. -/
theorem readWithin_of_ofSource (h : ofSource source = .ok program) :
    ∃ ts eof, Token.ofSource source = ts ++ [eof] ∧ (∀ t ∈ ts, t.kind ≠ .endOfInput) ∧
      ∀ node ∈ program.nodes, node.ReadWithin ts := by
  obtain ⟨ts, eof, hsource, -, hlexed, hstands⟩ := exists_stands h
  refine ⟨ts, eof, hsource, fun t ht => (hlexed t ht).1, fun node hnode => ?_⟩
  rw [nodes, Node.nodesAll_eq_flatMap] at hnode
  obtain ⟨statement, hmem, hnode⟩ := List.mem_flatMap.1 hnode
  obtain ⟨us, hus, hread⟩ := Node.readWithin_of_statements hstands hmem
  exact (hread.nodes_readWithin node hnode).mono hus

/-- On the line of every node of a program there is a token of the source. -/
theorem exists_token_of_node (h : ofSource source = .ok program) {node : Node}
    (hnode : node ∈ program.nodes) :
    ∃ t ∈ Token.ofSource source, t.kind ≠ .endOfInput ∧ t.line = node.line := by
  obtain ⟨ts, eof, hsource, hkind, hread⟩ := readWithin_of_ofSource h
  obtain ⟨us, hus, hnode⟩ := hread node hnode
  obtain ⟨t, ht, hline⟩ := hnode.exists_line
  have hmem : t ∈ ts := hus.subset ht
  exact ⟨t, hsource ▸ List.mem_append_left _ hmem, hkind t hmem, hline.symm⟩

/-- The root of the tree of a program. -/
def root (program : Program) : Node := .program program.body 1

theorem nodes_root (program : Program) : program.root.nodes = program.root :: program.nodes := rfl

/-- **Lines.** Every node of a program below its root is read from tokens that stand one behind the
other in the source. Whichever these are, parentheses around the whole node aside, an operator
between operands has the line of its sign, a call that of the parenthesis behind its callee, and any
other node that of the first of them. The root has line 1. -/
theorem nodes_linedBy (h : ofSource source = .ok program) :
    ∀ node ∈ program.root.nodes,
      node = program.root ∧ node.line = 1 ∨
      (∃ ts, ts <:+: Token.ofSource source ∧ node.ReadFrom ts) ∧
        ∀ ts, node.ReadFrom ts → node.LinedBy ts := by
  intro node hnode
  rw [nodes_root, List.mem_cons] at hnode
  rcases hnode with rfl | hnode
  · exact .inl ⟨rfl, rfl⟩
  · obtain ⟨ts, eof, hsource, -, hread⟩ := readWithin_of_ofSource h
    have hwithin : node.ReadWithin (Token.ofSource source) :=
      (hread node hnode).mono ⟨[], [eof], hsource.symm⟩
    exact .inr ⟨hwithin, fun us hus => hus.linedBy⟩

/-- A sum on three lines whose second operand is a call. -/
theorem nodes_linedBy_sum :
    let source := "a\n+ f\n()"
    let call : Node := .call (.identifier "f" 2) [] 3
    let sum : Node := .binary "+" (.identifier "a" 1) call 2
    ofSource source = .ok ⟨[sum]⟩ ∧ (∃ ts, ts <:+: Token.ofSource source ∧ sum.ReadFrom ts) ∧
      (∀ ts, sum.ReadFrom ts → sum.LinedBy ts) ∧ ∀ ts, call.ReadFrom ts → call.LinedBy ts := by
  intro source call sum
  have h : ofSource source = .ok ⟨[sum]⟩ := by
    revert sum call source
    with_unfolding_all rfl
  have hall := nodes_linedBy h
  obtain ⟨hroot, -⟩ | ⟨hread, hsum⟩ := hall sum (.tail _ (.head _))
  · simp [root, sum] at hroot
  obtain ⟨hroot, -⟩ | ⟨-, hcall⟩ := hall call (.tail _ (.tail _ (.tail _ (.head _))))
  · simp [root, call] at hroot
  exact ⟨h, hread, hsum, hcall⟩

/-- A node need not have the line of its first token: a sum whose first operand stands on the line
before has that of its sign. -/
theorem not_forall_line_of_first :
    ¬ ∀ source program, ofSource source = .ok program → ∀ node ∈ program.root.nodes,
      ∀ first rest, first :: rest <:+: Token.ofSource source → node.ReadFrom (first :: rest) →
        node.line = first.line := by
  intro hall
  let a : Token := ⟨.identifier, "a", 1, 1⟩
  let plus : Token := ⟨.plus, "+", 2, 1⟩
  let f : Token := ⟨.identifier, "f", 2, 3⟩
  let opening : Token := ⟨.leftParen, "(", 3, 1⟩
  let closing : Token := ⟨.rightParen, ")", 3, 2⟩
  let call : Node := .call (.identifier "f" 2) [] opening.line
  let sum : Node := .binary plus.text (.identifier "a" 1) call plus.line
  have h : ofSource "a\n+ f\n()" = .ok ⟨[sum]⟩ := by
    clear hall
    with_unfolding_all rfl
  have htokens : Token.ofSource "a\n+ f\n()" =
      a :: [plus, f, opening, closing] ++ [⟨.endOfInput, "", 3, 3⟩] := by
    decide +kernel
  have hcall : Derives (.expr 8 call) ([f] ++ opening :: ([] ++ [closing])) :=
    .call (Nat.le_refl 8) (.leaf rfl) rfl .noItems rfl
  have hsum : Derives (.expr 5 sum) ([a] ++ plus :: [f, opening, closing]) :=
    .binary (Nat.le_refl 5) (.leaf rfl) rfl (hcall.mono (by decide))
  have hbare : ¬ sum.Grouped (a :: [plus, f, opening, closing]) := by
    rintro ⟨first, inner, last, heq, hfirst, -⟩
    rw [← (List.cons.inj heq).1] at hfirst
    cases hfirst
  have hline := hall _ _ h sum (.tail _ (.head _)) a [plus, f, opening, closing]
    (htokens ▸ ⟨[], _, rfl⟩) ⟨.inl (hsum.mono (by decide)), hbare⟩
  cases hline

end Program
end PageScript
