import PageScript.Proofs.Syntax.Symbols
import PageScript.Proofs.Syntax.Trees

/-!
Well-formed trees. Every tree that the reader builds has expressions where values are asked for,
operators of the language, and blocks for the bodies of functions and loops and the parts of
branches; behind an `else` there may also be another `if`.
-/
namespace PageScript
namespace Node

def hasKnownOperator : Node → Bool
  | .binary operator _ _ _ => (binaryOperators.lookup operator).isSome
  | .unary operator _ _ => (unaryOperators.lookup operator).isSome
  | _ => true

/-- Whether the bodies of a node are blocks, and its branches are. -/
def hasBlocks : Node → Bool
  | .function _ _ body _ | .forEach _ _ body _ | .whileLoop _ body _ => body.isBlock
  | .branch _ thenPart elsePart _ =>
    thenPart.isBlock && elsePart.all fun part => part.isBlock || part.isBranch
  | _ => true

/-- Whether each part of a node, and its operator, is of the kind that its place asks for. -/
def isWellFormed (node : Node) : Bool :=
  node.operands.all isExpression &&
    node.parts.all (fun part => part.isStatement || part.isExpression) &&
    node.hasKnownOperator && node.hasBlocks

theorem isWellFormed_iff {node : Node} :
    node.isWellFormed ↔
      (∀ operand ∈ node.operands, operand.isExpression) ∧
      (∀ part ∈ node.parts, part.isStatement ∨ part.isExpression) ∧
      node.hasKnownOperator ∧ node.hasBlocks := by
  simp only [isWellFormed, Bool.and_eq_true, List.all_eq_true, Bool.or_eq_true, and_assoc]

/-- A tree of well-formed nodes. -/
def WellFormed (node : Node) : Prop := ∀ n ∈ node.nodes, n.isWellFormed

/-- A well-formed expression. -/
def IsGoodExpression (node : Node) : Prop := node.isExpression ∧ node.WellFormed

/-- A well-formed statement; an expression is one, too. -/
def IsGoodStatement (node : Node) : Prop :=
  (node.isStatement ∨ node.isExpression) ∧ node.WellFormed

namespace WellFormed
variable {node n : Node}

theorem root (h : node.WellFormed) : node.isWellFormed := h node node.mem_nodes_self

theorem child (h : node.WellFormed) {child : Node} (hchild : child ∈ node.children) :
    child.WellFormed :=
  fun n hn => h n (nodes_subset hchild hn)

theorem operand (h : node.WellFormed) (hn : n ∈ node.operands) : n.IsGoodExpression :=
  ⟨(isWellFormed_iff.1 h.root).1 n hn, h.child (mem_children_of_operand hn)⟩

theorem part (h : node.WellFormed) (hn : n ∈ node.parts) : n.IsGoodStatement :=
  ⟨(isWellFormed_iff.1 h.root).2.1 n hn, h.child (mem_children_of_part hn)⟩

theorem hasKnownOperator (h : node.WellFormed) : node.hasKnownOperator :=
  (isWellFormed_iff.1 h.root).2.2.1

theorem hasBlocks (h : node.WellFormed) : node.hasBlocks := (isWellFormed_iff.1 h.root).2.2.2

/-- A node is well formed if its parts are, and each is of the kind that its place asks for. -/
theorem of_children (hoperands : ∀ operand ∈ node.operands, operand.IsGoodExpression)
    (hparts : ∀ part ∈ node.parts, part.IsGoodStatement)
    (hbody : ∀ body ∈ node.body?, body.WellFormed) (hknown : node.hasKnownOperator)
    (hblocks : node.hasBlocks) : node.WellFormed := by
  intro n hn
  rw [nodes_eq] at hn
  rcases List.mem_cons.1 hn with rfl | hn
  · apply isWellFormed_iff.2
    exact ⟨fun operand h => (hoperands operand h).1, fun part h => (hparts part h).1, hknown,
      hblocks⟩
  · obtain ⟨child, hchild, hn⟩ := List.mem_flatMap.1 hn
    rcases List.mem_append.1 hchild with hchild | hchild
    · rcases List.mem_append.1 hchild with hchild | hchild
      · exact (hoperands child hchild).2 n hn
      · exact (hparts child hchild).2 n hn
    · exact hbody child (Option.mem_toList.1 hchild) n hn

end WellFormed

/-- A node of which all parts are good expressions. -/
theorem isGoodExpression_of_operands {node : Node} (hform : node.isExpression)
    (hknown : node.hasKnownOperator) (hparts : ∀ child ∈ node.operands, child.IsGoodExpression) :
    node.IsGoodExpression := by
  have hrest : node.parts = [] ∧ node.body? = none ∧ node.hasBlocks := by
    cases node <;> first | exact ⟨rfl, rfl, rfl⟩ | cases hform
  refine ⟨hform, .of_children hparts ?_ ?_ hknown hrest.2.2⟩
  · rw [hrest.1]
    exact fun _ h => nomatch h
  · rw [hrest.2.1]
    exact fun _ h => nomatch h

end Node

namespace Reader
open Node

/-! ### What the grammar derives -/

/-- What is well formed of a phrase. -/
def Phrase.WellFormed : Phrase → Prop
  | .expr _ node => node.IsGoodExpression
  | .items nodes => ∀ node ∈ nodes, node.IsGoodExpression
  | .properties entries => ∀ entry ∈ entries, entry.2.IsGoodExpression

theorem leaf?_wellFormed {t : Token} {node : Node} (h : leaf? t = some node) :
    node.IsGoodExpression := by
  unfold leaf? at h
  split at h
  case h_3 =>
    obtain ⟨n, -, rfl⟩ := Option.map_eq_some_iff.1 h
    exact isGoodExpression_of_operands rfl rfl (by simp [operands])
  case h_6 => cases h
  all_goals
    cases h
    exact isGoodExpression_of_operands rfl rfl (by simp [operands])

/-- **Expressions that are derived are well formed.** -/
theorem Derives.wellFormed {phrase : Phrase} {ts : List Token} (h : Derives phrase ts)
    (hts : ∀ t ∈ ts, t.Lexed) : phrase.WellFormed := by
  induction h with
  | leaf h => exact leaf?_wellFormed h
  | template => exact isGoodExpression_of_operands rfl rfl (by simp [operands])
  | group ho h hc ih => exact ih fun t ht => hts t (by simp [ht])
  | array ho h hc ih =>
    exact isGoodExpression_of_operands rfl rfl (ih fun t ht => hts t (by simp [ht]))
  | object ho h hc ih =>
    refine isGoodExpression_of_operands rfl rfl ?_
    intro child hchild
    obtain ⟨entry, hentry, rfl⟩ := List.mem_map.1 hchild
    exact ih (fun t ht => hts t (by simp [ht])) entry hentry
  | call hlevel hcallee ho hargs hc ihcallee ihargs =>
    refine isGoodExpression_of_operands rfl rfl ?_
    intro child hchild
    rcases List.mem_cons.1 hchild with rfl | hchild
    · exact ihcallee fun t ht => hts t (by simp [ht])
    · exact ihargs (fun t ht => hts t (by simp [ht])) child hchild
  | @unary level operand sign ts hlevel hsign h ih =>
    have hkind := (hts sign (by simp)).unaryKind hsign
    refine isGoodExpression_of_operands rfl ?_ ?_
    · -- The kind of an unknown sign would be that of an error.
      show (unaryOperators.lookup sign.text).isSome
      cases hlookup : unaryOperators.lookup sign.text with
      | some kind => rfl
      | none =>
        rw [Node.unaryKind, hlookup, Option.getD_none] at hkind
        rcases hsign with hk | hk <;> rw [hk] at hkind <;> cases hkind
    · intro child hchild
      obtain rfl := List.mem_singleton.1 hchild
      exact ih fun t ht => hts t (by simp [ht])
  | @binary level held left right sign ts us hlevel hleft hsign hright ihleft ihright =>
    obtain ⟨hkind, -⟩ := (hts sign (by simp)).binaryKind hsign
    refine isGoodExpression_of_operands rfl ?_ ?_
    · show (binaryOperators.lookup sign.text).isSome
      cases hlookup : binaryOperators.lookup sign.text with
      | some kind => rfl
      | none =>
        rw [Node.binaryKind, hlookup, Option.getD_none] at hkind
        rw [← hkind] at hsign
        cases hsign
    · intro child hchild
      simp only [operands, List.mem_cons, List.not_mem_nil, or_false] at hchild
      rcases hchild with rfl | rfl
      · exact ihleft fun t ht => hts t (by simp [ht])
      · exact ihright fun t ht => hts t (by simp [ht])
  | noItems | noProperties =>
    intro _ h
    cases h
  | lastItem h ih =>
    intro node hnode
    obtain rfl := List.mem_singleton.1 hnode
    exact ih hts
  | moreItems h hcomma hmore ih ihmore =>
    intro node hnode
    rcases List.mem_cons.1 hnode with rfl | hnode
    · exact ih fun t ht => hts t (by simp [ht])
    · exact ihmore (fun t ht => hts t (by simp [ht])) node hnode
  | lastProperty hkey hcolon h ih =>
    intro entry hentry
    obtain rfl := List.mem_singleton.1 hentry
    exact ih fun t ht => hts t (by simp [ht])
  | moreProperties hkey hcolon h hcomma hmore ih ihmore =>
    intro entry hentry
    rcases List.mem_cons.1 hentry with rfl | hentry
    · exact ih fun t ht => hts t (by simp [ht])
    · exact ihmore (fun t ht => hts t (by simp [ht])) entry hentry

/-- What is well formed of a passage. -/
def Passage.WellFormed : Passage → Prop
  | .statement node => node.IsGoodStatement
  | .conditional node => node.isBranch ∧ node.WellFormed
  | .elsePart node => (node.isBlock ∨ node.isBranch) ∧ node.WellFormed
  | .block node => node.isBlock ∧ node.WellFormed
  | .statements nodes => ∀ node ∈ nodes, node.IsGoodStatement

theorem isStatement_of_isBlock {node : Node} (h : node.isBlock) : node.isStatement := by
  cases node <;> first | rfl | cases h

theorem isStatement_of_isBranch {node : Node} (h : node.isBranch) : node.isStatement := by
  cases node <;> first | rfl | cases h

/-- **Statements that are derived are well formed.** -/
theorem Stands.wellFormed {passage : Passage} {ts : List Token} (h : Stands passage ts)
    (hts : ∀ t ∈ ts, t.Lexed) : passage.WellFormed := by
  have hnone {list : List Node} (h : list = []) {p : Node → Prop} : ∀ node ∈ list, p node := by
    rw [h]
    exact fun _ h => nomatch h
  have hbodyless {node : Node} (h : node.body? = none) : ∀ body ∈ node.body?, body.WellFormed := by
    rw [h]
    exact fun _ h => nomatch h
  have hblock {node : Node} (h : node.isBlock ∧ node.WellFormed) : node.IsGoodStatement :=
    ⟨.inl (isStatement_of_isBlock h.1), h.2⟩
  induction h with
  | expression h hfirst =>
    obtain ⟨hform, hwell⟩ := h.wellFormed hts
    exact ⟨.inr hform, hwell⟩
  | binding hword hname hsign h =>
    have hvalue := h.wellFormed fun t ht => hts t (by simp [ht])
    exact ⟨.inl rfl, .of_children (List.forall_mem_singleton.2 hvalue) (hnone rfl) (hbodyless rfl)
      rfl rfl⟩
  | returning hword h =>
    have hvalue := h.wellFormed fun t ht => hts t (by simp [ht])
    exact ⟨.inl rfl, .of_children (List.forall_mem_singleton.2 hvalue) (hnone rfl) (hbodyless rfl)
      rfl rfl⟩
  | returningNothing =>
    exact ⟨.inl rfl, .of_children (hnone rfl) (hnone rfl) (hbodyless rfl) rfl rfl⟩
  | function hword hname ho hparams hc hbody ih =>
    obtain ⟨hform, hwell⟩ := ih fun t ht => hts t (by simp [ht])
    refine ⟨.inl rfl, .of_children (hnone rfl) (hnone rfl) ?_ rfl hform⟩
    rintro body ⟨⟩
    exact hwell
  | whileLoop hword hcondition hbody ih =>
    have hc := hcondition.wellFormed fun t ht => hts t (by simp [ht])
    have hb := ih fun t ht => hts t (by simp [ht])
    exact ⟨.inl rfl, .of_children (List.forall_mem_singleton.2 hc)
      (List.forall_mem_singleton.2 (hblock hb)) (hbodyless rfl) rfl hb.1⟩
  | forEach hword hitem hin hsource hbody ih =>
    have hs := hsource.wellFormed fun t ht => hts t (by simp [ht])
    have hb := ih fun t ht => hts t (by simp [ht])
    exact ⟨.inl rfl, .of_children (List.forall_mem_singleton.2 hs)
      (List.forall_mem_singleton.2 (hblock hb)) (hbodyless rfl) rfl hb.1⟩
  | plain h ih => exact hblock (ih hts)
  | conditional h ih =>
    obtain ⟨hform, hwell⟩ := ih hts
    exact ⟨.inl (isStatement_of_isBranch hform), hwell⟩
  | branch hword hcondition hthen ih =>
    have hc := hcondition.wellFormed fun t ht => hts t (by simp [ht])
    have hb := ih fun t ht => hts t (by simp [ht])
    refine ⟨rfl, .of_children (List.forall_mem_singleton.2 hc)
      (List.forall_mem_singleton.2 (hblock hb)) (hbodyless rfl) rfl ?_⟩
    simp [Node.hasBlocks, hb.1]
  | branchElse hword hcondition hthen helseWord helse ih ihelse =>
    have hc := hcondition.wellFormed fun t ht => hts t (by simp [ht])
    have hb := ih fun t ht => hts t (by simp [ht])
    obtain ⟨hform, hwell⟩ := ihelse fun t ht => hts t (by simp [ht])
    have helse := hform.elim isStatement_of_isBlock isStatement_of_isBranch
    refine ⟨rfl, .of_children (List.forall_mem_singleton.2 hc) ?_ (hbodyless rfl) rfl ?_⟩
    · exact List.forall_mem_cons.2 ⟨hblock hb, List.forall_mem_singleton.2 ⟨.inl helse, hwell⟩⟩
    · simp [Node.hasBlocks, hb.1, hform]
  | elseBlock h ih =>
    obtain ⟨hform, hwell⟩ := ih hts
    exact ⟨.inl hform, hwell⟩
  | elseIf h ih =>
    obtain ⟨hform, hwell⟩ := ih hts
    exact ⟨.inr hform, hwell⟩
  | block ho h hc ih =>
    have hall := ih fun t ht => hts t (by simp [ht])
    exact ⟨rfl, .of_children (hnone rfl) hall (hbodyless rfl) rfl rfl⟩
  | noStatements => exact fun _ h => nomatch h
  | moreStatements h hnext hfollows ih ihnext =>
    intro node hnode
    rcases List.mem_append.1 hnode with hnode | hnode
    · exact ih (fun t ht => hts t (by simp [ht])) node hnode
    · obtain rfl := List.mem_singleton.1 hnode
      exact ihnext fun t ht => hts t (by simp [ht])

end Reader

/-- **Programs that are read are well formed.** -/
theorem Program.wellFormed_of_ofSource {source : String} {program : Program}
    (h : ofSource source = .ok program) :
    ∀ statement ∈ program.body, statement.IsGoodStatement := by
  obtain ⟨ts, eof, -, -, hts, hstands⟩ := exists_stands h
  exact hstands.wellFormed fun t ht => (hts t ht).2

/-- Each node of a program that is read is well formed by itself. -/
theorem Program.isWellFormed_of_ofSource {source : String} {program : Program}
    (h : ofSource source = .ok program) : ∀ node ∈ program.nodes, node.isWellFormed := by
  intro node hnode
  rw [nodes, Node.nodesAll_eq_flatMap] at hnode
  obtain ⟨statement, hstatement, hnode⟩ := List.mem_flatMap.1 hnode
  exact (wellFormed_of_ofSource h statement hstatement).2 node hnode

end PageScript
