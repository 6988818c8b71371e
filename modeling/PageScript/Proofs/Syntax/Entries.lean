import PageScript.Proofs.Lexing.Words
import PageScript.Proofs.Literal
import PageScript.Proofs.Syntax.Indentation
import PageScript.Proofs.Syntax.WellFormed

/-!
The entries of an outline. Every node is an entry with its parts below it, and an `else` is an entry
next to its `if`. The text of an entry shows the kind of its node and what else the node holds
besides its parts, all on one line.
-/
namespace PageScript

/-! ### Words -/

/-- Whether a text has the form of an identifier. -/
def Text.isWord (text : String) : Bool :=
  match text.toList with
  | [] => false
  | c :: cs => isIdentStart c && cs.all isIdentChar

namespace Text

theorem isWord_iff {text : String} :
    isWord text ↔ ∃ c cs, text.toList = c :: cs ∧ isIdentStart c ∧ ∀ d ∈ cs, isIdentChar d := by
  unfold isWord
  cases text.toList with
  | nil => simp
  | cons c cs => simp

theorem isIdentChar_of_isWord {text : String} (h : isWord text) :
    ∀ c ∈ text.toList, isIdentChar c := by
  obtain ⟨c, cs, hcons, hc, hcs⟩ := isWord_iff.1 h
  rw [hcons]
  exact List.forall_mem_cons.2 ⟨Lexeme.isIdentChar_of_isIdentStart hc, hcs⟩

theorem newline_not_mem_of_isWord {text : String} (h : isWord text) : '\n' ∉ text.toList :=
  fun hmem => absurd (isIdentChar_of_isWord h _ hmem) (by decide)

/-- The words behind the first one, with their commas. -/
def behindWord : List String → List Char
  | [] => []
  | word :: words => ',' :: ' ' :: (", ".intercalate (word :: words)).toList

theorem toList_intercalate_cons (word : String) (words : List String) :
    (", ".intercalate (word :: words)).toList = word.toList ++ behindWord words := by
  cases words with
  | nil => simp [behindWord]
  | cons next words =>
    simp only [String.toList_intercalate, List.map_cons, List.intercalate_cons_cons, behindWord,
      List.append_assoc]
    rfl

theorem newline_not_mem_intercalate {words : List String} (h : ∀ word ∈ words, isWord word) :
    '\n' ∉ (", ".intercalate words).toList := by
  induction words with
  | nil => exact List.not_mem_nil
  | cons word words ih =>
    obtain ⟨hword, hwords⟩ := List.forall_mem_cons.1 h
    rw [toList_intercalate_cons, List.mem_append, not_or]
    refine ⟨newline_not_mem_of_isWord hword, ?_⟩
    cases words with
    | nil => exact List.not_mem_nil
    | cons next words => simpa [behindWord] using ih hwords

/-- Words with commas between them and a parenthesis behind them are read back. -/
theorem intercalate_inj {words words' : List String} (h : ∀ word ∈ words, isWord word)
    (h' : ∀ word ∈ words', isWord word)
    (heq : (", ".intercalate words).toList ++ [')'] = (", ".intercalate words').toList ++ [')']) :
    words = words' := by
  have hfirst {word : String} (hword : isWord word) (words : List String) (more : List Char) :
      (", ".intercalate (word :: words)).toList ++ more ≠ [')'] := by
    obtain ⟨c, cs, hcons, hc, -⟩ := isWord_iff.1 hword
    intro h
    rw [toList_intercalate_cons, hcons] at h
    rw [(List.cons.inj h).1] at hc
    revert hc
    decide
  have hstop (words : List String) (c : Char) (hc : (behindWord words ++ [')']).head? = some c) :
      isIdentChar c = false := by
    cases words <;> cases hc <;> rfl
  induction words generalizing words' with
  | nil =>
    cases words' with
    | nil => rfl
    | cons word' words' => exact absurd heq.symm (hfirst (h' _ List.mem_cons_self) words' _)
  | cons word words ih =>
    cases words' with
    | nil => exact absurd heq (hfirst (h _ List.mem_cons_self) words _)
    | cons word' words' =>
      rw [List.forall_mem_cons] at h h'
      simp only [toList_intercalate_cons, List.append_assoc] at heq
      obtain ⟨hword, hbehind⟩ := append_inj_of_stop (isIdentChar_of_isWord h.1)
        (isIdentChar_of_isWord h'.1) (hstop words) (hstop words') heq
      obtain rfl := String.toList_inj.1 hword
      cases words with
      | nil =>
        cases words' with
        | nil => rfl
        | cons next' words' => cases (List.cons.inj hbehind).1
      | cons next words =>
        cases words' with
        | nil => cases (List.cons.inj hbehind).1
        | cons next' words' =>
          have hmore := (List.cons.inj (List.cons.inj hbehind).2).2
          rw [ih h.2 h'.2 hmore]

end Text

/-! ### Titles -/

namespace Node

/-- What stands behind the kind of a node in its line. -/
def label : Node → String
  | .binding name _ _ | .identifier name _ | .template name _ => " " ++ name
  | .forEach item _ _ _ => " " ++ item
  | .function name params _ _ => " " ++ (name ++ ("(" ++ (", ".intercalate params ++ ")")))
  | .binary operator _ _ _ | .unary operator _ _ => " " ++ operator
  | .literal value _ => " " ++ value.inline
  | _ => ""

/-- The line of a node. -/
def title (node : Node) : String := node.kind ++ node.label

/-- The names that a node holds itself. -/
def names : Node → List String
  | .binding name _ _ | .identifier name _ | .template name _ => [name]
  | .forEach item _ _ _ => [item]
  | .function name params _ _ => name :: params
  | _ => []

def keys : Node → List String
  | .object properties _ => properties.map (·.1)
  | _ => []

/-- Whether the line of a node can be read: its names and keys are words, its operator is known,
and it is a part of a program. -/
structure IsLegible (node : Node) : Prop where
  form : node.isStatement ∨ node.isExpression
  operator : node.hasKnownOperator
  names : ∀ name ∈ node.names, Text.isWord name
  keys : ∀ key ∈ node.keys, Text.isWord key

/-- A tree of legible nodes. -/
def Legible (node : Node) : Prop := ∀ n ∈ node.nodes, n.IsLegible

theorem Legible.root {node : Node} (h : node.Legible) : node.IsLegible :=
  h node node.mem_nodes_self

theorem Legible.child {node child : Node} (h : node.Legible) (hchild : child ∈ node.children) :
    child.Legible :=
  fun n hn => h n (nodes_subset hchild hn)

/-! ### Entries -/

mutual

/-- The entries of a node: one, and another for the `else` of an `if`. -/
def entries : Node → List OutlineEntry
  | .program .. => []
  | .binding name value _ => [.mk ("Let " ++ name) (entries value)]
  | .function name params body _ =>
    [.mk ("Function " ++ name ++ "(" ++ ", ".intercalate params ++ ")") (entries body)]
  | .branch condition thenPart elsePart _ =>
    .mk "If" (entries condition ++ entries thenPart) :: entriesElse elsePart
  | .forEach item source body _ => [.mk ("For " ++ item) (entries source ++ entries body)]
  | .whileLoop condition body _ => [.mk "While" (entries condition ++ entries body)]
  | .returning value _ => [.mk "Return" (entriesValue value)]
  | .block statements _ => [.mk "Block" (entriesAll statements)]
  | .binary operator left right _ =>
    [.mk ("BinaryExpr " ++ operator) (entries left ++ entries right)]
  | .unary operator operand _ => [.mk ("UnaryExpr " ++ operator) (entries operand)]
  | .call callee args _ => [.mk "Call" (entries callee ++ entriesAll args)]
  | .identifier name _ => [.mk ("Identifier " ++ name) []]
  | .literal value _ => [.mk ("Literal " ++ value.inline) []]
  | .array elements _ => [.mk "Array" (entriesAll elements)]
  | .object properties _ => [.mk "Object" (entriesProperties properties)]
  | .template name _ => [.mk ("Template " ++ name) []]

def entriesElse : Option Node → List OutlineEntry
  | none => []
  | some node => [.mk "Else" (entries node)]

def entriesValue : Option Node → List OutlineEntry
  | none => []
  | some node => entries node

def entriesAll : List Node → List OutlineEntry
  | [] => []
  | node :: rest => entries node ++ entriesAll rest

def entriesProperties : List (String × Node) → List OutlineEntry
  | [] => []
  | (key, value) :: rest => .mk (key ++ ":") (entries value) :: entriesProperties rest

end

open OutlineEntry in
mutual

/-- The outline of a node has the lines of its entries. -/
theorem outline_eq : ∀ (node : Node) (depth : Nat),
    outline depth node = linesAll depth (entries node)
  | .program .., _ | .identifier .., _ | .literal .., _ | .template .., _ => by
    simp [outline, entries, linesAll, lines]
  | .binding _ value _, depth | .function _ _ value _, depth | .unary _ value _, depth => by
    simp [outline, entries, linesAll, lines, outline_eq value]
  | .branch condition thenPart elsePart _, depth => by
    simp [outline, entries, linesAll, lines, linesAll_append, outline_eq condition,
      outline_eq thenPart, outlineElse_eq elsePart]
  | .forEach _ source body _, depth => by
    simp [outline, entries, linesAll, lines, linesAll_append, outline_eq source, outline_eq body]
  | .whileLoop condition body _, depth => by
    simp [outline, entries, linesAll, lines, linesAll_append, outline_eq condition,
      outline_eq body]
  | .returning value _, depth => by
    simp [outline, entries, linesAll, lines, outlineValue_eq value]
  | .binary _ left right _, depth => by
    simp [outline, entries, linesAll, lines, linesAll_append, outline_eq left, outline_eq right]
  | .call callee args _, depth => by
    simp [outline, entries, linesAll, lines, linesAll_append, outline_eq callee,
      outlineAll_eq args]
  | .block nodes _, depth | .array nodes _, depth => by
    simp [outline, entries, linesAll, lines, outlineAll_eq nodes]
  | .object properties _, depth => by
    simp [outline, entries, linesAll, lines, outlineProperties_eq properties]

theorem outlineElse_eq : ∀ (value : Option Node) (depth : Nat),
    outlineElse depth value = linesAll depth (entriesElse value)
  | none, _ => rfl
  | some node, depth => by simp [outlineElse, entriesElse, linesAll, lines, outline_eq node]

theorem outlineValue_eq : ∀ (value : Option Node) (depth : Nat),
    outlineValue depth value = linesAll depth (entriesValue value)
  | none, _ => rfl
  | some node, depth => outline_eq node depth

theorem outlineAll_eq : ∀ (nodes : List Node) (depth : Nat),
    outlineAll depth nodes = linesAll depth (entriesAll nodes)
  | [], _ => rfl
  | node :: rest, depth => by
    rw [outlineAll, entriesAll, linesAll_append, outline_eq node, outlineAll_eq rest]

theorem outlineProperties_eq : ∀ (properties : List (String × Node)) (depth : Nat),
    outlineProperties depth properties = linesAll depth (entriesProperties properties)
  | [], _ => rfl
  | (key, value) :: rest, depth => by
    simp [outlineProperties, entriesProperties, linesAll, lines, outline_eq value,
      outlineProperties_eq rest]

end

theorem entriesAll_eq_flatMap (nodes : List Node) : entriesAll nodes = nodes.flatMap entries := by
  induction nodes with
  | nil => rfl
  | cons node rest ih => rw [entriesAll, ih, List.flatMap_cons]

theorem entriesProperties_eq_map (properties : List (String × Node)) :
    entriesProperties properties =
      properties.map fun entry => .mk (entry.1 ++ ":") entry.2.entries := by
  induction properties with
  | nil => rfl
  | cons entry rest ih => rw [entriesProperties, ih, List.map_cons]

/-- The entries below the line of a node. -/
def entriesBelow : Node → List OutlineEntry
  | .branch condition thenPart _ _ => [condition, thenPart].flatMap entries
  | .object properties _ => properties.map fun entry => .mk (entry.1 ++ ":") entry.2.entries
  | node => node.children.flatMap entries

/-- The entry next to that of an `if`. -/
def entriesBeside : Node → List OutlineEntry
  | .branch _ _ (some node) _ => [.mk "Else" node.entries]
  | _ => []

/-- Every node of a program has an entry, and no other than that and the `else` beside it. -/
theorem entries_eq {node : Node} (h : node.isStatement ∨ node.isExpression) :
    node.entries = .mk node.title node.entriesBelow :: node.entriesBeside := by
  have hfunction (name params : String) : "Function " ++ name ++ "(" ++ params ++ ")" =
      "Function" ++ (" " ++ (name ++ ("(" ++ (params ++ ")")))) := by
    simp only [← String.append_assoc]
    rfl
  cases node with
  | program => simp [isStatement, isExpression] at h
  | function =>
    simp [entries, title, label, kind, entriesBelow, entriesBeside, children, operands, parts,
      body?, hfunction]
  | branch condition thenPart elsePart =>
    cases elsePart <;>
      simp [entries, entriesElse, title, label, kind, entriesBelow, entriesBeside]
  | returning value =>
    cases value <;>
      simp [entries, entriesValue, title, label, kind, entriesBelow, entriesBeside, children,
        operands, parts, body?]
  | object =>
    simp [entries, title, label, kind, entriesBelow, entriesBeside, entriesProperties_eq_map]
  | _ =>
    simp [entries, title, label, kind, entriesBelow, entriesBeside, children, operands, parts,
      body?, ← String.append_assoc, entriesAll_eq_flatMap]

/-! ### Titles are read back -/

def kinds : List String :=
  ["Program", "Let", "Function", "If", "For", "While", "Return", "Block", "BinaryExpr",
   "UnaryExpr", "Call", "Identifier", "Literal", "Array", "Object", "Template"]

theorem kind_mem_kinds (node : Node) : node.kind ∈ kinds := by
  cases node <;> simp [kind, kinds]

theorem isWord_kind (node : Node) : Text.isWord node.kind := by
  have hall : ∀ kind ∈ kinds, Text.isWord kind := by decide
  exact hall _ node.kind_mem_kinds

theorem label_cases (node : Node) : node.label = "" ∨ ∃ text, node.label = " " ++ text := by
  cases node
  all_goals first | exact .inl rfl | exact .inr ⟨_, rfl⟩

theorem head?_label (node : Node) (c : Char) (h : node.label.toList.head? = some c) :
    isIdentChar c = false := by
  rcases node.label_cases with hlabel | ⟨text, hlabel⟩
  · rw [hlabel] at h
    cases h
  · rw [hlabel, String.toList_append] at h
    cases h
    rfl

/-- The kind of a node, and what else it holds, are read off its line. -/
theorem title_inj {a b : Node} (h : a.title = b.title) : a.kind = b.kind ∧ a.label = b.label := by
  have hlist := congrArg String.toList h
  simp only [title, String.toList_append] at hlist
  obtain ⟨hkind, hlabel⟩ := Text.append_inj_of_stop (Text.isIdentChar_of_isWord a.isWord_kind)
    (Text.isIdentChar_of_isWord b.isWord_kind) a.head?_label b.head?_label hlist
  exact ⟨String.toList_inj.1 hkind, String.toList_inj.1 hlabel⟩

theorem title_ne_else (node : Node) : node.title ≠ "Else" := by
  intro h
  have hlist := congrArg String.toList h
  rw [title, String.toList_append, ← List.append_nil "Else".toList] at hlist
  have helse : Text.isWord "Else" := by decide
  have hkind := (Text.append_inj_of_stop (Text.isIdentChar_of_isWord node.isWord_kind)
    (Text.isIdentChar_of_isWord helse) node.head?_label (fun _ h => by cases h) hlist).1
  have hall : ∀ kind ∈ kinds, kind ≠ "Else" := by decide
  exact hall _ node.kind_mem_kinds (String.toList_inj.1 hkind)

theorem newline_not_mem_of_lookup {table : List (String × TokenKind)} {operator : String}
    (htable : ∀ entry ∈ table, '\n' ∉ entry.1.toList) (h : (table.lookup operator).isSome) :
    '\n' ∉ operator.toList := by
  obtain ⟨kind, hkind⟩ := Option.isSome_iff_exists.1 h
  exact htable _ (Lexeme.mem_of_lookup hkind)

theorem newline_not_mem_label {node : Node} (h : node.IsLegible) :
    '\n' ∉ node.label.toList := by
  have hnames := h.names
  have hoperator := h.operator
  have hblank {text : String} (h : '\n' ∉ text.toList) : '\n' ∉ (" " ++ text).toList := by
    simpa [String.toList_append] using h
  cases node with
  | binding name | identifier name | template name | forEach name =>
    exact hblank (Text.newline_not_mem_of_isWord (hnames name List.mem_cons_self))
  | function name params =>
    obtain ⟨hname, hparams⟩ := List.forall_mem_cons.1 hnames
    apply hblank
    simp only [String.toList_append, List.mem_append, Text.newline_not_mem_of_isWord hname,
      Text.newline_not_mem_intercalate hparams, false_or]
    decide
  | binary operator =>
    exact hblank (newline_not_mem_of_lookup (by decide) hoperator)
  | unary operator =>
    exact hblank (newline_not_mem_of_lookup (by decide) hoperator)
  | literal value => exact hblank value.newline_not_mem_inline
  | _ => exact List.not_mem_nil

/-! ### Lines are plain -/

/-- Lines that begin with a word can be told apart. -/
theorem isPlain_append {word more : String} (hword : Text.isWord word)
    (hmore : '\n' ∉ more.toList) (depth : Nat) : (OutlineLine.mk depth (word ++ more)).IsPlain := by
  constructor
  · rw [String.toList_append, List.mem_append, not_or]
    exact ⟨Text.newline_not_mem_of_isWord hword, hmore⟩
  · obtain ⟨c, cs, hcons, hc, -⟩ := Text.isWord_iff.1 hword
    rintro d hd rfl
    rw [String.toList_append, hcons] at hd
    cases hd
    revert hc
    decide

theorem isPlain_word {word : String} (hword : Text.isWord word) (depth : Nat) :
    (OutlineLine.mk depth word).IsPlain := by
  simpa using @isPlain_append word "" hword List.not_mem_nil depth

theorem mem_entriesBelow {node : Node} {entry : OutlineEntry} (h : entry ∈ node.entriesBelow) :
    ∃ child ∈ node.children, entry ∈ child.entries ∨
      ∃ key ∈ node.keys, entry = .mk (key ++ ":") child.entries := by
  unfold entriesBelow at h
  split at h
  · obtain ⟨child, hchild, hentry⟩ := List.mem_flatMap.1 h
    refine ⟨child, ?_, .inl hentry⟩
    rcases List.mem_cons.1 hchild with rfl | hchild
    · exact mem_children_of_operand List.mem_cons_self
    · obtain rfl := List.mem_singleton.1 hchild
      exact mem_children_of_part List.mem_cons_self
  · obtain ⟨property, hproperty, rfl⟩ := List.mem_map.1 h
    exact ⟨property.2, mem_children_of_operand (List.mem_map_of_mem hproperty),
      .inr ⟨property.1, List.mem_map_of_mem hproperty, rfl⟩⟩
  · obtain ⟨child, hchild, hentry⟩ := List.mem_flatMap.1 h
    exact ⟨child, hchild, .inl hentry⟩

theorem mem_entriesBeside {node : Node} {entry : OutlineEntry} (h : entry ∈ node.entriesBeside) :
    ∃ child ∈ node.children, entry = .mk "Else" child.entries := by
  unfold entriesBeside at h
  split at h
  · obtain rfl := List.mem_singleton.1 h
    exact ⟨_, mem_children_of_part (List.mem_cons_of_mem _ List.mem_cons_self), rfl⟩
  · cases h

/-- The lines of a legible tree can be told apart. -/
theorem Legible.plain {node : Node} (h : node.Legible) : ∀ entry ∈ node.entries, entry.Plain := by
  intro entry hentry
  rw [entries_eq h.root.form, List.mem_cons] at hentry
  rcases hentry with rfl | hentry
  · refine .mk (isPlain_append node.isWord_kind (newline_not_mem_label h.root)) ?_
    intro entry hentry
    obtain ⟨child, hchild, hentry | ⟨key, hkey, rfl⟩⟩ := mem_entriesBelow hentry
    · exact (h.child hchild).plain entry hentry
    · exact .mk (isPlain_append (h.root.keys key hkey) (by decide)) (h.child hchild).plain
  · obtain ⟨child, hchild, rfl⟩ := mem_entriesBeside hentry
    exact .mk (isPlain_word (by decide)) (h.child hchild).plain
termination_by node.size
decreasing_by all_goals exact size_lt_of_mem_children hchild

end Node
end PageScript
