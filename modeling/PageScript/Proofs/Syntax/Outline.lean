import PageScript.Proofs.Syntax.Entries
import PageScript.Proofs.Syntax.FirstTokens
import PageScript.Proofs.Syntax.Lines

/-!
Outlines tell trees. Nodes are read back from their entries: what is below an entry says what the
parts of its node are, and since no other entry has the text of an `else`, each of these belongs to
the `if` before it. So a program can be read back from its outline, up to lines.
-/
namespace PageScript
namespace Node

/-! ### Trees are read back -/

theorem label_append_inj {text text' : String} (h : " " ++ text = " " ++ text') : text = text' := by
  have hlist := congrArg String.toList h
  rw [String.toList_append, String.toList_append] at hlist
  exact String.toList_inj.1 (List.append_cancel_left hlist)

theorem label_function_inj {name name' : String} {params params' : List String}
    (h : ∀ word ∈ name :: params, Text.isWord word)
    (h' : ∀ word ∈ name' :: params', Text.isWord word)
    (heq : " " ++ (name ++ ("(" ++ (", ".intercalate params ++ ")"))) =
      " " ++ (name' ++ ("(" ++ (", ".intercalate params' ++ ")")))) :
    name = name' ∧ params = params' := by
  rw [List.forall_mem_cons] at h h'
  have hlist := congrArg String.toList (label_append_inj heq)
  simp only [String.toList_append] at hlist
  obtain ⟨hname, hparams⟩ := Text.append_inj_of_stop (Text.isIdentChar_of_isWord h.1)
    (Text.isIdentChar_of_isWord h'.1) (fun c hc => by cases hc; rfl) (fun c hc => by cases hc; rfl)
    hlist
  exact ⟨String.toList_inj.1 hname, Text.intercalate_inj h.2 h'.2 (List.append_cancel_left hparams)⟩

/-- Trees are the same up to lines if they are of the same kind, hold the same, and their parts are
the same up to lines. -/
theorem unlined_congr {a b : Node} (ha : a.IsLegible) (hb : b.IsLegible) (hkind : a.kind = b.kind)
    (hlabel : a.label = b.label) (hkeys : a.keys = b.keys)
    (hchildren : a.children.map unlined = b.children.map unlined) : a.unlined = b.unlined := by
  have hoption {value value' : Option Node}
      (h : unlinedAll value.toList = unlinedAll value'.toList) :
      unlinedOption value = unlinedOption value' := by
    cases value <;> cases value' <;> simp_all [unlinedAll, unlinedOption]
  cases a <;> cases b <;> simp [kind] at hkind
  all_goals
    simp only [children, operands, parts, body?, List.append_nil, List.nil_append, List.map_cons,
      List.map_nil, List.cons_append, Option.toList_none, Option.toList_some, List.cons.injEq,
      and_true, ← unlinedAll_eq_map] at hchildren
  case program.program => rw [unlined, unlined, hchildren]
  case binding.binding => rw [unlined, unlined, label_append_inj hlabel, hchildren]
  case function.function =>
    obtain ⟨rfl, rfl⟩ := label_function_inj ha.names hb.names hlabel
    rw [unlined, unlined, hchildren]
  case branch.branch =>
    obtain ⟨hcondition, hthen, helse⟩ := hchildren
    rw [unlined, unlined, hcondition, hthen, hoption helse]
  case forEach.forEach =>
    rw [unlined, unlined, label_append_inj hlabel, hchildren.1, hchildren.2]
  case whileLoop.whileLoop => rw [unlined, unlined, hchildren.1, hchildren.2]
  case returning.returning => rw [unlined, unlined, hoption hchildren]
  case block.block => rw [unlined, unlined, hchildren]
  case binary.binary =>
    rw [unlined, unlined, label_append_inj hlabel, hchildren.1, hchildren.2]
  case unary.unary => rw [unlined, unlined, label_append_inj hlabel, hchildren]
  case call.call => rw [unlined, unlined, hchildren.1, hchildren.2]
  case identifier.identifier => rw [unlined, unlined, label_append_inj hlabel]
  case literal.literal =>
    rw [unlined, unlined, Literal.inline_inj (label_append_inj hlabel)]
  case array.array => rw [unlined, unlined, hchildren]
  case object.object properties _ properties' _ =>
    have hsplit (properties : List (String × Node)) : unlinedProperties properties =
        (properties.map (·.1)).zip ((properties.map (·.2)).map unlined) := by
      rw [unlinedProperties_eq_map, List.map_map, List.zip_map']
      rfl
    have hkeys : properties.map (·.1) = properties'.map (·.1) := hkeys
    rw [unlinedAll_eq_map, unlinedAll_eq_map] at hchildren
    rw [unlined, unlined, hsplit, hsplit, hkeys, hchildren]
  case template.template => rw [unlined, unlined, label_append_inj hlabel]

/-- Whether entries do not begin with that of an `else`. -/
def NoElse (entries : List OutlineEntry) : Prop :=
  ∀ text below, entries.head? = some (.mk text below) → text ≠ "Else"

/-- What follows the entries of one node is not taken for its `else`. -/
theorem noElse_flatMap {nodes : List Node} (h : ∀ node ∈ nodes, node.Legible) :
    NoElse (nodes.flatMap entries) := by
  intro text below hhead
  cases nodes with
  | nil => cases hhead
  | cons node rest =>
    rw [List.flatMap_cons, entries_eq (h node List.mem_cons_self).root.form] at hhead
    cases hhead
    exact node.title_ne_else

/-- Whether a node, and where its entries end, can be read back. -/
def ReadBack (a : Node) : Prop :=
  ∀ {b : Node} {x y : List OutlineEntry}, b.Legible → NoElse x → NoElse y →
    a.entries ++ x = b.entries ++ y → a.unlined = b.unlined ∧ x = y

theorem flatMap_entries_inj {as bs : List Node} (has : ∀ a ∈ as, a.Legible)
    (hread : ∀ a ∈ as, a.ReadBack) (hbs : ∀ b ∈ bs, b.Legible)
    (h : as.flatMap entries = bs.flatMap entries) : as.map unlined = bs.map unlined := by
  have hne {node : Node} (hnode : node.Legible) (rest : List OutlineEntry) :
      node.entries ++ rest ≠ [] := by
    rw [entries_eq hnode.root.form]
    exact List.cons_ne_nil _ _
  induction as generalizing bs with
  | nil =>
    cases bs with
    | nil => rfl
    | cons b bs => exact absurd h.symm (hne (hbs b List.mem_cons_self) _)
  | cons a as ih =>
    cases bs with
    | nil => exact absurd h (hne (has a List.mem_cons_self) _)
    | cons b bs =>
      rw [List.forall_mem_cons] at has hread hbs
      obtain ⟨hfirst, hrest⟩ :=
        hread.1 hbs.1 (noElse_flatMap has.2) (noElse_flatMap hbs.2) h
      rw [List.map_cons, List.map_cons, hfirst, ih has.2 hread.2 hbs.2 hrest]

theorem entries_inj {a b : Node} (hread : a.ReadBack) (hb : b.Legible)
    (h : a.entries = b.entries) : a.unlined = b.unlined := by
  have hnone : NoElse [] := fun _ _ h => nomatch h
  exact (hread hb hnone hnone (congrArg (· ++ []) h)).1

theorem properties_inj {properties properties' : List (String × Node)}
    (hread : ∀ property ∈ properties, property.2.ReadBack)
    (hb : ∀ property ∈ properties', property.2.Legible)
    (h : properties.map (fun property => OutlineEntry.mk (property.1 ++ ":") property.2.entries) =
      properties'.map fun property => .mk (property.1 ++ ":") property.2.entries) :
    properties.map (·.1) = properties'.map (·.1) ∧
      (properties.map (·.2)).map unlined = (properties'.map (·.2)).map unlined := by
  induction properties generalizing properties' with
  | nil =>
    cases properties' with
    | nil => exact ⟨rfl, rfl⟩
    | cons property' properties' => cases h
  | cons property properties ih =>
    cases properties' with
    | nil => cases h
    | cons property' properties' =>
      rw [List.forall_mem_cons] at hread hb
      obtain ⟨hfirst, hrest⟩ := List.cons.inj h
      obtain ⟨hkey, hentries⟩ := OutlineEntry.mk.inj hfirst
      have hlist := congrArg String.toList hkey
      rw [String.toList_append, String.toList_append] at hlist
      have hkey : property.1 = property'.1 := String.toList_inj.1 (List.append_cancel_right hlist)
      obtain ⟨hkeys, hvalues⟩ := ih hread.2 hb.2 hrest
      simp only [List.map_cons, hkey, entries_inj hread.1 hb.1 hentries, hkeys, hvalues, and_self]

/-- An `else` is told from what follows an `if` without one. -/
theorem else_inj {elsePart elsePart' : Option Node}
    (hread : ∀ part ∈ elsePart, part.ReadBack) (hb : ∀ part ∈ elsePart', part.Legible)
    {x y : List OutlineEntry} (hx : NoElse x) (hy : NoElse y)
    (h : entriesElse elsePart ++ x = entriesElse elsePart' ++ y) :
    elsePart.toList.map unlined = elsePart'.toList.map unlined ∧ x = y := by
  cases elsePart with
  | none =>
    cases elsePart' with
    | none => exact ⟨rfl, h⟩
    | some part' => exact absurd rfl (hx "Else" part'.entries (congrArg List.head? h))
  | some part =>
    cases elsePart' with
    | none => exact absurd rfl (hy "Else" part.entries (congrArg List.head? h.symm))
    | some part' =>
      obtain ⟨hroot, hrest⟩ := List.cons.inj h
      have hpart := entries_inj (hread part rfl) (hb part' rfl) (OutlineEntry.mk.inj hroot).2
      exact ⟨congrArg (fun node => [node]) hpart, hrest⟩

theorem children_inj {a b : Node} (ha : a.Legible) (hb : b.Legible)
    (hread : ∀ child ∈ a.children, child.ReadBack) (hkind : a.kind = b.kind)
    (hbelow : a.entriesBelow = b.entriesBelow) {x y : List OutlineEntry} (hx : NoElse x)
    (hy : NoElse y) (hrest : a.entriesBeside ++ x = b.entriesBeside ++ y) :
    a.keys = b.keys ∧ a.children.map unlined = b.children.map unlined ∧ x = y := by
  have hchild (child : Node) (h : child ∈ a.children) : child.Legible := ha.child h
  have hchild' (child : Node) (h : child ∈ b.children) : child.Legible := hb.child h
  cases a <;> cases b <;> simp [kind] at hkind
  case branch.branch condition thenPart elsePart _ condition' thenPart' elsePart' _ =>
    have hbeside (condition thenPart : Node) (elsePart : Option Node) (line : Int) :
        entriesBeside (.branch condition thenPart elsePart line) = entriesElse elsePart := by
      cases elsePart <;> rfl
    rw [hbeside, hbeside] at hrest
    have hsplit (condition thenPart : Node) (elsePart : Option Node) (line : Int) :
        children (.branch condition thenPart elsePart line) =
          [condition, thenPart] ++ elsePart.toList := by
      simp [children, operands, parts, body?]
    rw [hsplit] at hchild hread hchild'
    rw [List.forall_mem_append] at hchild hread hchild'
    have hfirst := flatMap_entries_inj hchild.1 hread.1 hchild'.1 hbelow
    obtain ⟨helse, hend⟩ := else_inj (fun part h => hread.2 part (Option.mem_toList.2 h))
      (fun part h => hchild'.2 part (Option.mem_toList.2 h)) hx hy hrest
    rw [hsplit, hsplit, List.map_append, List.map_append, hfirst, helse]
    exact ⟨rfl, rfl, hend⟩
  case object.object properties _ properties' _ =>
    have hsplit (properties : List (String × Node)) (line : Int) :
        children (.object properties line) = properties.map (·.2) := by
      simp [children, operands, parts, body?]
    rw [hsplit] at hread hchild'
    rw [List.forall_mem_map] at hread hchild'
    obtain ⟨hkeys, hvalues⟩ := properties_inj hread hchild' hbelow
    rw [hsplit, hsplit]
    exact ⟨hkeys, hvalues, hrest⟩
  all_goals exact ⟨rfl, flatMap_entries_inj hchild hread hchild' hbelow, hrest⟩

/-- **A legible tree is read back from its entries**, up to lines. -/
theorem Legible.readBack {a : Node} (ha : a.Legible) : a.ReadBack := by
  intro b x y hb hx hy h
  rw [entries_eq ha.root.form, entries_eq hb.root.form] at h
  obtain ⟨hroot, hrest⟩ := List.cons.inj h
  obtain ⟨htitle, hbelow⟩ := OutlineEntry.mk.inj hroot
  obtain ⟨hkind, hlabel⟩ := title_inj htitle
  have hread : ∀ child ∈ a.children, child.ReadBack :=
    fun child hchild => (ha.child hchild).readBack
  obtain ⟨hkeys, hchildren, hend⟩ := children_inj ha hb hread hkind hbelow hx hy hrest
  exact ⟨unlined_congr ha.root hb.root hkind hlabel hkeys hchildren, hend⟩
termination_by a.size
decreasing_by exact size_lt_of_mem_children hchild

/-! ### Trees of programs -/

theorem names_of_parameters {params : List String} {ts : List Token}
    (h : Reader.Parameters params ts) :
    ∀ name ∈ params, ∃ t ∈ ts, t.kind = .identifier ∧ t.text = name := by
  induction h with
  | none => exact fun _ h => nomatch h
  | @last t h => exact List.forall_mem_singleton.2 ⟨t, List.mem_cons_self, h, rfl⟩
  | @more t comma next names ts h hcomma hmore ih =>
    refine List.forall_mem_cons.2 ⟨⟨t, List.mem_cons_self, h, rfl⟩, fun name hname => ?_⟩
    obtain ⟨u, hu, hkind⟩ := ih name hname
    exact ⟨u, List.mem_cons_of_mem _ (List.mem_cons_of_mem _ hu), hkind⟩

/-- The names that a node holds are identifiers among its tokens. -/
theorem names_of_derives {node : Node} {level : Nat} {ts : List Token}
    (h : Reader.Derives (.expr level node) ts) :
    ∀ name ∈ node.names, ∃ t ∈ ts, t.kind = .identifier ∧ t.text = name := by
  generalize hphrase : Reader.Phrase.expr level node = phrase at h
  induction h generalizing level node with
  | @leaf _ t _ h =>
    cases hphrase
    unfold Reader.leaf? at h
    split at h
    case h_3 =>
      obtain ⟨n, -, rfl⟩ := Option.map_eq_some_iff.1 h
      exact fun _ h => nomatch h
    case h_5 hkind =>
      cases h
      exact List.forall_mem_singleton.2 ⟨t, List.mem_cons_self, hkind, rfl⟩
    case h_6 => cases h
    all_goals
      cases h
      exact fun _ h => nomatch h
  | @template _ opening name closing ho hn hc =>
    cases hphrase
    exact List.forall_mem_singleton.2 ⟨name, by simp, hn, rfl⟩
  | group ho h hc ih =>
    cases hphrase
    intro name hname
    obtain ⟨t, ht, hkind⟩ := ih rfl name hname
    exact ⟨t, by simp [ht], hkind⟩
  | noItems | lastItem | moreItems | noProperties | lastProperty | moreProperties => cases hphrase
  | _ =>
    cases hphrase
    exact fun _ h => nomatch h

theorem names_of_stands {node : Node} {ts : List Token} (h : Reader.Stands (.statement node) ts) :
    ∀ name ∈ node.names, ∃ t ∈ ts, t.kind = .identifier ∧ t.text = name := by
  cases h with
  | expression h => exact names_of_derives h
  | @binding value word name sign ts hword hname =>
    exact List.forall_mem_singleton.2 ⟨name, by simp, hname, rfl⟩
  | @function params body word name opening closing ps ts hword hname ho hparams =>
    refine List.forall_mem_cons.2 ⟨⟨name, by simp, hname, rfl⟩, fun param hparam => ?_⟩
    obtain ⟨t, ht, hkind⟩ := names_of_parameters hparams param hparam
    exact ⟨t, by simp [ht], hkind⟩
  | @forEach source body word item inWord cs ts hword hitem =>
    exact List.forall_mem_singleton.2 ⟨item, by simp, hitem, rfl⟩
  | plain h =>
    cases h
    exact fun _ h => nomatch h
  | conditional h => cases h <;> exact fun _ h => nomatch h
  | _ => exact fun _ h => nomatch h

/-- A node that is read is legible, if its keys are. -/
theorem ReadFrom.isLegible {node : Node} {ts : List Token} (h : node.ReadFrom ts)
    (hlexed : ∀ t ∈ ts, t.Lexed) (hkeys : ∀ key ∈ node.keys, Text.isWord key) :
    node.IsLegible := by
  have hnames : ∀ name ∈ node.names, ∃ t ∈ ts, t.kind = .identifier ∧ t.text = name :=
    h.read.elim names_of_derives names_of_stands
  have hgood : node.IsGoodStatement := by
    rcases h.read with hread | hread
    · exact (hread.wellFormed hlexed).imp_left .inr
    · exact hread.wellFormed hlexed
  refine ⟨hgood.1, hgood.2.hasKnownOperator, fun name hname => ?_, hkeys⟩
  obtain ⟨t, ht, hkind, rfl⟩ := hnames name hname
  obtain ⟨raw, hraw⟩ := hlexed t ht
  exact Text.isWord_iff.2 (Token.IsWord.exists_chars (.inl hkind) hraw)

end Node

namespace Program
variable {source source' : String} {program program' : Program}

/-- Whether the keys of all objects of a program have the form of identifiers. -/
def HasPlainKeys (program : Program) : Prop :=
  ∀ node ∈ program.nodes, ∀ key ∈ node.keys, Text.isWord key

instance (program : Program) : Decidable program.HasPlainKeys :=
  inferInstanceAs (Decidable (∀ node ∈ program.nodes, ∀ key ∈ node.keys, Text.isWord key))

theorem legible_of_ofSource (h : ofSource source = .ok program) (hkeys : program.HasPlainKeys) :
    ∀ statement ∈ program.body, statement.Legible := by
  obtain ⟨ts, eof, -, -, hlexed, hstands⟩ := exists_stands h
  intro statement hmem n hn
  obtain ⟨us, hus, hread⟩ := Node.readWithin_of_statements hstands hmem
  obtain ⟨vs, hvs, hread⟩ := hread.nodes_readWithin n hn
  exact hread.isLegible (fun t ht => (hlexed t (hus.subset (hvs.subset ht))).2)
    (hkeys n (nodes_subset hmem hn))

/-- The entries of a program are those of its statements. -/
def entries (program : Program) : List OutlineEntry := program.body.flatMap Node.entries

theorem outline_eq (program : Program) : program.outline =
    String.join ((OutlineEntry.linesAll 0 [.mk "Program" program.entries]).map
      OutlineLine.render) := by
  rw [outline, Node.outlineAll_eq, Node.entriesAll_eq_flatMap, entries, OutlineEntry.linesAll,
    OutlineEntry.linesAll, List.append_nil, OutlineEntry.lines]

theorem plain_entries (hlegible : ∀ statement ∈ program.body, statement.Legible) :
    (OutlineEntry.mk "Program" program.entries).Plain := by
  refine .mk (Node.isPlain_word (by decide)) fun entry hentry => ?_
  obtain ⟨statement, hmem, hentry⟩ := List.mem_flatMap.1 hentry
  exact (hlegible statement hmem).plain entry hentry

theorem outline_of_outline? {text : String} (h : program.outline? = some text) :
    program.outline = text := by
  unfold outline? at h
  split at h
  · exact Option.some.inj h
  · cases h

/-- **The outline of a program tells its tree.** Two sources may be laid out in any way, and their
programs may hold any texts: as long as the keys of objects have the form of identifiers, programs
with the same outline are the same up to lines. -/
theorem unlined_of_outline (h : ofSource source = .ok program)
    (h' : ofSource source' = .ok program') (hkeys : program.HasPlainKeys)
    (hkeys' : program'.HasPlainKeys) {text : String}
    (htext : program.outline? = some text) (htext' : program'.outline? = some text) :
    program.unlined = program'.unlined := by
  have hlegible := legible_of_ofSource h hkeys
  have hlegible' := legible_of_ofSource h' hkeys'
  have houtline : program.outline = program'.outline :=
    (outline_of_outline? htext).trans (outline_of_outline? htext').symm
  rw [outline_eq, outline_eq] at houtline
  have hlines := OutlineLine.join_render_inj
    (OutlineEntry.isPlain_of_mem_linesAll (List.forall_mem_singleton.2 (plain_entries hlegible)) 0)
    (OutlineEntry.isPlain_of_mem_linesAll (List.forall_mem_singleton.2 (plain_entries hlegible')) 0)
    houtline
  obtain ⟨-, hentries⟩ := OutlineEntry.mk.inj (List.cons.inj (OutlineEntry.linesAll_inj hlines)).1
  have hbody := Node.flatMap_entries_inj hlegible (fun a ha => (hlegible a ha).readBack) hlegible'
    hentries
  rw [unlined, unlined, Node.unlinedAll_eq_map, Node.unlinedAll_eq_map, hbody]

/-- A branch on two lines and on four, with an object and a string that holds a line break. -/
theorem unlined_of_outline_branch :
    let source := "if a \x7b f(\x7bk: ['\n']\x7d, -1) \x7d else \x7b return \x7d"
    let source' :=
      "if (a) \x7b // then\n f(\x7b'k': [\"\n\"]\x7d, -(1)) \x7d\nelse \x7b return \x7d"
    let text := "Program\n  If\n    Identifier a\n    Block\n      Call\n        Identifier f\n" ++
      "        Object\n          k:\n            Array\n              Literal '\\n'\n" ++
      "        UnaryExpr -\n          Literal 1\n  Else\n    Block\n      Return\n"
    ∃ program program', ofSource source = .ok program ∧ ofSource source' = .ok program' ∧
      program.outline? = some text ∧ program'.outline? = some text ∧
      program.unlined = program'.unlined := by
  intro source source' text
  have hread {source : String} (h : ((ofSource source).toOption.bind fun program =>
      if program.HasPlainKeys then program.outline? else none) = some text) :
      ∃ program, ofSource source = .ok program ∧ program.HasPlainKeys ∧
        program.outline? = some text := by
    cases hsource : ofSource source with
    | error e =>
      rw [hsource] at h
      cases h
    | ok program =>
      rw [hsource] at h
      exact ⟨program, rfl, Option.ite_none_right_eq_some.1 h⟩
  obtain ⟨program, h, hkeys, htext⟩ := @hread source (by decide +kernel)
  obtain ⟨program', h', hkeys', htext'⟩ := @hread source' (by decide +kernel)
  exact ⟨program, program', h, h', htext, htext',
    unlined_of_outline h h' hkeys hkeys' htext htext'⟩

end Program
end PageScript
