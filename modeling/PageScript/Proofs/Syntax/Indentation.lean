import PageScript.Node.Outline
import PageScript.Proofs.Lexing.LongestMatch

/-!
Indentation. Lines that neither break nor begin with a blank are read back from the text of an
outline. Their depths alone then say what stands below what: although nothing marks an end, entries
with others below them are read back from their lines.
-/
namespace PageScript

/-- Two texts are cut at the same place, if each front goes on as long as it can. -/
theorem Text.append_inj_of_stop {p : Char → Bool} {front front' rest rest' : List Char}
    (hfront : ∀ c ∈ front, p c) (hfront' : ∀ c ∈ front', p c)
    (hrest : ∀ c, rest.head? = some c → p c = false)
    (hrest' : ∀ c, rest'.head? = some c → p c = false) (h : front ++ rest = front' ++ rest') :
    front = front' ∧ rest = rest' := by
  have hsame : front = front' :=
    calc front = (front ++ rest).takeWhile p :=
          (Lexeme.takeWhile_append_of_stop hfront hrest).symm
      _ = (front' ++ rest').takeWhile p := by rw [h]
      _ = front' := Lexeme.takeWhile_append_of_stop hfront' hrest'
  subst hsame
  exact ⟨rfl, List.append_cancel_left h⟩

namespace OutlineLine
variable {a b : OutlineLine}

/-- Whether the end of a line and the end of its indentation can be seen. -/
structure IsPlain (line : OutlineLine) : Prop where
  newline_not_mem : '\n' ∉ line.text.toList
  ne_blank : ∀ c, line.text.toList.head? = some c → c ≠ ' '

/-- The characters of a line before its end. -/
def shown (line : OutlineLine) : List Char :=
  List.replicate (2 * line.depth) ' ' ++ line.text.toList

theorem toList_render (line : OutlineLine) : line.render.toList = line.shown ++ ['\n'] := by
  simp only [render, shown, String.toList_append, String.toList_ofList]
  rfl

theorem IsPlain.shown_ne (h : a.IsPlain) : ∀ c ∈ a.shown, (c != '\n') = true := by
  intro c hc
  rw [bne_iff_ne]
  rintro rfl
  rcases List.mem_append.1 hc with hc | hc
  · cases List.eq_of_mem_replicate hc
  · exact h.newline_not_mem hc

theorem shown_inj (ha : a.IsPlain) (hb : b.IsPlain) (h : a.shown = b.shown) : a = b := by
  have hblanks (n : Nat) : ∀ c ∈ List.replicate n ' ', (c == ' ') = true :=
    fun c hc => beq_iff_eq.2 (List.eq_of_mem_replicate hc)
  obtain ⟨hindentation, htext⟩ := Text.append_inj_of_stop (hblanks _) (hblanks _)
    (fun c hc => beq_eq_false_iff_ne.2 (ha.ne_blank c hc))
    (fun c hc => beq_eq_false_iff_ne.2 (hb.ne_blank c hc)) h
  have hlength : 2 * a.depth = 2 * b.depth := by simpa using congrArg List.length hindentation
  have hdepth : a.depth = b.depth := by omega
  cases a
  cases b
  exact congr (congrArg mk hdepth) (String.toList_inj.1 htext)

/-- A line is read back from the front of a text. -/
theorem render_append_inj (ha : a.IsPlain) (hb : b.IsPlain) {x y : List Char}
    (h : a.render.toList ++ x = b.render.toList ++ y) : a = b ∧ x = y := by
  simp only [toList_render, List.append_assoc, List.singleton_append] at h
  obtain ⟨hshown, hrest⟩ := Text.append_inj_of_stop ha.shown_ne hb.shown_ne
    (fun c hc => by cases hc; rfl) (fun c hc => by cases hc; rfl) h
  exact ⟨shown_inj ha hb hshown, (List.cons.inj hrest).2⟩

/-- **Lines are read back from their text.** -/
theorem join_render_inj {lines lines' : List OutlineLine} (hplain : ∀ line ∈ lines, line.IsPlain)
    (hplain' : ∀ line ∈ lines', line.IsPlain)
    (h : String.join (lines.map render) = String.join (lines'.map render)) : lines = lines' := by
  have hlist := congrArg String.toList h
  simp only [String.toList_join, List.flatMap_map] at hlist
  have hne (line : OutlineLine) (rest : List Char) : line.render.toList ++ rest ≠ [] := by
    simp [toList_render]
  clear h
  induction lines generalizing lines' with
  | nil =>
    cases lines' with
    | nil => rfl
    | cons line' rest' => exact absurd hlist.symm (hne line' _)
  | cons line rest ih =>
    cases lines' with
    | nil => exact absurd hlist (hne line _)
    | cons line' rest' =>
      rw [List.forall_mem_cons] at hplain hplain'
      obtain ⟨rfl, hrest⟩ := render_append_inj hplain.1 hplain'.1 hlist
      rw [ih hplain.2 hplain'.2 hrest]

end OutlineLine

/-! ### Entries -/

/-- A line with the entries that stand below it, one step deeper. -/
inductive OutlineEntry where
  | mk (text : String) (below : List OutlineEntry)

namespace OutlineEntry

mutual

def lines (depth : Nat) : OutlineEntry → List OutlineLine
  | mk text below => ⟨depth, text⟩ :: linesAll (depth + 1) below

def linesAll (depth : Nat) : List OutlineEntry → List OutlineLine
  | [] => []
  | entry :: rest => lines depth entry ++ linesAll depth rest

end

theorem linesAll_eq_flatMap (depth : Nat) (entries : List OutlineEntry) :
    linesAll depth entries = entries.flatMap (lines depth) := by
  induction entries with
  | nil => rfl
  | cons entry rest ih => rw [linesAll, ih, List.flatMap_cons]

theorem linesAll_append (depth : Nat) (entries more : List OutlineEntry) :
    linesAll depth (entries ++ more) = linesAll depth entries ++ linesAll depth more := by
  simp only [linesAll_eq_flatMap, List.flatMap_append]

/-- Whether all lines of an entry are plain, however deep they stand. -/
def Plain (entry : OutlineEntry) : Prop := ∀ depth, ∀ line ∈ lines depth entry, line.IsPlain

theorem Plain.mk {text : String} {below : List OutlineEntry}
    (htext : ∀ depth, (OutlineLine.mk depth text).IsPlain) (hbelow : ∀ entry ∈ below, entry.Plain) :
    (OutlineEntry.mk text below).Plain := by
  intro depth line hline
  rw [lines, linesAll_eq_flatMap, List.mem_cons] at hline
  rcases hline with rfl | hline
  · exact htext depth
  · obtain ⟨entry, hentry, hline⟩ := List.mem_flatMap.1 hline
    exact hbelow entry hentry (depth + 1) line hline

theorem isPlain_of_mem_linesAll {entries : List OutlineEntry} (h : ∀ entry ∈ entries, entry.Plain)
    (depth : Nat) : ∀ line ∈ linesAll depth entries, line.IsPlain := by
  intro line hline
  rw [linesAll_eq_flatMap] at hline
  obtain ⟨entry, hentry, hline⟩ := List.mem_flatMap.1 hline
  exact h entry hentry depth line hline

/-- Whether lines go on at a lesser depth. -/
def Leaves (depth : Nat) (lines : List OutlineLine) : Prop :=
  ∀ line ∈ lines.head?, line.depth < depth

theorem leaves_linesAll {depth : Nat} (entries : List OutlineEntry) {x : List OutlineLine}
    (hx : Leaves depth x) : Leaves (depth + 1) (linesAll depth entries ++ x) := by
  cases entries with
  | nil => exact fun line hline => Nat.lt_succ_of_lt (hx line hline)
  | cons entry rest =>
    cases entry
    rintro line ⟨⟩
    exact Nat.lt_succ_self depth

theorem not_leaves_lines (depth : Nat) (entry : OutlineEntry) (x : List OutlineLine) :
    ¬ Leaves depth (lines depth entry ++ x) := by
  cases entry
  intro h
  exact Nat.lt_irrefl depth (h _ rfl)

mutual

/-- An entry, and where it ends, is read back from its lines. -/
theorem lines_append_inj {depth : Nat} : ∀ {entry entry' : OutlineEntry} {x y : List OutlineLine},
    Leaves (depth + 1) x → Leaves (depth + 1) y →
    lines depth entry ++ x = lines depth entry' ++ y → entry = entry' ∧ x = y
  | mk text below, mk text' below', x, y, hx, hy, h => by
    simp only [lines, List.cons_append, List.cons.injEq, OutlineLine.mk.injEq, true_and] at h
    obtain ⟨rfl, hbelow⟩ := h
    obtain ⟨rfl, hrest⟩ := linesAll_append_inj hx hy hbelow
    exact ⟨rfl, hrest⟩

theorem linesAll_append_inj {depth : Nat} :
    ∀ {entries entries' : List OutlineEntry} {x y : List OutlineLine},
      Leaves depth x → Leaves depth y →
      linesAll depth entries ++ x = linesAll depth entries' ++ y → entries = entries' ∧ x = y
  | [], [], _, _, _, _, h => ⟨rfl, h⟩
  | [], entry' :: rest', x, y, hx, _, h => by
    rw [linesAll, linesAll, List.nil_append, List.append_assoc] at h
    exact absurd (h ▸ hx) (not_leaves_lines depth entry' _)
  | entry :: rest, [], x, y, _, hy, h => by
    rw [linesAll, linesAll, List.nil_append, List.append_assoc] at h
    exact absurd (h ▸ hy) (not_leaves_lines depth entry _)
  | entry :: rest, entry' :: rest', x, y, hx, hy, h => by
    simp only [linesAll, List.append_assoc] at h
    obtain ⟨rfl, hrest⟩ := lines_append_inj (leaves_linesAll rest hx) (leaves_linesAll rest' hy) h
    obtain ⟨rfl, hend⟩ := linesAll_append_inj hx hy hrest
    exact ⟨rfl, hend⟩

end

/-- **Entries are read back from their lines.** -/
theorem linesAll_inj {depth : Nat} {entries entries' : List OutlineEntry}
    (h : linesAll depth entries = linesAll depth entries') : entries = entries' := by
  have hleaves : Leaves depth [] := fun _ h => nomatch h
  refine (linesAll_append_inj hleaves hleaves ?_).1
  rw [h]

end OutlineEntry
end PageScript
