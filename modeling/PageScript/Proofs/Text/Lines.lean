import Mathlib.Data.List.DropRight
import PageScript.Text.Lines

/-!
Lines that end plainly. Many characters end a line, but a line feed does so in every way of counting
lines. As long as no other character ends one, save a carriage return right before a line feed, the
lines of a text are the stretches between its line feeds.
-/
namespace PageScript.Text

variable {cs : List Char} {n : Nat}

/-- Whether the lines up to the one numbered `last`, counted from zero by the line feeds before
them, hold nothing else that ends a line but carriage returns right before line feeds. -/
def PlainUpTo (cs : List Char) (last : Nat) : Prop :=
  ∀ i c, cs[i]? = some c → isLineEnd c → (cs.take i).count '\n' ≤ last →
    c = '\n' ∨ c = '\r' ∧ cs[i + 1]? = some '\n'

instance (cs : List Char) (last : Nat) : Decidable (PlainUpTo cs last) :=
  decidable_of_iff (∀ i : Fin cs.length, isLineEnd cs[i] → (cs.take i).count '\n' ≤ last →
      cs[i] = '\n' ∨ cs[i] = '\r' ∧ cs[i.val + 1]? = some '\n') <| by
    constructor
    · intro h i c hc
      obtain ⟨hi, rfl⟩ := List.getElem?_eq_some_iff.1 hc
      exact h ⟨i, hi⟩
    · intro h i
      exact h i cs[i] (List.getElem?_eq_getElem i.isLt)

theorem ne_feed {c : Char} (hc : ¬ isLineEnd c) : c ≠ '\n' := by
  rintro rfl
  exact hc (by decide)

namespace PlainUpTo

/-- What ends the first line at once is a line feed, unless it is a carriage return right before
one. -/
theorem eq_feed {c : Char} (h : PlainUpTo (c :: cs) n) (hc : isLineEnd c)
    (hpair : ∀ rest, c = '\r' → cs = '\n' :: rest → False) : c = '\n' := by
  rcases h 0 c rfl hc (by simp) with hfeed | ⟨hreturn, hnext⟩
  · exact hfeed
  · rw [List.getElem?_cons_succ, ← List.head?_eq_getElem?] at hnext
    obtain ⟨rest, hrest⟩ := List.head?_eq_some_iff.1 hnext
    exact (hpair rest hreturn hrest).elim

/-- Behind a character of the first line that does not end it. -/
theorem tail {c : Char} (h : PlainUpTo (c :: cs) n) (hc : c ≠ '\n') : PlainUpTo cs n := by
  intro i d hd hend hcount
  refine h (i + 1) d hd hend ?_
  rwa [List.take_succ_cons, List.count_cons_of_ne hc]

/-- Behind the first line. -/
theorem below (h : PlainUpTo ('\n' :: cs) (n + 1)) : PlainUpTo cs n := by
  intro i d hd hend hcount
  refine h (i + 1) d hd hend ?_
  rw [List.take_succ_cons, List.count_cons_self]
  omega

/-- The first line ends with a line feed, or it is all of the text. -/
theorem ending (h : PlainUpTo cs n) {line : Line} {more : List Line}
    (hlines : lines cs = line :: more) :
    line.ending = ['\n'] ∨ line.ending = ['\r', '\n'] ∨ line.ending = [] ∧ more = [] := by
  fun_induction lines cs generalizing line more with
  | case1 => cases hlines
  | case2 rest ih =>
    obtain ⟨rfl, -⟩ := List.cons.inj hlines
    exact .inr (.inl rfl)
  | case3 c rest hpair hc ih =>
    obtain ⟨rfl, -⟩ := List.cons.inj hlines
    obtain rfl := h.eq_feed hc hpair
    exact .inl rfl
  | case4 c rest hpair hc hnil ih =>
    obtain ⟨rfl, rfl⟩ := List.cons.inj hlines
    exact .inr (.inr ⟨rfl, rfl⟩)
  | case5 c rest hpair hc line' more' hrest ih =>
    obtain ⟨rfl, rfl⟩ := List.cons.inj hlines
    have hending := ih (h.tail (ne_feed hc)) hrest
    exact hending

end PlainUpTo

/-! ### The line of a place -/

/-- The lines of a text hold nothing that ends a line. -/
theorem not_isLineEnd_of_mem_content {line : Line} (hline : line ∈ lines cs) :
    ∀ c ∈ line.content, ¬ isLineEnd c := by
  fun_induction lines cs generalizing line with
  | case1 => cases hline
  | case2 rest ih =>
    rcases List.mem_cons.1 hline with rfl | hline
    · simp
    · exact ih hline
  | case3 c rest hpair hc ih =>
    rcases List.mem_cons.1 hline with rfl | hline
    · simp
    · exact ih hline
  | case4 c rest hpair hc hnil ih =>
    obtain rfl := List.mem_singleton.1 hline
    simpa using hc
  | case5 c rest hpair hc first more hrest ih =>
    rw [hrest] at ih
    rcases List.mem_cons.1 hline with rfl | hline
    · have hfirst : ∀ d ∈ first.content, ¬ isLineEnd d := ih List.mem_cons_self
      simpa [hc] using hfirst
    · exact ih (List.mem_cons_of_mem _ hline)

/-- The line that a place of a text is in, as line feeds end lines: whole, but for the line feed and
for a carriage return that may stand right before it. -/
structure Row (source : List Char) (place : Nat) where
  /-- The lines above, without their line feeds. -/
  above : List (List Char)
  left : List Char
  /-- The character at the place. -/
  char : Char
  right : List Char
  ending : List Char
  below : List Char
  source_eq : source = above.flatMap (· ++ ['\n']) ++ (left ++ char :: right) ++ (ending ++ below)
  place_eq : place = (above.flatMap (· ++ ['\n'])).length + left.length
  above_feedless : ∀ line ∈ above, '\n' ∉ line
  feedless : '\n' ∉ left ++ char :: right
  ending_eq : ending = ['\n'] ∨ ending = ['\r', '\n'] ∨ ending = [] ∧ below = []

namespace Row
variable {place : Nat}

def text (row : Row cs place) : List Char := row.left ++ row.char :: row.right

theorem take_eq (row : Row cs place) :
    cs.take place = row.above.flatMap (· ++ ['\n']) ++ row.left := by
  refine (congrArg₂ List.take row.place_eq row.source_eq).trans ?_
  rw [List.append_assoc, List.take_length_add_append, List.append_assoc, List.take_left]

/-- The line feeds before a place are those of the lines above it. -/
theorem count_take (row : Row cs place) : (cs.take place).count '\n' = row.above.length := by
  have habove {lines : List (List Char)} (h : ∀ line ∈ lines, '\n' ∉ line) :
      (lines.flatMap (· ++ ['\n'])).count '\n' = lines.length := by
    induction lines with
    | nil => rfl
    | cons line lines ih =>
      obtain ⟨hline, hlines⟩ := List.forall_mem_cons.1 h
      rw [List.flatMap_cons, List.count_append, List.count_append, ih hlines,
        List.count_eq_zero_of_not_mem hline, List.count_singleton_self, List.length_cons]
      omega
  have hleft : '\n' ∉ row.left := fun hmem => row.feedless (List.mem_append_left _ hmem)
  rw [row.take_eq, List.count_append, habove row.above_feedless,
    List.count_eq_zero_of_not_mem hleft, Nat.add_zero]

/-- Back from a place up to the last line feed before it, its own line is read. -/
theorem rtakeWhile_take (row : Row cs place) :
    (cs.take place).rtakeWhile (· ≠ '\n') = row.left := by
  have hleft : ∀ c ∈ row.left.reverse, decide (c ≠ '\n') := by
    intro c hc
    rw [decide_eq_true_eq]
    rintro rfl
    exact row.feedless (List.mem_append_left _ (List.mem_reverse.1 hc))
  have habove : (row.above.flatMap (· ++ ['\n'])).reverse.takeWhile (· ≠ '\n') = [] := by
    rcases List.eq_nil_or_concat row.above with hnil | ⟨lines, line, hlines⟩
    · rw [hnil]
      rfl
    · simp [hlines]
  rw [row.take_eq, List.rtakeWhile, List.reverse_append, List.takeWhile_append_of_pos hleft, habove,
    List.append_nil, List.reverse_reverse]

/-- A text without line feeds is one line. -/
theorem text_of_feedless (row : Row cs place) (h : '\n' ∉ cs) : row.text = cs := by
  rw [row.source_eq] at h
  simp only [List.mem_append, not_or] at h
  obtain ⟨⟨habove, -⟩, hending, -⟩ := h
  have hnone : row.above = [] := by
    refine List.eq_nil_iff_forall_not_mem.2 fun line hline => habove ?_
    exact List.mem_flatMap.2 ⟨line, hline, by simp⟩
  rcases row.ending_eq with heq | heq | ⟨heq, hbelow⟩
  · exact absurd (heq ▸ List.mem_cons_self) hending
  · exact absurd (heq ▸ List.mem_cons_of_mem _ List.mem_cons_self) hending
  · conv => rhs; rw [row.source_eq]
    simp [text, hnone, heq, hbelow]

/-- The line below another one. -/
def under (row : Row cs place) (line : List Char) (hline : '\n' ∉ line) :
    Row (line ++ '\n' :: cs) (line.length + 1 + place) :=
  { row with
    above := line :: row.above
    source_eq := by
      conv => lhs; rw [row.source_eq]
      simp
    place_eq := by
      conv => lhs; rw [row.place_eq]
      simp
      omega
    above_feedless := List.forall_mem_cons.2 ⟨hline, row.above_feedless⟩ }

/-- A character before the text belongs to its first line. -/
def push (row : Row cs place) (c : Char) (hc : c ≠ '\n') : Row (c :: cs) (place + 1) :=
  match habove : row.above with
  | [] =>
    { row with
      above := []
      left := c :: row.left
      source_eq := by
        conv => lhs; rw [row.source_eq]
        simp [habove]
      place_eq := by
        conv => lhs; rw [row.place_eq]
        simp [habove]
      above_feedless := by simp
      feedless := by simpa [hc.symm] using row.feedless }
  | line :: above =>
    { row with
      above := (c :: line) :: above
      source_eq := by
        conv => lhs; rw [row.source_eq]
        simp [habove]
      place_eq := by
        conv => lhs; rw [row.place_eq]
        simp [habove]
        omega
      above_feedless := by
        have hall := row.above_feedless
        rw [habove, List.forall_mem_cons] at hall
        simpa [hc.symm] using hall }

/-- Whether the line that is counted as this one, in the way that lines are counted here, has the
text of the row. -/
def IsCounted (row : Row cs place) (lines : List Line) : Prop :=
  (lines[row.above.length]?).map Line.content = some row.text

theorem isCounted_push {row : Row cs place} {first : Line} {more : List Line}
    (h : row.IsCounted (first :: more)) {c : Char} (hc : c ≠ '\n') :
    (row.push c hc).IsCounted (⟨c :: first.content, first.ending⟩ :: more) := by
  unfold IsCounted at h ⊢
  unfold push
  split
  · next habove =>
    simp only [habove, List.length_nil, List.getElem?_cons_zero, Option.map_some,
      Option.some.injEq] at h
    simp [text, h]
  · next line above habove =>
    simpa [habove, text] using h

end Row

/-- Where only line feeds end lines, also behind carriage returns, up to that of a place, they are
counted as line feeds count them. -/
theorem PlainUpTo.exists_row {place : Nat} {c : Char} (hc : cs[place]? = some c)
    (hfeed : c ≠ '\n') (hreturn : c ≠ '\r') (h : PlainUpTo cs ((cs.take place).count '\n')) :
    ∃ row : Row cs place, row.IsCounted (lines cs) := by
  fun_induction lines cs generalizing place with
  | case1 => simp at hc
  | case2 rest ih =>
    rcases place with _ | _ | place
    · exact absurd (Option.some.inj hc).symm hreturn
    · exact absurd (Option.some.inj hc).symm hfeed
    · have hplain : PlainUpTo ('\n' :: rest) ((rest.take place).count '\n' + 1) := by
        simpa using h.tail (by decide)
      obtain ⟨row, hrow⟩ := ih hc hplain.below
      rw [show place + 2 = ['\r'].length + 1 + place by simp; omega]
      exact ⟨row.under ['\r'] (by decide), hrow⟩
  | case3 d rest hpair hd ih =>
    obtain rfl := h.eq_feed hd hpair
    cases place with
    | zero => exact absurd (Option.some.inj hc).symm hfeed
    | succ place =>
      have hplain : PlainUpTo ('\n' :: rest) ((rest.take place).count '\n' + 1) := by
        simpa using h
      obtain ⟨row, hrow⟩ := ih hc hplain.below
      rw [show place + 1 = ([] : List Char).length + 1 + place by simp; omega]
      exact ⟨row.under [] (by simp), hrow⟩
  | case4 d rest hpair hd hnil ih =>
    obtain rfl : rest = [] := by
      rw [← flatMap_full_lines rest, hnil]
      rfl
    obtain rfl : place = 0 := by
      have hlt := (List.getElem?_eq_some_iff.1 hc).1
      simpa using hlt
    exact ⟨{
      above := [], left := [], char := d, right := [], ending := [], below := []
      source_eq := rfl
      place_eq := rfl
      above_feedless := by simp
      feedless := by simpa using (ne_feed hd).symm
      ending_eq := .inr (.inr ⟨rfl, rfl⟩) }, rfl⟩
  | case5 d rest hpair hd first more hrest ih =>
    cases place with
    | zero =>
      have hsource : rest = first.content ++ (first.ending ++ more.flatMap Line.full) := by
        rw [← flatMap_full_lines rest, hrest, List.flatMap_cons, Line.full, List.append_assoc]
      have hcontent : '\n' ∉ first.content := fun hmem =>
        not_isLineEnd_of_mem_content (hrest ▸ List.mem_cons_self) _ hmem (by decide)
      exact ⟨{
        above := [], left := [], char := d, right := first.content
        ending := first.ending, below := more.flatMap Line.full
        source_eq := by simp [hsource]
        place_eq := rfl
        above_feedless := by simp
        feedless := by simpa [hcontent] using (ne_feed hd).symm
        ending_eq := by
          have hending := (h.tail (ne_feed hd)).ending hrest
          rcases hending with hone | htwo | ⟨hnone, rfl⟩
          · exact .inl hone
          · exact .inr (.inl htwo)
          · exact .inr (.inr ⟨hnone, rfl⟩) }, rfl⟩
    | succ place =>
      have hplain : PlainUpTo rest ((rest.take place).count '\n') := by
        have htail := h.tail (ne_feed hd)
        rwa [List.take_succ_cons, List.count_cons_of_ne (ne_feed hd)] at htail
      obtain ⟨row, hrow⟩ := ih hc hplain
      rw [hrest] at hrow
      exact ⟨row.push d (ne_feed hd), Row.isCounted_push hrow (ne_feed hd)⟩

end PageScript.Text
