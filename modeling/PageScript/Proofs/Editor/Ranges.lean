import PageScript.Editor.Diagnostic
import PageScript.Proofs.Lexing.Counting
import PageScript.Text.Units

/-!
The text that a diagnostic marks. Its marks are positions, and which places these are depends on how
positions are counted. Counted as tokens are, by characters and line feeds, each error token is
marked exactly. Editors count code units of sixteen bits, and they also end lines with carriage
returns; they mark the same text only where this makes no difference.
-/
namespace PageScript

/-- The same place, counted from one. -/
def Mark.position (m : Mark) : Position := ⟨m.line + 1, m.character + 1⟩

namespace Diagnostic

/-- The stretch of a text that is marked, if the marks are positions of places of the text. -/
def span? (d : Diagnostic) (k : Counting) (cs : List Char) : Option Lexeme.Span := do
  let start ← k.place? d.first.position .start cs
  let stop ← k.place? d.last.position .start cs
  return ⟨start, stop⟩

theorem span?_eq_some_iff {d : Diagnostic} {k : Counting} {cs : List Char} {s : Lexeme.Span} :
    d.span? k cs = some s ↔
      (s.start ≤ cs.length ∧ k.position .start cs s.start = d.first.position) ∧
      (s.stop ≤ cs.length ∧ k.position .start cs s.stop = d.last.position) := by
  obtain ⟨start, stop⟩ := s
  simp [span?, Option.bind_eq_some_iff, Counting.place?_eq_some_iff, and_assoc]

/-! ### The marks of a token -/

/-- The end that is counted from the text of a token is the position behind that text. -/
theorem endOf_position (start : Mark) (text : String) :
    (endOf start text).position = start.position.afterAll text.toList := by
  unfold endOf
  generalize text.toList = cs
  induction cs using List.reverseRecOn with
  | nil => simp [Mark.position]
  | append_singleton cs c ih =>
    rw [Position.afterAll_append, Position.afterAll_cons, Position.afterAll_nil, ← ih]
    by_cases hc : c = '\n'
    · subst hc
      by_cases hbreaks : cs.count '\n' = 0
      · simp [hbreaks, Mark.position, Position.after]
      · simp [hbreaks, Mark.position, Position.after, Int.add_assoc]
    · have hcount : (cs ++ [c]).count '\n' = cs.count '\n' := by
        simp [hc]
      by_cases hbreaks : cs.count '\n' = 0
      · simp [hcount, hbreaks, hc, Mark.position, Position.after, Int.add_assoc]
      · simp [hcount, hbreaks, hc, Mark.position, Position.after]

theorem ofToken_first (t : Token) : (ofToken t).first.position = t.position := by
  simp [ofToken, Mark.position, Token.position]

theorem ofToken_last (t : Token) :
    (ofToken t).last.position = t.position.afterAll t.text.toList :=
  (endOf_position _ _).trans (congrArg (Position.afterAll · t.text.toList) (ofToken_first t))

/-- A token that stands at a place and is no string is marked from there to the end of its text. -/
theorem span?_ofToken {cs : List Char} {place : Nat} {t : Token} (h : t.StandsAt cs place)
    (hk : t.kind ≠ .string) :
    (ofToken t).span? .source cs = some ⟨place, place + t.text.toList.length⟩ ∧
      Lexeme.Span.text cs ⟨place, place + t.text.toList.length⟩ = t.text.toList := by
  obtain ⟨rest, hrest⟩ := h.text_prefix hk
  have htake : cs.take (place + t.text.toList.length) = cs.take place ++ t.text.toList := by
    rw [List.take_add, ← hrest, List.take_left]
  have hlength : place + t.text.toList.length ≤ cs.length := by
    have hsum := congrArg List.length hrest
    rw [List.length_append, List.length_drop] at hsum
    have := h.le_length
    omega
  refine ⟨span?_eq_some_iff.2 ⟨⟨h.le_length, ?_⟩, hlength, ?_⟩, ?_⟩
  · rw [ofToken_first, h.position_eq]
  · rw [ofToken_last, h.position_eq, Counting.source_position, Counting.source_position, htake,
      Position.afterAll_append]
  · rw [Lexeme.Span.text, htake]
    exact List.drop_left' (List.length_take_of_le h.le_length)

/-! ### Errors apart from each other -/

/-- Only the last error may be a string that is not closed; any other is one character. -/
theorem errorTokens_single (text : String) :
    (errorTokens text).Pairwise fun t _ => ∃ c, t.text = String.singleton c := by
  obtain ⟨ts, eof, spans, hsource, heof, -, -, -, herror⟩ := Token.ofSource_spans text
  have herrors : errorTokens text = ts.filter (·.kind = .error) := by
    simp [errorTokens, hsource, heof]
  rw [herrors, List.pairwise_filter, List.pairwise_iff_getElem]
  intro i j hi hj hij hk _
  have hsplit : ts = ts.take i ++ ts[i] :: ts.drop (i + 1) := by simp
  rcases herror _ _ _ hsplit (by simpa using hk) with ⟨c, hc, -⟩ | hlast
  · exact ⟨c, hc⟩
  · rw [List.drop_eq_nil_iff] at hlast
    omega

/-- The text of each error ends where the next one begins, or before. -/
theorem errorTokens_apart (text : String) :
    (errorTokens text).Pairwise fun t u => ∃ place place',
      t.StandsAt text.toList place ∧ u.StandsAt text.toList place' ∧
      place + t.text.toList.length ≤ place' := by
  have horder := (Token.ofSource_inOrder text).filter (·.kind = .error)
  refine (horder.and (errorTokens_single text)).imp ?_
  rintro t u ⟨⟨place, place', hlt, ht, hu⟩, c, hc⟩
  refine ⟨place, place', ht, hu, ?_⟩
  rw [hc, String.toList_singleton, List.length_singleton]
  exact hlt

theorem analyze_errorTokens {text : String} (h : errorTokens text ≠ []) :
    (analyze text).1 = (errorTokens text).map ofToken := by
  unfold analyze
  split
  · next hnil => exact absurd hnil h
  · rfl

theorem mem_errorTokens {text : String} {t : Token} :
    t ∈ errorTokens text ↔ t ∈ Token.ofSource text ∧ t.kind = .error := by
  simp [errorTokens]

/-- The text of an error is not empty. -/
theorem length_pos_of_mem_errorTokens {text : String} {t : Token} (h : t ∈ errorTokens text) :
    0 < t.text.toList.length := by
  obtain ⟨ht, hk⟩ := mem_errorTokens.1 h
  obtain ⟨s, hs⟩ := Token.exists_carries ht (by simp [hk])
  obtain ⟨c, cs, hcs, -⟩ := hs.exists_first
  rw [hs.text_eq (by simp [hk]), hcs]
  exact Nat.succ_pos _

/-- An error token is marked where its text is. -/
theorem exists_span_of_mem_errorTokens {text : String} {t : Token} (h : t ∈ errorTokens text) :
    ∃ s, (ofToken t).span? .source text.toList = some s ∧ s.start < s.stop ∧
      s.text text.toList = t.text.toList := by
  obtain ⟨ht, hk⟩ := mem_errorTokens.1 h
  obtain ⟨place, hplace⟩ := Token.exists_standsAt ht
  obtain ⟨hspan, hcovered⟩ := span?_ofToken hplace (by simp [hk])
  exact ⟨_, hspan, Nat.lt_add_of_pos_right (length_pos_of_mem_errorTokens h), hcovered⟩

/-- **Lexical errors are marked exactly.** If a text has error tokens, they are what is diagnosed,
one by one. Their marks come one behind the other and are apart. From the first to the last of the
marks of each, as lines are ended by line feeds and characters counted, the text is that of the
error, over however many lines it goes. -/
theorem analyze_covers (text : String) :
    (errorTokens text ≠ [] → (analyze text).1 = (errorTokens text).map ofToken) ∧
    ((errorTokens text).map ofToken).Pairwise (fun d e =>
      d.last.position ≤ e.first.position) ∧
    ∀ t ∈ errorTokens text, (ofToken t).first.position < (ofToken t).last.position ∧
      ∃ s, (ofToken t).span? .source text.toList = some s ∧ s.text text.toList = t.text.toList := by
  refine ⟨analyze_errorTokens, ?_, ?_⟩
  · rw [List.pairwise_map]
    refine (List.Pairwise.and_mem.1 (errorTokens_apart text)).imp ?_
    rintro t u ⟨htext, -, place, place', ht, hu, hle⟩
    obtain ⟨-, hk⟩ := mem_errorTokens.1 htext
    obtain ⟨-, hlast⟩ := span?_eq_some_iff.1 (span?_ofToken ht (by simp [hk])).1
    rw [← hlast.2, ofToken_first, hu.position_eq]
    exact Counting.source.position_le .start hle hu.le_length
  · intro t htext
    obtain ⟨s, hspan, hlt, hcovered⟩ := exists_span_of_mem_errorTokens htext
    refine ⟨?_, s, hspan, hcovered⟩
    obtain ⟨hfirst, hlast⟩ := span?_eq_some_iff.1 hspan
    rw [← hfirst.2, ← hlast.2]
    exact Counting.source.position_lt .start hlt hlast.1

/-- A stray character, and a string that is not closed and goes on after a line end. -/
theorem analyze_covers_lines :
    let text := "@\n'a\r\n😀"
    (analyze text).1 = [⟨⟨0, 0⟩, ⟨0, 1⟩, "Unexpected character: @"⟩,
      ⟨⟨1, 0⟩, ⟨2, 1⟩, "Unterminated string"⟩] ∧
    ∃ s, (ofToken ⟨.error, "'a\r\n😀", 2, 1⟩).span? .source text.toList = some s ∧
      s.text text.toList = "'a\r\n😀".toList := by
  intro text
  have herrors : errorTokens text = [⟨.error, "@", 1, 1⟩, ⟨.error, "'a\r\n😀", 2, 1⟩] := by
    decide +kernel
  obtain ⟨hall, -, hcovers⟩ := analyze_covers text
  have hstring := hcovers ⟨.error, "'a\r\n😀", 2, 1⟩ (by simp [herrors])
  refine ⟨?_, hstring.2⟩
  rw [hall (by simp [herrors]), herrors]
  decide +kernel

end Diagnostic

/-! ### The marks in editors -/

/-- The way in which editors count: a carriage return ends a line as well, unless a line feed is
right behind it, and any other character takes as many columns as it has code units. -/
def Counting.editor : Counting where
  endsLine c behind := c == '\n' || c == '\r' && behind.head? != some '\n'
  width c := (Text.units c).length
  width_pos c := by
    dsimp only [Text.units]
    split <;> simp

/-- Whether a line feed is right behind each carriage return before a place. -/
def Text.PairedBefore (cs : List Char) (place : Nat) : Prop :=
  ∀ i < place, cs[i]? = some '\r' → cs[i + 1]? = some '\n'

instance (cs : List Char) (place : Nat) : Decidable (Text.PairedBefore cs place) :=
  inferInstanceAs (Decidable (∀ i < place, cs[i]? = some '\r' → cs[i + 1]? = some '\n'))

/-- Whether each character before a place, back to the last line feed, is a single code unit. -/
def Text.NarrowBefore (cs : List Char) (place : Nat) : Prop :=
  ∀ c ∈ (cs.take place).rtakeWhile (· ≠ '\n'), (units c).length = 1

instance (cs : List Char) (place : Nat) : Decidable (Text.NarrowBefore cs place) :=
  List.decidableBAll (fun c => (Text.units c).length = 1) _

section
variable {cs rest : List Char} {place : Nat} {c : Char}

theorem Text.pairedBefore_succ (h : cs.drop place = c :: rest) :
    PairedBefore cs (place + 1) ↔
      PairedBefore cs place ∧ (c = '\r' → rest.head? = some '\n') := by
  have hhere : cs[place]? = some c := by
    rw [← List.head?_drop, h]
    rfl
  have hnext : cs[place + 1]? = rest.head? := by
    rw [← List.head?_drop, ← List.drop_drop, h]
    rfl
  unfold PairedBefore
  rw [Nat.forall_lt_succ_right, hhere, hnext, Option.some.injEq]

theorem Text.narrowBefore_succ (h : cs.drop place = c :: rest) :
    NarrowBefore cs (place + 1) ↔
      c = '\n' ∨ (units c).length = 1 ∧ NarrowBefore cs place := by
  have htake : cs.take (place + 1) = cs.take place ++ [c] := by
    rw [List.take_add, h]
    rfl
  unfold NarrowBefore
  rw [htake, List.rtakeWhile_concat]
  by_cases hc : c = '\n'
  · simp [hc]
  · simp [hc, or_imp, forall_and, and_comm]

/-- What a character does to the position that editors count. -/
theorem Counting.editor_after (p : Position) (c : Char) (behind : List Char) :
    c = '\n' ∧ editor.after p c behind = ⟨p.line + 1, 1⟩ ∨
    c = '\r' ∧ behind.head? ≠ some '\n' ∧ editor.after p c behind = ⟨p.line + 1, 1⟩ ∨
    c ≠ '\n' ∧ (c = '\r' → behind.head? = some '\n') ∧
      editor.after p c behind = ⟨p.line, p.column + (Text.units c).length⟩ := by
  by_cases hfeed : c = '\n'
  · simp [after, editor, hfeed]
  · by_cases hreturn : c = '\r'
    · by_cases hnext : behind.head? = some '\n'
      · simp [after, editor, hreturn, hnext]
      · simp [after, editor, hreturn, hnext]
    · simp [after, editor, hfeed, hreturn]

/-- Editors count at least as many lines as there are for tokens. They count the same only if no
carriage return stands alone, and then at least as many columns, the same only if no character is
wider than one unit. -/
theorem Counting.editor_position (h : place ≤ cs.length) :
    let e := editor.position .start cs place
    let p := source.position .start cs place
    p.line ≤ e.line ∧ (e.line = p.line ↔ Text.PairedBefore cs place) ∧
      (Text.PairedBefore cs place →
        p.column ≤ e.column ∧ (e.column = p.column ↔ Text.NarrowBefore cs place)) := by
  induction place with
  | zero => simp [Text.PairedBefore, Text.NarrowBefore]
  | succ place ih =>
    have hmore : cs.drop place ≠ [] := by
      rw [Ne, List.drop_eq_nil_iff]
      omega
    obtain ⟨c, behind, hdrop⟩ := List.exists_cons_of_ne_nil hmore
    have ih' := ih (by omega)
    simp only [position_next _ _ hdrop, Text.pairedBefore_succ hdrop, Text.narrowBefore_succ hdrop]
    generalize editor.position .start cs place = e at *
    generalize source.position .start cs place = p at *
    obtain ⟨hline, hlines, hcolumns⟩ := ih'
    rcases editor_after e c behind with
      ⟨rfl, hafter⟩ | ⟨rfl, halone, hafter⟩ | ⟨hfeed, hpaired, hafter⟩
    · -- A line feed ends the line in both.
      simpa [hafter, Position.after, hline] using hlines
    · -- Only editors end the line here, and the lines never meet again.
      have hne : e.line + 1 ≠ p.line := by omega
      simpa [hafter, Position.after, halone, hne] using Int.le_add_one hline
    · -- Neither ends the line. The columns stay the same only behind a single unit.
      have hwidth : 0 < (Text.units c).length := editor.width_pos c
      rw [hafter, source_after, Position.after, if_neg hfeed, and_iff_left hpaired]
      refine ⟨hline, hlines, fun hreturns => ?_⟩
      obtain ⟨hcolumn, hnarrow⟩ := hcolumns hreturns
      rw [← hnarrow, or_iff_right hfeed]
      constructor
      all_goals
        simp only
        omega

/-- **Where editors agree.** Editors count a place as tokens are counted if and only if no carriage
return before it stands alone and no character before it on its line is wider than one unit. -/
theorem Counting.editor_position_eq_iff (h : place ≤ cs.length) :
    editor.position .start cs place = source.position .start cs place ↔
      Text.PairedBefore cs place ∧ Text.NarrowBefore cs place := by
  obtain ⟨-, hline, hcolumn⟩ := editor_position h
  constructor
  · intro heq
    have hpaired := hline.1 (congrArg Position.line heq)
    exact ⟨hpaired, (hcolumn hpaired).2.1 (congrArg Position.column heq)⟩
  · rintro ⟨hpaired, hnarrow⟩
    ext
    · exact hline.2 hpaired
    · exact (hcolumn hpaired).2.2 hnarrow

end

namespace Diagnostic

/-- **When editors underline the right text.** Each error token of a text is diagnosed, and its
marks are the positions of a stretch of the text with just its text. Editors mark that stretch if
and only if no carriage return before its end stands alone, and no character that is wider than one
code unit is before its start, or before its end, on the line of that place. -/
theorem underlines_iff (text : String) : ∀ t ∈ errorTokens text,
    ofToken t ∈ (analyze text).1 ∧ ∃ s, (ofToken t).span? .source text.toList = some s ∧
      s.text text.toList = t.text.toList ∧
      ((ofToken t).span? .editor text.toList = some s ↔ Text.PairedBefore text.toList s.stop ∧
        Text.NarrowBefore text.toList s.start ∧ Text.NarrowBefore text.toList s.stop) := by
  intro t htext
  obtain ⟨s, hspan, hlt, hcovered⟩ := exists_span_of_mem_errorTokens htext
  refine ⟨?_, s, hspan, hcovered, ?_⟩
  · rw [analyze_errorTokens (List.ne_nil_of_mem htext)]
    exact List.mem_map_of_mem htext
  · obtain ⟨⟨hstart, hfirst⟩, hstop, hlast⟩ := span?_eq_some_iff.1 hspan
    have hearlier (hpaired : Text.PairedBefore text.toList s.stop) :
        Text.PairedBefore text.toList s.start := fun i hi => hpaired i (Nat.lt_trans hi hlt)
    rw [span?_eq_some_iff, ← hfirst, ← hlast, Counting.editor_position_eq_iff hstart,
      Counting.editor_position_eq_iff hstop]
    constructor
    · rintro ⟨⟨-, -, hfront⟩, -, hpaired, hback⟩
      exact ⟨hpaired, hfront, hback⟩
    · rintro ⟨hpaired, hfront, hback⟩
      exact ⟨⟨hstart, hearlier hpaired, hfront⟩, hstop, hpaired, hback⟩

/-- A character of two code units on the line above makes no difference, and neither does the
carriage return behind it. -/
theorem underlines_iff_below :
    let text := "'😀'\r\n #"
    let t : Token := ⟨.error, "#", 2, 2⟩
    t ∈ errorTokens text ∧ ∃ s, (ofToken t).span? .editor text.toList = some s ∧
      s.text text.toList = ['#'] := by
  intro text t
  have ht : t ∈ errorTokens text := by decide +kernel
  obtain ⟨-, s, hs, hcovered, hiff⟩ := underlines_iff text t ht
  have hplaces : (ofToken t).span? .source text.toList = some ⟨6, 7⟩ :=
    span?_eq_some_iff.2 (by decide +kernel)
  obtain rfl := Option.some.inj (hplaces.symm.trans hs)
  exact ⟨ht, _, hiff.2 (by decide +kernel), hcovered.trans (by decide)⟩

/-- Behind a character of two code units on the same line, editors mark what is in front of the
error. -/
theorem not_forall_underlined :
    ¬ ∀ text, ∀ t ∈ errorTokens text, ∃ s, (ofToken t).span? .editor text.toList = some s ∧
      s.text text.toList = t.text.toList := by
  intro hall
  obtain ⟨s, hs, htext⟩ := hall "'😀'@" ⟨.error, "@", 1, 4⟩ (by decide +kernel)
  have hplaces : (ofToken ⟨.error, "@", 1, 4⟩).span? .editor "'😀'@".toList = some ⟨2, 3⟩ :=
    span?_eq_some_iff.2 (by decide +kernel)
  obtain rfl := Option.some.inj (hplaces.symm.trans hs)
  revert htext
  decide +kernel

end Diagnostic
end PageScript
