import PageScript.Editor.Standard
import PageScript.Proofs.Editor.Toolkit
import PageScript.Proofs.Lexing.Words
import PageScript.Proofs.Text.Lines

/-!
The tools that the server is run with do what is asked of them: what they read from parameters is
what these say, in texts where the two ways of counting are one they join the runs at a place to a
word, and they write results with all that these tell.
-/
namespace PageScript

/-! ### The word at a place -/

namespace Text

theorem isWordChar_eq (c : Char) : isWordChar c = isIdentChar c := by
  have hupper : c.isUpper = ('A' ≤ c && c ≤ 'Z') := Bool.decide_and ..
  have hlower : c.isLower = ('a' ≤ c && c ≤ 'z') := rfl
  calc isWordChar c
      = (c.isUpper || c.isLower || isDigit c || c == '_') := rfl
    _ = (c.isLower || c.isUpper || c == '_' || isDigit c) := by ac_rfl
    _ = isIdentChar c := by rw [hlower, hupper, isIdentChar, isIdentStart]

/-! #### Code units -/

theorem length_units_pos (c : Char) : 0 < (units c).length := by
  simp only [units]
  split
  · exact Nat.one_pos
  · exact Nat.two_pos

theorem length_le_unitCount (cs : List Char) : cs.length ≤ unitCount cs := by
  induction cs with
  | nil => exact Nat.le_refl 0
  | cons c cs ih =>
    have := length_units_pos c
    simp only [List.length_cons, unitCount]
    omega

/-- Of characters that take one unit each, as many are counted as there are units. -/
theorem charsWithin_append {front : List Char} (h : ∀ c ∈ front, c.toNat < 0x10000)
    (rest : List Char) {target : Nat} (htarget : target ≤ front.length) :
    charsWithin (front ++ rest) target = target := by
  induction front generalizing target with
  | nil =>
    obtain rfl : target = 0 := Nat.le_zero.1 htarget
    cases rest <;> rfl
  | cons c front ih =>
    obtain ⟨hc, hfront⟩ := List.forall_mem_cons.1 h
    cases target with
    | zero => rfl
    | succ target =>
      have hunits : (units c).length = 1 := by simp [units, hc]
      have hle : target ≤ front.length := Nat.le_of_succ_le_succ htarget
      rw [List.cons_append, charsWithin, hunits, Nat.add_sub_cancel, ih hfront hle, Nat.add_comm]
      nofun

/-- A place in a line of such characters has its own index. -/
theorem indexInLine_eq {line : Line} (h : ∀ c ∈ line.content, c.toNat < 0x10000)
    {character : Nat} (hcharacter : character ≤ line.content.length) :
    indexInLine line character = character := by
  have hcounted : line.content.length ≤ (counted line).length := by
    rw [counted, List.length_append]
    omega
  have hsize := length_le_unitCount (counted line)
  have hinside : ¬ ((unitCount (counted line) : Int) < character) := by omega
  rw [indexInLine]
  simp only [if_neg hinside, Int.toNat_natCast]
  exact charsWithin_append h _ hcharacter

/-! #### Runs of a line -/

theorem isLineEnd_of_mem_ending {cs : List Char} {line : Line} (hline : line ∈ lines cs) :
    ∀ c ∈ line.ending, isLineEnd c := by
  fun_induction lines cs generalizing line with
  | case1 => cases hline
  | case2 rest ih =>
    rcases List.mem_cons.1 hline with rfl | hline
    · simp [isLineEnd]
    · exact ih hline
  | case3 c rest hpair hc ih =>
    rcases List.mem_cons.1 hline with rfl | hline
    · simpa using hc
    · exact ih hline
  | case4 c rest hpair hc hnil ih =>
    obtain rfl := List.mem_singleton.1 hline
    simp
  | case5 c rest hpair hc first more hrest ih =>
    rw [hrest] at ih
    rcases List.mem_cons.1 hline with rfl | hline
    · have hfirst : ∀ d ∈ first.ending, isLineEnd d := @ih first List.mem_cons_self
      exact hfirst
    · exact ih (List.mem_cons_of_mem _ hline)

theorem isWordChar_of_isLineEnd {c : Char} (h : isLineEnd c) : isWordChar c = false := by
  rw [isWordChar_eq, ← Bool.not_eq_true, isIdentChar, Bool.or_eq_true, Lexeme.isIdentStart_iff,
    Lexeme.isDigit_iff]
  simp only [isLineEnd, Bool.or_eq_true, Bool.and_eq_true, decide_eq_true_eq, beq_iff_eq] at h
  omega

/-- Before a place in a line, the run of word characters right there is the word. -/
theorem wordBefore_eq {cs : List Char} (h : '\n' ∉ cs) :
    wordBefore cs = cs.rtakeWhile isWordChar := by
  unfold wordBefore
  split
  · next rest hrest =>
    refine absurd ?_ h
    rw [← List.mem_reverse, hrest]
    exact List.mem_cons_self
  · rfl

/-- The end of a line belongs to no word. -/
theorem takeWhile_append_ending {cs : List Char} {line : Line} (hline : line ∈ lines cs)
    (right : List Char) :
    (right ++ line.ending).takeWhile isWordChar = right.takeWhile isWordChar := by
  have hending : line.ending.takeWhile isWordChar = [] := by
    rw [List.takeWhile_eq_nil_iff]
    intro hlength
    have hmem : line.ending.get ⟨0, hlength⟩ ∈ line.ending := List.get_mem _ _
    exact Bool.not_eq_true _ ▸ isWordChar_of_isLineEnd (isLineEnd_of_mem_ending hline _ hmem)
  rw [List.takeWhile_append, hending, List.append_nil]
  split
  · next hall => exact ((List.takeWhile_prefix isWordChar).eq_of_length hall).symm
  · rfl

/-- The word at a place of a line are the runs before and behind it. -/
theorem wordAt_eq {text : String} {number : Nat} {line : Line}
    (hline : (lines text.toList)[number]? = some line)
    (hnarrow : ∀ c ∈ line.content, c.toNat < 0x10000) {n : Nat} (hn : n ≤ line.content.length) :
    wordAt text number n =
      String.ofList ((line.content.take n).rtakeWhile isWordChar ++
        (line.content.drop n).takeWhile isWordChar) := by
  have hmem : line ∈ lines text.toList := List.mem_of_getElem? hline
  have hfeed : '\n' ∉ line.content.take n := fun h =>
    not_isLineEnd_of_mem_content hmem '\n' (List.mem_of_mem_take h) (by decide)
  have hbefore : wordBefore (line.full.take n) = (line.content.take n).rtakeWhile isWordChar := by
    rw [Line.full, List.take_append_of_le_length hn, wordBefore_eq hfeed]
  have hbehind : (line.full.drop n).takeWhile isWordChar =
      (line.content.drop n).takeWhile isWordChar := by
    rw [Line.full, List.drop_append_of_le_length hn, takeWhile_append_ending hmem]
  have hnumber : ¬ ((number : Int) < 0) := by omega
  simp only [wordAt, if_neg hnumber, Int.toNat_natCast, hline, indexInLine_eq hnarrow hn, hbefore,
    hbehind]

end Text

/-! ### Parameters -/

namespace Params
variable {ps item : Json} {uri : String}

theorem eq_of_read {α : Type} {found : Option α} {value : α} (h : read found = .ok value) :
    found = some value := by
  cases found with
  | none => cases h
  | some _ => rw [Except.ok.inj h]

theorem textAt_of_uri? (hitem : ps.get? "textDocument" = some item) (h : uri? item = some uri) :
    ps.TextAt ["textDocument", "uri"] uri := by
  intro found hfound
  have huri : item.get? "uri" = some (.string found) := by
    simpa [Json.at?, hitem] using hfound
  simpa [uri?, huri, Json.text] using h.symm

theorem textAt_of_subject? (h : subject? ps = some uri) :
    ps.TextAt ["textDocument", "uri"] uri := by
  obtain ⟨item, hitem, huri⟩ := Option.bind_eq_some_iff.1 h
  exact textAt_of_uri? hitem huri

theorem eq_of_integer? {n k : Int} (h : integer? (.int k) = some n) : n = k := by
  simp only [integer?, whole?, Json.int, bind, Option.bind_some] at h
  split at h
  · exact (Option.some.inj h).symm
  · cases h

theorem eq_of_count? {n k : Int} (h : count? (.int k) = some n) : n = k := by
  unfold count? at h
  obtain ⟨m, hinteger, hcount⟩ := Option.bind_eq_some_iff.1 h
  obtain rfl := eq_of_integer? hinteger
  split at hcount
  · exact (Option.some.inj hcount).symm
  · cases hcount

/-- Changes with new texts that are let through have these texts. -/
theorem eq_of_mapM_change? {items : List Json} {texts : List String}
    (h : List.Forall₂ (fun item text => item.get? "text" = some (.string text)) items texts)
    {found : List (Option String)} (hfound : items.mapM change? = some found) :
    found = texts.map some := by
  induction h generalizing found with
  | nil => simpa using hfound.symm
  | @cons item text items texts hfirst hrest ih =>
    rw [List.mapM_cons] at hfound
    obtain ⟨first, hchange, hfound⟩ := Option.bind_eq_some_iff.1 hfound
    obtain ⟨others, hothers, hfound⟩ := Option.bind_eq_some_iff.1 hfound
    obtain rfl := Option.some.inj hfound
    obtain rfl := ih hothers
    have htext : first = some text := by
      cases item with
      | object entries =>
        simp only [change?] at hchange
        split at hchange
        · simpa [show Fields.get? entries "text" = some (.string text) from hfirst, Json.text]
            using hchange.symm
        · cases hchange
      | _ => cases hfirst
    rw [htext, List.map_cons]

/-- What a document is opened with are the fields of the parameters. -/
theorem exists_of_opened? {document : Document} (h : opened? ps = some (uri, document)) :
    ∃ item language number version text, ps.get? "textDocument" = some item ∧
      uri? item = some uri ∧ item.get? "languageId" = some language ∧
      Literal.ofRecord? language = some document.language ∧ item.get? "version" = some number ∧
      integer? number = some version ∧ document.version = some version ∧
      item.get? "text" = some text ∧ document.text = text.text := by
  unfold opened? at h
  obtain ⟨item, hitem, h⟩ := Option.bind_eq_some_iff.1 h
  obtain ⟨uri', huri, h⟩ := Option.bind_eq_some_iff.1 h
  obtain ⟨language, hlanguage, h⟩ := Option.bind_eq_some_iff.1 h
  obtain ⟨literal, hliteral, h⟩ := Option.bind_eq_some_iff.1 h
  obtain ⟨number, hnumber, h⟩ := Option.bind_eq_some_iff.1 h
  obtain ⟨version, hversion, h⟩ := Option.bind_eq_some_iff.1 h
  obtain ⟨text, htext, h⟩ := Option.bind_eq_some_iff.1 h
  cases h
  exact ⟨item, language, number, version, text, hitem, huri, hlanguage, hliteral, hnumber,
    hversion, rfl, htext, rfl⟩

/-- What a document is changed with are the fields of the parameters. -/
theorem exists_of_changed? {version : Int} {texts : List (Option String)}
    (h : changed? ps = some (uri, version, texts)) :
    ∃ item number list items, ps.get? "textDocument" = some item ∧ uri? item = some uri ∧
      item.get? "version" = some number ∧ integer? number = some version ∧
      ps.get? "contentChanges" = some list ∧ items? list = some items ∧
      items.mapM change? = some texts := by
  unfold changed? at h
  obtain ⟨item, hitem, h⟩ := Option.bind_eq_some_iff.1 h
  obtain ⟨uri', huri, h⟩ := Option.bind_eq_some_iff.1 h
  obtain ⟨number, hnumber, h⟩ := Option.bind_eq_some_iff.1 h
  obtain ⟨version', hversion, h⟩ := Option.bind_eq_some_iff.1 h
  obtain ⟨list, hlist, h⟩ := Option.bind_eq_some_iff.1 h
  obtain ⟨items, hitems, h⟩ := Option.bind_eq_some_iff.1 h
  obtain ⟨texts', htexts, h⟩ := Option.bind_eq_some_iff.1 h
  cases h
  exact ⟨item, number, list, items, hitem, huri, hnumber, hversion, hlist, hitems, htexts⟩

/-- A place is told by the fields of the parameters. -/
theorem exists_of_spot? {place : Mark} (h : spot? ps = some (uri, place)) :
    subject? ps = some uri ∧ ∃ position line character, ps.get? "position" = some position ∧
      position.get? "line" = some line ∧ count? line = some place.line ∧
      position.get? "character" = some character ∧ count? character = some place.character := by
  unfold spot? place? at h
  obtain ⟨uri', huri, h⟩ := Option.bind_eq_some_iff.1 h
  obtain ⟨position, hposition, h⟩ := Option.bind_eq_some_iff.1 h
  obtain ⟨place', hplace, h⟩ := Option.bind_eq_some_iff.1 h
  cases h
  obtain ⟨line, hline, hplace⟩ := Option.bind_eq_some_iff.1 hplace
  obtain ⟨line', hline', hplace⟩ := Option.bind_eq_some_iff.1 hplace
  obtain ⟨character, hcharacter, hplace⟩ := Option.bind_eq_some_iff.1 hplace
  obtain ⟨character', hcharacter', hplace⟩ := Option.bind_eq_some_iff.1 hplace
  cases hplace
  exact ⟨huri, position, line, character, hposition, hline, hline', hcharacter, hcharacter'⟩

end Params

/-! ### The tools -/

namespace Toolkit
open Params

theorem standard_returnsFields : standard.ReturnsFields where
  opening := by
    intro ps uri document h
    obtain ⟨item, language, number, version, text, hitem, huri, hlanguage, hliteral, hnumber,
      hinteger, hversion, htext, hdocument⟩ := exists_of_opened? (eq_of_read h)
    refine ⟨textAt_of_uri? hitem huri, fun found hfound => ?_, fun found hfound => ?_,
      fun found hfound => ?_⟩
    · obtain rfl : text = .string found := by simpa [Json.at?, hitem, htext] using hfound
      exact hdocument
    · obtain rfl : number = .int found := by simpa [Json.at?, hitem, hnumber] using hfound
      rw [hversion, eq_of_integer? hinteger]
    · obtain rfl : language = .string found := by simpa [Json.at?, hitem, hlanguage] using hfound
      exact (Option.some.inj hliteral).symm
  changing := by
    intro ps changes h
    obtain ⟨⟨uri, version, texts⟩, hchanged, rfl⟩ := Option.map_eq_some_iff.1 (eq_of_read h)
    obtain ⟨item, number, list, items, hitem, huri, hnumber, hversion, hlist, hitems, htexts⟩ :=
      exists_of_changed? hchanged
    refine ⟨textAt_of_uri? hitem huri, fun found hfound => ?_, fun found news hfound hnews => ?_⟩
    · obtain rfl : number = .int found := by simpa [Json.at?, hitem, hnumber] using hfound
      exact eq_of_integer? hversion
    · obtain rfl : list = .array found := by simpa [Json.at?, hlist] using hfound
      obtain rfl := Option.some.inj hitems
      obtain rfl := eq_of_mapM_change? hnews htexts
      show (news.map some).map newText = news.map .ok
      rw [List.map_map]
      rfl
  closing h := textAt_of_subject? (eq_of_read h)
  hovering := by
    intro ps uri place h
    obtain ⟨huri, position, line, character, hposition, hline, hnumber, hcharacter, hcount⟩ :=
      exists_of_spot? (eq_of_read h)
    refine ⟨textAt_of_subject? huri, fun found hfound => ?_, fun found hfound => ?_⟩
    · obtain rfl : line = .int found := by simpa [Json.at?, hposition, hline] using hfound
      exact eq_of_count? hnumber
    · obtain rfl : character = .int found := by
        simpa [Json.at?, hposition, hcharacter] using hfound
      exact eq_of_count? hcount
  diagnosing h := textAt_of_subject? (eq_of_read h)

/-- A word is the run up to a place and the run from there on. -/
theorem standard_joinsWords : standard.JoinsWords := by
  intro text number line n hnarrow _ hline hn
  have hmem : line ∈ Text.lines text.toList := List.mem_of_getElem? hline
  have hinside (c : Char) (hc : c ∈ line.content) : c.toNat < 0x10000 := by
    refine hnarrow c ?_
    rw [← Text.flatMap_full_lines text.toList]
    exact List.mem_flatMap.2 ⟨line, hmem, List.mem_append_left _ hc⟩
  exact Text.wordAt_eq hline hinside hn

theorem standard_writesReports : standard.WritesReports := by
  intro ds
  refine ⟨ds.map Results.diagnostic, rfl, ?_⟩
  rw [List.forall₂_map_right_iff]
  exact List.forall₂_same.2 fun d _ => ⟨rfl, rfl, rfl, rfl, rfl⟩

theorem standard_writesHelp : standard.WritesHelp := fun _ => ⟨rfl, rfl⟩

end Toolkit
end PageScript
