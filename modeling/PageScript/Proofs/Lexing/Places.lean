import Mathlib.Data.List.DropRight
import PageScript.Proofs.Lexing.Spans

/-!
Places. The line and the column of a token tell where in the source its text stands, whatever line
ends there are in strings, comments and errors before it.
-/
namespace PageScript

/-- The place behind a text: its line counts the line ends, and its column the characters behind
the last of them. -/
theorem Position.afterAll_start (cs : List Char) :
    start.afterAll cs = ⟨1 + cs.count '\n', 1 + (cs.rtakeWhile (· ≠ '\n')).length⟩ := by
  induction cs using List.reverseRecOn with
  | nil => rfl
  | append_singleton cs c ih =>
    rw [afterAll_append, afterAll_cons, afterAll_nil, ih, after, List.rtakeWhile_concat]
    by_cases hc : c = '\n'
    · subst hc
      simp [Int.add_comm]
    · simp [hc, Int.add_assoc]

/-- The token is the one at this place of the source. Its line is one more than the line ends before
the place, and its column one more than the characters between the last of them and the place. Its
text stands there, that of a string between quotes and with backslashes before such quotes in it. -/
structure Token.StandsAt (source : List Char) (place : Nat) (t : Token) : Prop where
  line_eq : t.line = 1 + (source.take place).count '\n'
  column_eq : t.column = 1 + ((source.take place).rtakeWhile (· ≠ '\n')).length
  le_length : place ≤ source.length
  text_prefix : t.kind ≠ .string → t.text.toList <+: source.drop place
  string_prefix : t.kind = .string → ∃ quote inside, isQuote quote ∧
    Lexeme.isQuotable quote inside ∧ t.text.toList = Lexeme.unescape quote inside ∧
    quote :: (inside ++ [quote]) <+: source.drop place
  at_end : t.kind = .endOfInput → place = source.length

namespace Lexeme

/-- The token of a lexeme stands where the lexeme begins. -/
theorem Fits.standsAt {kind : TokenKind} {text : String} {raw rest : List Char}
    (h : Fits kind text raw rest) (before : List Char) :
    Token.StandsAt (before ++ (raw ++ rest)) before.length
      ⟨kind, text, (Position.start.afterAll before).line,
        (Position.start.afterAll before).column⟩ := by
  have hprefix : raw <+: (before ++ (raw ++ rest)).drop before.length := by
    rw [List.drop_left]
    exact List.prefix_append raw rest
  refine ⟨?_, ?_, by simp, fun hk => ?_, fun hk => ?_, fun hk => absurd hk h.ordinary.2⟩
  · rw [List.take_left, Position.afterAll_start]
  · rw [List.take_left, Position.afterAll_start]
  · rw [h.text_eq hk]
    exact hprefix
  · subst hk
    obtain ⟨quote, inside, hq, hi, rfl, htext⟩ := (h.spells (by simp)).exists_inside
    exact ⟨quote, inside, hq, hi, htext, hprefix⟩

/-- The tokens of the rest of a source stand at places of it, in order. -/
theorem exists_places (before cs : List Char) :
    ∃ places, places.Pairwise (· < ·) ∧ (∀ place ∈ places, before.length ≤ place) ∧
      List.Forall₂ (Token.StandsAt (before ++ cs)) places
        (tokens (Position.start.afterAll before) (all cs)) := by
  fun_induction all cs generalizing before with
  | case1 =>
    refine ⟨[before.length], by simp, by simp, .cons ⟨?_, ?_, by simp, by simp, by simp, by simp⟩
      .nil⟩
    all_goals simp [Position.afterAll_start]
  | case2 c cs token? n hscan ih =>
    -- The lexemes behind this one are placed in the same source, with more of it before them.
    obtain ⟨places, hplaces, hbehind, hstands⟩ := ih (before ++ c :: cs.take n)
    have hsource : before ++ c :: cs.take n ++ cs.drop n = before ++ c :: cs := by simp
    rw [hsource, Position.afterAll_append] at hstands
    have hlater : ∀ place ∈ places, before.length < place := by
      intro place hplace
      have := hbehind place hplace
      simp only [List.length_append, List.length_cons] at this
      omega
    cases token? with
    | none => exact ⟨places, hplaces, fun place hplace => (hlater place hplace).le, hstands⟩
    | some token =>
      obtain ⟨kind, text⟩ := token
      have hfirst := (fits_of_scan hscan).standsAt before
      rw [List.cons_append, List.take_append_drop] at hfirst
      refine ⟨before.length :: places, .cons hlater hplaces, ?_, .cons hfirst hstands⟩
      simpa using fun place hplace => (hlater place hplace).le

end Lexeme

/-- **Positions are true.** To the tokens of a source, its end of input included, there are places
of the source, each behind the one before, at which they stand. -/
theorem Token.ofSource_places (source : String) :
    ∃ places, places.Pairwise (· < ·) ∧
      List.Forall₂ (StandsAt source.toList) places (ofSource source) := by
  obtain ⟨places, hplaces, -, hstands⟩ := Lexeme.exists_places [] source.toList
  exact ⟨places, hplaces, hstands⟩

/-- The lines of tokens are those of the source, which has one more than line ends. -/
theorem Token.line_bounds {source : String} {t : Token} (ht : t ∈ ofSource source) :
    1 ≤ t.line ∧ t.line ≤ 1 + source.toList.count '\n' := by
  obtain ⟨places, -, -, hstands⟩ := Lexeme.exists_places [] source.toList
  obtain ⟨i, hi, rfl⟩ := List.getElem_of_mem ht
  have hplace : i < places.length := hstands.length_eq ▸ hi
  have hline : (ofSource source)[i].line = 1 + (source.toList.take places[i]).count '\n' :=
    (hstands.get hplace hi).line_eq
  have hle := (List.take_sublist places[i] source.toList).count_le '\n'
  omega

end PageScript
