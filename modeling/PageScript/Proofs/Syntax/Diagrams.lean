import PageScript.Proofs.Lexing.Counting
import PageScript.Proofs.Syntax.Blame
import PageScript.Proofs.Text.Lines
import PageScript.Report

/-!
The picture of a syntax error. Tokens count lines by line feeds, and the picture takes its line from
all the characters that end one. As long as these agree up to the token at which the reading fails,
the picture shows the whole line of that token, and a caret below its first character.
-/
namespace PageScript

/-- At the place of a token there is a character that is no blank. -/
theorem Token.StandsAt.exists_first {source : String} {place : Nat} {t : Token}
    (h : t.StandsAt source.toList place) (ht : t ∈ ofSource source) (hend : t.kind ≠ .endOfInput) :
    ∃ c, source.toList[place]? = some c ∧ Lexeme.isSpace c = false := by
  have hfirst {c : Char} {cs : List Char} (hbegins : c :: cs <+: source.toList.drop place) :
      source.toList[place]? = some c := by
    obtain ⟨rest, hrest⟩ := hbegins
    rw [← List.head?_drop, ← hrest]
    rfl
  by_cases hk : t.kind = .string
  · obtain ⟨quote, inside, hquote, -, -, hbegins⟩ := h.string_prefix hk
    exact ⟨quote, hfirst hbegins, Lexeme.isSpace_eq_false (.inl hquote)⟩
  · obtain ⟨s, hs⟩ := exists_carries ht hend
    obtain ⟨c, cs, hcs, hspace⟩ := hs.exists_first
    have hbegins := h.text_prefix hk
    rw [hs.text_eq hk, hcs] at hbegins
    exact ⟨c, hfirst hbegins, hspace⟩

/-! ### Pictures -/

namespace Text.Row
variable {source : List Char} {place : Nat}

/-- The line behind a margin with its number, and a caret below the place behind an empty margin of
the same width. -/
def picture (row : Row source place) (number : String) : String :=
  number ++ " | " ++ String.ofList row.text ++ "\n" ++
    Report.spaces (number.length + 1) ++ "| " ++ Report.spaces row.left.length ++ "^"

theorem line_eq (row : Row source place) {t : Token} (h : t.StandsAt source place) :
    t.line = 1 + row.above.length := by
  rw [h.line_eq, row.count_take]

theorem column_eq (row : Row source place) {t : Token} (h : t.StandsAt source place) :
    t.column = 1 + row.left.length := by
  rw [h.column_eq, row.rtakeWhile_take]

end Text.Row

/-- A report on the place of a token shows its line, if that is counted as line feeds count it. -/
theorem Report.diagram_of_row {source : String} {place : Nat} {t : Token} {r : Report}
    (ht : t.StandsAt source.toList place) (hsource : r.source = source) (hline : r.line = t.line)
    (hcolumn : r.column = t.column) (row : Text.Row source.toList place)
    (hrow : row.IsCounted (Text.lines source.toList)) (file : String) :
    r.diagram file = "error: " ++ r.message ++ "\n" ++
      spaces ((toString t.line).length + 1) ++ "--> " ++
        file ++ ":" ++ toString t.line ++ ":" ++ toString t.column ++ "\n" ++
      spaces ((toString t.line).length + 1) ++ "|\n" ++ row.picture (toString t.line) := by
  have hnumber := row.line_eq ht
  have hplace := row.column_eq ht
  have hsourceLine : r.sourceLine = row.text := by
    have hindex : (t.line - 1).toNat = row.above.length := by omega
    rw [sourceLine, if_neg (by omega), hsource, hline, hindex]
    exact (congrArg (Option.getD · []) hrow)
  have hmark : r.mark = spaces row.left.length ++ "^" := by
    have hindent : t.column - 1 = row.left.length := by omega
    rw [mark, if_pos (by omega), hcolumn, hindent]
  have hne : row.text.isEmpty = false := by simp [Text.Row.text]
  simp only [diagram, hsourceLine, hmark, hline, hcolumn, hne, Bool.false_eq_true, if_false,
    if_pos (show t.column ≠ 0 by omega), Text.Row.picture, String.append_assoc]

namespace Program

/-- **The caret points at the offending token.** A syntax error stands at one token of the source.
If that is not the end of the input, and nothing but line feeds, also behind carriage returns, ends
a line up to that of the token, then the picture shows the line that the first character of the
token is in, and a caret below that character. -/
theorem diagram_of_error {source : String} {e : SyntaxError} (h : ofSource source = .error e)
    (file : String) :
    ∃ before t after, Token.ofSource source = before ++ t :: after ∧
      e.line = t.line ∧ e.column = t.column ∧
      (t.kind ≠ .endOfInput → Text.PlainUpTo source.toList (t.line - 1).toNat →
        ∃ place, t.StandsAt source.toList place ∧ ∃ row : Text.Row source.toList place,
          (e.report source).diagram file = "error: " ++ e.fault.message ++ "\n" ++
            Report.spaces ((toString t.line).length + 1) ++ "--> " ++
              file ++ ":" ++ toString t.line ++ ":" ++ toString t.column ++ "\n" ++
            Report.spaces ((toString t.line).length + 1) ++ "|\n" ++
              row.picture (toString t.line)) := by
  obtain ⟨before, t, after, hsource, -, hline, hcolumn, -⟩ := exists_blamed h
  refine ⟨before, t, after, hsource, hline, hcolumn, fun hend hplain => ?_⟩
  have ht : t ∈ Token.ofSource source := hsource ▸ by simp
  obtain ⟨place, hplace⟩ := Token.exists_standsAt ht
  obtain ⟨c, hc, hspace⟩ := hplace.exists_first ht hend
  have hne : c ≠ '\n' ∧ c ≠ '\r' := by
    constructor
    all_goals
      rintro rfl
      revert hspace
      decide
  have hlines : (t.line - 1).toNat = (source.toList.take place).count '\n' := by
    rw [hplace.line_eq]
    omega
  rw [hlines] at hplain
  obtain ⟨row, hrow⟩ := hplain.exists_row hc hne.1 hne.2
  exact ⟨place, hplace, row,
    Report.diagram_of_row (r := e.report source) hplace rfl hline hcolumn row hrow file⟩

/-- A bracket on the second line, where lines end with carriage returns and line feeds. -/
theorem diagram_of_error_returns :
    let source := "let a = 1\r\nlet b ]\r\n"
    let e : SyntaxError := ⟨.expected .assignment, 2, 7⟩
    ofSource source = .error e ∧ e.raised? source = some (e.report source) ∧
      Text.PlainUpTo source.toList 1 ∧
      (∃ place, Token.StandsAt source.toList place ⟨.rightBracket, "]", 2, 7⟩ ∧
        ∃ row : Text.Row source.toList place, (e.report source).diagram "demo.ng" =
          "error: Expected '=' after variable name\n  --> demo.ng:2:7\n  |\n" ++ row.picture "2") ∧
      (e.report source).diagram "demo.ng" = "error: Expected '=' after variable name\n" ++
        "  --> demo.ng:2:7\n  |\n2 | let b ]\n  |       ^" := by
  intro source e
  have h : ofSource source = .error e := by
    revert e source
    with_unfolding_all rfl
  have hplain : Text.PlainUpTo source.toList 1 := by decide +kernel
  have htokens : Token.ofSource source = [⟨.letWord, "let", 1, 1⟩, ⟨.identifier, "a", 1, 5⟩,
      ⟨.assign, "=", 1, 7⟩, ⟨.number, "1", 1, 9⟩, ⟨.letWord, "let", 2, 1⟩,
      ⟨.identifier, "b", 2, 5⟩] ++ ⟨.rightBracket, "]", 2, 7⟩ :: [⟨.endOfInput, "", 3, 1⟩] := by
    decide +kernel
  obtain ⟨before, t, after, hsource, hline, hcolumn, hpicture⟩ := diagram_of_error h "demo.ng"
  obtain ⟨-, rfl, -⟩ := Token.split_unique htokens hsource hline hcolumn
  obtain ⟨place, hplace, row, hrow⟩ := hpicture (by decide) hplain
  have hraised : e.raised? source = some (e.report source) :=
    raised_of_ofSource (by decide +kernel) h
  exact ⟨h, hraised, hplain, ⟨place, hplace, row, hrow⟩, by decide +kernel⟩

/-- A form feed in a string cuts the line short in the picture. -/
theorem not_forall_pictured :
    ¬ ∀ source e, ofSource source = .error e → ∀ t ∈ Token.ofSource source,
      t.kind ≠ .endOfInput → e.line = t.line → e.column = t.column →
        ∃ place, t.StandsAt source.toList place ∧ ∃ row : Text.Row source.toList place, ∃ head,
          (e.report source).diagram defaultFile = head ++ row.picture (toString t.line) := by
  intro hall
  have h : ofSource "'\x0c' ]" = .error ⟨.unexpected "]", 1, 5⟩ := by
    clear hall
    with_unfolding_all rfl
  have ht : ⟨.rightBracket, "]", 1, 5⟩ ∈ Token.ofSource "'\x0c' ]" := by decide +kernel
  obtain ⟨place, -, row, head, hdiagram⟩ := hall _ _ h _ ht (by decide) rfl rfl
  have hmem : '\x0c' ∈ row.text := by
    rw [row.text_of_feedless (by decide)]
    decide
  have hshown : '\x0c' ∈ (((⟨.unexpected "]", 1, 5⟩ : SyntaxError).report "'\x0c' ]").diagram
      defaultFile).toList := by
    rw [hdiagram]
    simp only [Text.Row.picture, String.toList_append, String.toList_ofList, List.mem_append, hmem,
      true_or, or_true]
  revert hshown
  decide +kernel

end Program
end PageScript
