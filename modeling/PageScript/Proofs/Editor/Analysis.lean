import PageScript.Editor.Diagnostic
import PageScript.Proofs.Lexing.Joining
import PageScript.Proofs.Number.Decimal
import PageScript.Proofs.Syntax.Blame

/-!
What editors are told of a text agrees with its reading as a program. The line of a syntax error is
taken from its message, where it comes last; so no message may name a line before that, whatever it
quotes.
-/
namespace PageScript

/-! ### The line in a message -/

namespace Diagnostic

/-- The first word before a line does not occur in a text. -/
def NamesNoLine (cs : List Char) : Prop := ¬ "at".toList <:+: cs

instance (cs : List Char) : Decidable (NamesNoLine cs) := inferInstanceAs (Decidable (¬ _))

theorem NamesNoLine.tail {c : Char} {cs : List Char} (h : NamesNoLine (c :: cs)) :
    NamesNoLine cs := by
  intro hword
  exact h (hword.trans (List.suffix_cons c cs).isInfix)

/-- In front of a blank, nothing but the words before a line can begin a line. -/
theorem lineHere?_append {c : Char} {cs : List Char} (h : NamesNoLine (c :: cs))
    (rest : List Char) : lineHere? (c :: (cs ++ ' ' :: rest)) = none := by
  have hprefix : lineWords.isPrefixOf (c :: (cs ++ ' ' :: rest)) = false := by
    by_contra htrue
    rw [Bool.not_eq_false, List.isPrefixOf_iff_prefix] at htrue
    obtain ⟨after, hafter⟩ := htrue
    obtain ⟨rfl, hrest⟩ := List.cons.inj (show 'a' :: ('t' :: _) = _ from hafter)
    cases cs with
    | nil => cases hrest
    | cons d cs =>
      obtain ⟨rfl, -⟩ := List.cons.inj hrest
      exact h ⟨[], cs, rfl⟩
  simp [lineHere?, hprefix]

/-- A text that names no line may stand in front of one that does. -/
theorem lineIn?_append {front : List Char} (h : NamesNoLine front) (rest : List Char) :
    lineIn? (front ++ ' ' :: rest) = lineIn? (' ' :: rest) := by
  induction front with
  | nil => rfl
  | cons c cs ih =>
    rw [List.cons_append, lineIn?, lineHere?_append h]
    exact ih h.tail

theorem frontDigits_of_isDigit {cs : List Char} (h : ∀ c ∈ cs, c.isDigit) :
    frontDigits cs = cs.map fun c => c.toNat - 48 := by
  induction cs with
  | nil => rfl
  | cons c cs ih =>
    have hc : c.isDigit := h c (by simp)
    have hcs := ih fun d hd => h d (by simp [hd])
    simp [frontDigits, Numeral.digitValue?_of_isDigit hc, hcs]

theorem lineIn?_of_here {cs : List Char} {n : Nat} (h : lineHere? cs = some n) :
    lineIn? cs = some n := by
  cases cs with
  | nil => cases h
  | cons c cs => rw [lineIn?, h]

/-- A line is recovered from its decimal text. -/
theorem lineIn?_repr (n : Nat) : lineIn? (' ' :: (lineWords ++ n.repr.toList)) = some n := by
  have hdigits : ∀ c ∈ n.repr.toList, c.isDigit := by
    intro c hc
    rw [Nat.toList_repr] at hc
    exact Nat.isDigit_of_mem_toDigits (by omega) (by omega) hc
  have hvalue : Numeral.ofDigits (n.repr.toList.map fun c => c.toNat - 48) = n := by
    rw [Numeral.ofDigits_map, Nat.toList_repr, Nat.ofDigitChars_ten_toDigits]
  have hhere : lineHere? (lineWords ++ n.repr.toList) = some n := by
    have hprefix : lineWords.isPrefixOf (lineWords ++ n.repr.toList) := by simp
    rw [lineHere?, if_pos hprefix, List.drop_left, frontDigits_of_isDigit hdigits]
    split
    · next hnil => simp [Nat.toList_repr, Nat.toDigits_ne_nil] at hnil
    · rw [hvalue]
  have hblank : lineHere? (' ' :: (lineWords ++ n.repr.toList)) = none := rfl
  rw [lineIn?, hblank]
  exact lineIn?_of_here hhere

end Diagnostic

/-! ### Tokens at which the reading fails -/

theorem Lexeme.line_le_tokens {p : Position} {lexemes : List Lexeme} :
    ∀ t ∈ tokens p lexemes, p.line ≤ t.line := by
  induction lexemes generalizing p with
  | nil => simp [tokens]
  | cons lexeme rest ih =>
    have hline : p.line ≤ (p.afterAll lexeme.raw).line := by
      rw [Position.line_afterAll]
      omega
    have hrest : ∀ t ∈ tokens (p.afterAll lexeme.raw) rest, p.line ≤ t.line :=
      fun t ht => Int.le_trans hline (ih t ht)
    rw [tokens]
    split
    · simpa using hrest
    · exact hrest

namespace Token
variable {source : String} {t : Token}

theorem one_le_line (ht : t ∈ ofSource source) : 1 ≤ t.line :=
  Lexeme.line_le_tokens (p := .start) t ht

end Token

open Diagnostic

theorem Expectation.namesNoLine (what : Expectation) : NamesNoLine what.message.toList := by
  cases what <;> decide +kernel

/-- What is said of a token that is no error names no line, whatever it quotes. -/
theorem SyntaxFault.Concerns.namesNoLine {fault : SyntaxFault} {source : String} {t : Token}
    (h : fault.Concerns t) (ht : t ∈ Token.ofSource source) (hk : t.kind ≠ .error) :
    NamesNoLine fault.message.toList := by
  cases fault with
  | expected what => exact what.namesNoLine
  | unexpectedEnd | numberTooLong | nestingTooDeep => decide +kernel
  | lexical text => exact absurd h.2 hk
  | unexpected text =>
    obtain ⟨rfl, hopen⟩ := h
    simp only [List.mem_cons, not_or] at hopen
    obtain ⟨hstring, hnumber, hname, hend, -⟩ := hopen
    have hall : ∀ c ∈ Lexeme.fixedContents,
        NamesNoLine ("Unexpected token: ".toList ++ c.2.toList) := by
      decide +kernel
    have hlexed : t.Lexed := t.lexed_of_mem ht hend hk
    have htext : (SyntaxFault.unexpected t.text).message.toList =
        "Unexpected token: ".toList ++ t.text.toList := String.toList_append
    rw [htext]
    exact hall (t.kind, t.text) (hlexed.mem_fixedContents hstring hnumber hname)

/-- **The line of a syntax error is recovered from its message.** -/
theorem Program.lineIn?_summary {source : String} {e : SyntaxError}
    (h : ofSource source = .error e) (hnone : errorTokens source = []) (text : String) :
    ∃ n : Nat, lineIn? (e.report text).summary.toList = some n ∧ e.line = n := by
  obtain ⟨before, t, after, hsource, -, hline, -, hconcerns⟩ := exists_blamed h
  have ht : t ∈ Token.ofSource source := by simp [hsource]
  have hk : t.kind ≠ .error := by
    intro hk
    have hmem : t ∈ errorTokens source := List.mem_filter.2 ⟨ht, by simpa using hk⟩
    rw [hnone] at hmem
    cases hmem
  obtain ⟨n, hn⟩ := Int.eq_ofNat_of_zero_le (show 0 ≤ e.line by
    have := Token.one_le_line ht
    omega)
  refine ⟨n, ?_, hn⟩
  have hsummary : (e.report text).summary.toList =
      e.fault.message.toList ++ ' ' :: (lineWords ++ n.repr.toList) := by
    have hline : toString e.line = n.repr := by rw [hn]; rfl
    simp only [Report.summary, SyntaxError.report, hline, String.toList_append, List.append_assoc]
    rfl
  rw [hsummary, lineIn?_append (hconcerns.namesNoLine ht hk)]
  exact lineIn?_repr n

/-! ### Agreement -/

/-- **Editors are told what the reader finds.** Nothing is wrong with a text if and only if it is a
program. If it has error tokens, they are what is wrong with it, one by one and in their order; it
is no program then, and the reader fails at the first of them or before it. Otherwise, if the reader
fails, one thing is wrong: it says what the reader says, and stands on the line of the reader's
error, whatever the message quotes. -/
theorem Diagnostic.analyze_agrees (text : String) :
    ((analyze text).1 = [] ↔ ∃ program, Program.ofSource text = .ok program) ∧
    (errorTokens text ≠ [] →
      (analyze text).1 = (errorTokens text).map ofToken ∧
      ∃ e before t after, Program.ofSource text = .error e ∧
        Token.ofSource text = before ++ t :: after ∧ (∀ u ∈ before, u.kind ≠ .error) ∧
        e.line = t.line ∧ e.column = t.column) ∧
    (errorTokens text = [] → ∀ e, Program.ofSource text = .error e →
      ∃ d, (analyze text).1 = [d] ∧ d.message = (e.report text).summary ∧
        d.first.line = e.line - 1) := by
  rcases herrors : errorTokens text with _ | ⟨t, rest⟩
  · refine ⟨?_, fun hne => absurd rfl hne, ?_⟩
    · cases h : Program.ofSource text with
      | ok program => simp [analyze, herrors, h]
      | error e => simp [analyze, herrors, h]
    · intro _ e h
      obtain ⟨n, hn, hline⟩ := Program.lineIn?_summary h herrors ""
      refine ⟨ofSyntaxError e, by simp [analyze, herrors, h], rfl, ?_⟩
      simp only [ofSyntaxError, ofMessage, hn, hline]
  · have hanalyze : (analyze text).1 = (t :: rest).map ofToken := by simp [analyze, herrors]
    obtain ⟨ht, hk⟩ := List.mem_filter.1 (herrors ▸ List.mem_cons_self : t ∈ errorTokens text)
    obtain ⟨e, he⟩ := Program.exists_error_of_mem ht (by simpa using hk)
    refine ⟨?_, fun _ => ⟨hanalyze, ?_⟩, nofun⟩
    · simp [hanalyze, he]
    · obtain ⟨before, u, after, hsource, hbefore, hline, hcolumn, -⟩ := Program.exists_blamed he
      exact ⟨e, before, u, after, he, hsource, hbefore, hline, hcolumn⟩

/-- A string that names a line does not mislead, and neither do the tokens after an error. -/
theorem Diagnostic.analyze_agrees_quoted :
    (∃ e d, Program.ofSource "f('at line 7'\n]" = .error e ∧
      (analyze "f('at line 7'\n]").1 = [d] ∧ d.message = (e.report "f('at line 7'\n]").summary ∧
      d.first.line = e.line - 1 ∧ d.message = "Expected ')' after arguments at line 2") ∧
    ∃ e before t after, Program.ofSource "let 1\n'at line 7" = .error e ∧
      Token.ofSource "let 1\n'at line 7" = before ++ t :: after ∧
      (∀ u ∈ before, u.kind ≠ .error) ∧ e.line = t.line ∧ e.column = t.column := by
  obtain ⟨hclean, -, hone⟩ := analyze_agrees "f('at line 7'\n]"
  obtain ⟨-, hmany, -⟩ := analyze_agrees "let 1\n'at line 7"
  refine ⟨?_, (hmany (by decide +kernel)).2⟩
  cases h : Program.ofSource "f('at line 7'\n]" with
  | ok program => exact absurd (hclean.2 ⟨program, h⟩) (by decide +kernel)
  | error e =>
    obtain ⟨d, hd, hmessage, hline⟩ := hone (by decide +kernel) e h
    have htext : (analyze "f('at line 7'\n]").1.map (·.message) =
        ["Expected ')' after arguments at line 2"] := by
      decide +kernel
    rw [hd] at htext
    exact ⟨e, d, rfl, hd, hmessage, hline, (List.cons.inj htext).1⟩

end PageScript
