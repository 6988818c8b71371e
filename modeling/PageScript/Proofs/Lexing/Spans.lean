import Mathlib.Data.List.Forall2
import PageScript.Proofs.Lexing.LongestMatch

/-!
Nothing of a source is lost and nothing is invented: its tokens stand for stretches of it, in order
and apart from each other, and between them there are only blanks and comments.
-/
namespace PageScript.Lexeme

/-! ### Between the tokens -/

/-- Blanks and comments with `rest` behind them. A comment runs up to a line end or to the end of
the source. -/
inductive Trivia (rest : List Char) : List Char → Prop where
  | nil : Trivia rest []
  | blank {c : Char} {cs : List Char} (hc : isSpace c) (hcs : Trivia rest cs) :
    Trivia rest (c :: cs)
  | comment {body cs : List Char} (hbody : '\n' ∉ body)
    (hstop : ∀ c, (cs ++ rest).head? = some c → c = '\n') (hcs : Trivia rest cs) :
    Trivia rest ('/' :: '/' :: (body ++ cs))

/-- A source that is read as the given tokens, with blanks and comments around them. -/
inductive Tokenized : List Char → List Token → Prop where
  | done {gap : List Char} (hgap : Trivia [] gap) : Tokenized gap []
  | token {gap raw rest : List Char} {t : Token} {ts : List Token}
    (hgap : Trivia (raw ++ rest) gap) (ht : Fits t.kind t.text raw rest) (hts : Tokenized rest ts) :
    Tokenized (gap ++ (raw ++ rest)) (t :: ts)

theorem Tokenized.blank {c : Char} (hc : isSpace c) {cs : List Char} {ts : List Token}
    (h : Tokenized cs ts) : Tokenized (c :: cs) ts := by
  cases h with
  | done hgap => exact .done (.blank hc hgap)
  | token hgap ht hts => exact .token (.blank hc hgap) ht hts

theorem Tokenized.comment {body cs : List Char} (hbody : '\n' ∉ body)
    (hstop : ∀ c, cs.head? = some c → c = '\n') {ts : List Token} (h : Tokenized cs ts) :
    Tokenized ('/' :: '/' :: (body ++ cs)) ts := by
  cases h with
  | done hgap => exact .done (.comment hbody (by simpa using hstop) hgap)
  | token hgap ht hts =>
    have h := Tokenized.token (.comment hbody hstop hgap) ht hts
    simpa using h

/-- What is scanned as no token is a blank, or a comment up to the end of its line. -/
theorem trivia_of_scan {c : Char} {cs : List Char} {n : Nat} (h : scan c cs = (none, n)) :
    (isSpace c ∧ n = 0) ∨
      c = '/' ∧ ∃ body rest, cs = '/' :: (body ++ rest) ∧ n = body.length + 1 ∧ '\n' ∉ body ∧
        ∀ d, rest.head? = some d → d = '\n' := by
  have hscanned := scanned c cs
  rw [h] at hscanned
  cases hscanned with
  | blank hspace => exact .inl ⟨hspace, rfl⟩
  | comment hcomment =>
    obtain ⟨rfl, hhead⟩ := hcomment
    obtain ⟨ds, rfl⟩ := List.head?_eq_some_iff.1 hhead
    refine .inr ⟨rfl, ds.takeWhile (· ≠ '\n'), ds.dropWhile (· ≠ '\n'), ?_, by simp, ?_, ?_⟩
    · rw [List.takeWhile_append_dropWhile]
    · intro hmem
      simpa using all_of_takeWhile _ hmem
    · intro d hd
      have := List.head?_dropWhile_not (· ≠ '\n') ds
      rw [hd] at this
      simpa using this

/-- A source is read as its tokens, and one end of input behind them. -/
theorem exists_tokenized (p : Position) (cs : List Char) :
    ∃ ts eof, tokens p (all cs) = ts ++ [eof] ∧ eof.kind = .endOfInput ∧ eof.text = "" ∧
      Tokenized cs ts := by
  fun_induction all cs generalizing p with
  | case1 => exact ⟨[], _, rfl, rfl, rfl, .done .nil⟩
  | case2 c cs token? n hscan ih =>
    obtain ⟨ts, eof, hts, hkind, htext, h⟩ := ih (p.afterAll (c :: cs.take n))
    cases token? with
    | none =>
      refine ⟨ts, eof, by simpa [tokens] using hts, hkind, htext, ?_⟩
      rcases trivia_of_scan hscan with ⟨hspace, rfl⟩ | ⟨rfl, body, rest, rfl, rfl, hbody, hstop⟩
      · exact h.blank hspace
      · rw [List.drop_succ_cons, List.drop_left] at h
        exact h.comment hbody hstop
    | some token =>
      obtain ⟨kind, text⟩ := token
      refine ⟨⟨kind, text, p.line, p.column⟩ :: ts, eof, by simpa [tokens] using hts, hkind, htext,
        ?_⟩
      have h := Tokenized.token .nil (t := ⟨kind, text, p.line, p.column⟩) (fits_of_scan hscan) h
      simpa using h

theorem Tokenized.eq_nil {ts : List Token} (h : Tokenized [] ts) : ts = [] := by
  generalize hcs : [] = cs at h
  cases h with
  | done => rfl
  | token hgap ht hts =>
    obtain ⟨-, hraw, -⟩ := by simpa using hcs
    exact absurd hraw ht.ne_nil

/-! ### Places in the source -/

/-- The stretch of a source from the character numbered `start` up to the one numbered `stop`. -/
structure Span where
  start : Nat
  stop : Nat

namespace Span

def text (source : List Char) (s : Span) : List Char := (source.take s.stop).drop s.start

theorem text_append (before raw rest : List Char) :
    text (before ++ (raw ++ rest)) ⟨before.length, before.length + raw.length⟩ = raw := by
  simp [text, List.take_length_add_append]

/-- The character here begins no token and is no blank. -/
def IsStray (source : List Char) (s : Span) : Prop :=
  ∃ c, s.text source = [c] ∧ isSpace c = false ∧ ∀ kind text cs, ¬ Spells kind text (c :: cs)

/-- Here begins a string that is not closed up to the end of the source. -/
def IsUnterminated (source : List Char) (s : Span) : Prop :=
  s.stop = source.length ∧
    ∃ quote cs, isQuote quote ∧ s.text source = quote :: cs ∧
      ∀ kind text front, front <+: quote :: cs → ¬ Spells kind text front

/-- What is right about a token that is taken for this stretch of the source. -/
structure Carries (source : List Char) (s : Span) (t : Token) : Prop where
  text_eq : t.kind ≠ .string → t.text.toList = s.text source
  string_text : t.kind = .string → ∃ quote inside, isQuote quote ∧ isQuotable quote inside ∧
    s.text source = quote :: (inside ++ [quote]) ∧ t.text.toList = unescape quote inside
  spells : t.kind ≠ .error → Spells t.kind t.text.toList (s.text source)
  longest : ∀ stop kind text, s.stop < stop → stop ≤ source.length →
    ¬ Spells kind text (Span.text source ⟨s.start, stop⟩)
  no_comment : ¬ ['/', '/'] <+: source.drop s.start
  error : t.kind = .error → s.IsStray source ∨ s.IsUnterminated source
  ordinary : t.kind ≠ .newline ∧ t.kind ≠ .endOfInput

end Span

/-- What is rightly taken for a token is so at its place in the source. -/
theorem Fits.carries {t : Token} {raw rest : List Char} (h : Fits t.kind t.text raw rest)
    (before : List Char) :
    Span.Carries (before ++ (raw ++ rest)) ⟨before.length, before.length + raw.length⟩ t := by
  have htext := Span.text_append before raw rest
  refine ⟨?_, ?_, ?_, ?_, ?_, ?_, h.ordinary⟩
  · intro hk
    rw [htext, h.text_eq hk]
  · intro hk
    rw [htext]
    have hs := h.spells (by simp [hk])
    rw [hk] at hs
    exact hs.exists_inside
  · rw [htext]
    exact h.spells
  · intro stop kind text hlt hle
    obtain ⟨n, rfl⟩ := Nat.exists_eq_add_of_lt hlt
    simp only [List.length_append, Nat.add_assoc, Nat.add_le_add_iff_left] at hle
    have hmore : rest.take (n + 1) ≠ [] := by
      intro hnil
      rcases List.take_eq_nil_iff.1 hnil with hn | rfl
      · omega
      · simp at hle
    have hlonger : ¬ Spells kind text (raw ++ rest.take (n + 1)) :=
      h.longest (List.take_prefix (n + 1) rest) hmore
    simpa [Span.text, Nat.add_assoc, List.take_length_add_append] using hlonger
  · rw [List.drop_left]
    exact h.no_comment
  · intro hk
    rw [hk] at h
    rcases h.of_error with ⟨c, rfl, hc⟩ | ⟨rfl, quote, cs, hq, rfl, hs⟩
    · exact .inl ⟨c, htext, hc⟩
    · exact .inr ⟨by simp, quote, cs, hq, htext, hs⟩

/-- A token begins with a character that is no blank. -/
theorem Span.Carries.exists_first {source : List Char} {s : Span} {t : Token}
    (h : s.Carries source t) : ∃ c cs, s.text source = c :: cs ∧ isSpace c = false := by
  by_cases hk : t.kind = .error
  · rcases h.error hk with ⟨c, hc, hspace, -⟩ | ⟨-, quote, cs, hquote, hcs, -⟩
    · exact ⟨c, [], hc, hspace⟩
    · exact ⟨quote, cs, hcs, isSpace_eq_false (.inl hquote)⟩
  · exact (h.spells hk).exists_first

/-- Spans of a source from the character numbered `place` on, in order and apart from each other,
with only blanks and comments before, between and behind them. -/
def Spaced (source : List Char) (place : Nat) : List Span → Prop
  | [] => Trivia [] (source.drop place)
  | s :: spans =>
    place ≤ s.start ∧ s.start < s.stop ∧ s.stop ≤ source.length ∧
      Trivia (source.drop s.start) (Span.text source ⟨place, s.start⟩) ∧
      Spaced source s.stop spans

/-- The tokens that a source is read as stand at spans of it. -/
theorem Tokenized.exists_spans {cs : List Char} {ts : List Token} (h : Tokenized cs ts)
    (before : List Char) :
    ∃ spans, Spaced (before ++ cs) before.length spans ∧
      List.Forall₂ (Span.Carries (before ++ cs)) spans ts := by
  induction h generalizing before with
  | done hgap => exact ⟨[], by simpa [Spaced] using hgap, .nil⟩
  | @token gap raw rest t ts hgap ht hts ih =>
    -- The tokens behind this one are placed in the same source, with more of it before them.
    obtain ⟨spans, hspaced, hcarries⟩ := ih (before ++ gap ++ raw)
    have hcarry := ht.carries (before ++ gap)
    have hraw : 0 < raw.length := List.length_pos_iff.2 ht.ne_nil
    have hsource : before ++ gap ++ raw ++ rest = before ++ (gap ++ (raw ++ rest)) := by simp
    rw [hsource] at hspaced hcarries
    rw [List.append_assoc before gap] at hcarry
    refine ⟨⟨(before ++ gap).length, (before ++ gap).length + raw.length⟩ :: spans,
      ⟨by simp, by simpa using hraw, by simp; omega, ?_, ?_⟩, .cons hcarry hcarries⟩
    · rw [← List.append_assoc before gap, List.drop_left, List.append_assoc, List.length_append,
        Span.text_append]
      exact hgap
    · rw [← List.length_append]
      exact hspaced

/-- An error that is not the last of the tokens is a single character. -/
theorem Tokenized.stray_or_last {cs : List Char} {ts before after : List Token} {t : Token}
    (h : Tokenized cs ts) (hts : ts = before ++ t :: after) (hk : t.kind = .error) :
    (∃ c, t.text = String.singleton c ∧ ∀ kind text cs, ¬ Spells kind text (c :: cs)) ∨
      after = [] := by
  induction h generalizing before with
  | done hgap => simp at hts
  | @token gap raw rest t' ts hgap ht hts' ih =>
    cases before with
    | cons first before =>
      obtain ⟨-, hts⟩ := by simpa using hts
      exact ih hts
    | nil =>
      obtain ⟨rfl, rfl⟩ := by simpa using hts
      have htext := ht.text_eq (by simp [hk])
      rw [hk] at ht
      rcases ht.of_error with ⟨c, rfl, -, hc⟩ | ⟨rfl, -⟩
      · exact .inl ⟨c, by rw [← String.toList_inj, htext, String.toList_singleton], hc⟩
      · exact .inr hts'.eq_nil

end PageScript.Lexeme

namespace PageScript

/-- **Nothing is lost and nothing is invented.** The tokens of a source are one end of input behind
tokens that stand at spans of it, in order and apart from each other. Between the spans there are
only blanks and comments. Each token has the text of its span, or the text between its quotes, and
is as long as the grammar allows at its place. An error is a character that begins no token, or it
is the last token and a string without its closing quote. -/
theorem Token.ofSource_spans (source : String) :
    ∃ ts eof spans, Token.ofSource source = ts ++ [eof] ∧ eof.kind = .endOfInput ∧ eof.text = "" ∧
      Lexeme.Spaced source.toList 0 spans ∧
      List.Forall₂ (Lexeme.Span.Carries source.toList) spans ts ∧
      ∀ before t after, ts = before ++ t :: after → t.kind = .error →
        (∃ c, t.text = String.singleton c ∧
          ∀ kind text cs, ¬ Lexeme.Spells kind text (c :: cs)) ∨ after = [] := by
  obtain ⟨ts, eof, hts, hkind, htext, h⟩ := Lexeme.exists_tokenized .start source.toList
  obtain ⟨spans, hspaced, hcarries⟩ := h.exists_spans []
  exact ⟨ts, eof, spans, hts, hkind, htext, hspaced, hcarries, fun _ _ _ => h.stray_or_last⟩

end PageScript
