import PageScript.Proofs.Lexing.Spans

/-!
Joining sources at a line end. Nothing but a string that is not closed goes on past the end of a
line that ends the source, so a source, a line end and another source have the tokens of the two,
and those of the second stand as many lines lower as come before it.
-/
namespace PageScript

namespace Lexeme

/-- An error that stands for a string without its closing quote. -/
def Unterminated (kind : TokenKind) (text : String) : Prop :=
  kind = .error ∧ ∃ c ∈ text.toList.head?, isQuote c

instance (kind : TokenKind) (text : String) : Decidable (Unterminated kind text) :=
  inferInstanceAs (Decidable (kind = .error ∧ ∃ c ∈ text.toList.head?, isQuote c))

/-! ### One lexeme -/

theorem takeWhile_append_cons {α : Type} {p : α → Bool} {d : α} (h : p d = false)
    (cs more : List α) : (cs ++ d :: more).takeWhile p = cs.takeWhile p := by
  induction cs with
  | nil => simp [h]
  | cons c cs ih =>
    rw [List.cons_append, List.takeWhile_cons, List.takeWhile_cons, ih]

theorem doubleSign?_before_newline (c : Char) (cs more : List Char) :
    doubleSign? c (cs ++ '\n' :: more) = doubleSign? c cs := by
  cases cs with
  | cons d ds => rfl
  | nil =>
    have hall : ∀ p ∈ doubleSigns, p.1.2 ≠ '\n' := by decide
    cases hd : doubleSign? c ([] ++ '\n' :: more) with
    | none => rfl
    | some kind =>
      obtain ⟨d, ds, hcs, hmem⟩ := mem_of_doubleSign? hd
      obtain ⟨rfl, -⟩ := List.cons.inj hcs
      exact absurd rfl (hall _ hmem)

theorem numberLength_before_newline (cs more : List Char) :
    numberLength (cs ++ '\n' :: more) = numberLength cs := by
  have hstop : isDigit '\n' = false := by decide
  have hrun := (List.takeWhile_prefix (p := isDigit) (l := cs)).length_le
  simp only [numberLength, takeWhile_append_cons hstop, List.drop_append_of_le_length hrun]
  cases cs.drop (cs.takeWhile isDigit).length with
  | nil => rfl
  | cons d rest =>
    by_cases hd : d = '.'
    · subst hd
      simp only [List.cons_append, takeWhile_append_cons hstop]
    · simp [hd]

theorem numberLength_le_length (cs : List Char) : numberLength cs ≤ cs.length := by
  rcases numberLength_cases cs with h | ⟨whole, rest, hwhole, hrest, rfl⟩
  · rw [h]
    exact (List.takeWhile_prefix isDigit).length_le
  · have := (List.takeWhile_prefix (p := isDigit) (l := rest)).length_le
    rw [numberLength_point hwhole hrest]
    simp only [List.length_append, List.length_cons]
    omega

/-- No lexeme is longer than the text. -/
theorem scan_le_length (c : Char) (cs : List Char) : (scan c cs).2 ≤ cs.length := by
  have hscanned := scanned c cs
  generalize scan c cs = result at hscanned
  cases hscanned with
  | blank | sign | stray => exact Nat.zero_le _
  | comment | word => exact (List.takeWhile_prefix _).length_le
  | unterminated => exact Nat.le_refl _
  | number => exact numberLength_le_length cs
  | pair h =>
    obtain ⟨d, ds, rfl, -⟩ := mem_of_doubleSign? h
    simp
  | string hq h =>
    obtain ⟨inside, rest, -, rfl, -, rfl⟩ := exists_of_stringBody? h
    simp

/-- What is scanned before a line end does not depend on what follows, unless it is a string that
is not closed. -/
theorem scan_before_newline {c : Char} {cs : List Char}
    (h : ∀ kind text, (scan c cs).1 = some (kind, text) → ¬ Unterminated kind text)
    (more : List Char) : scan c (cs ++ '\n' :: more) = scan c cs := by
  have hhead : (cs ++ '\n' :: more).head? = some '/' ↔ cs.head? = some '/' := by
    cases cs <;> simp
  -- The cases are those of `scan`, in the order in which it tells them apart.
  by_cases hspace : isSpace c
  · simp only [scan, hspace, if_true]
  by_cases hcomment : c = '/' ∧ cs.head? = some '/'
  · rw [scan, scan, if_neg hspace, if_neg hspace, if_pos hcomment,
      if_pos (And.intro hcomment.1 (hhead.2 hcomment.2)), takeWhile_append_cons (by decide)]
  cases hdouble : doubleSign? c cs with
  | some kind =>
    obtain ⟨d, ds, rfl, hmem⟩ := mem_of_doubleSign? hdouble
    rw [List.cons_append, scan_pair hmem, scan_pair hmem]
  | none =>
    cases hsign : singleSigns.lookup c with
    | some kind =>
      simp only [scan, hspace, hhead, hcomment, doubleSign?_before_newline, hdouble, hsign,
        if_false]
    | none =>
      by_cases hq : isQuote c
      · cases hbody : stringBody? c cs with
        | some result =>
          obtain ⟨text, n⟩ := result
          obtain ⟨inside, rest, hi, rfl, rfl, rfl⟩ := exists_of_stringBody? hbody
          have hback : c ≠ '\\' := by rintro rfl; revert hq; decide
          rw [scan_quote hq, scan_quote hq, List.append_assoc, List.cons_append,
            stringBody?_append hback hi, stringBody?_append hback hi]
        | none =>
          have hscan : (scan c cs).1 = some (.error, String.ofList (c :: cs)) := by
            rw [scan_quote hq, hbody]
          exact absurd ⟨rfl, c, by simp, hq⟩ (h _ _ hscan)
      · by_cases hd : isDigit c
        · rw [scan_digit hd, scan_digit hd, numberLength_before_newline,
            List.take_append_of_le_length (numberLength_le_length cs)]
        · by_cases hl : isIdentStart c
          · have hlength := (List.takeWhile_prefix (p := isIdentChar) (l := cs)).length_le
            rw [scan_letter hl, scan_letter hl, takeWhile_append_cons (by decide),
              List.take_append_of_le_length hlength]
          · simp only [scan, hspace, hhead, hcomment, doubleSign?_before_newline, hdouble, hsign,
              hq, hd, hl, Bool.false_eq_true, if_false]

/-! ### Whole texts -/

/-- The lexeme of a line end. -/
def newline : Lexeme := ⟨['\n'], none⟩

theorem all_newline (cs : List Char) : all ('\n' :: cs) = newline :: all cs := by
  have hscan : scan '\n' cs = (none, 0) := rfl
  rw [all, hscan]
  rfl

/-- No token among lexemes stands for a string that is not closed. -/
def Closed (lexemes : List Lexeme) : Prop :=
  ∀ lexeme ∈ lexemes, ∀ kind text, lexeme.token? = some (kind, text) → ¬ Unterminated kind text

/-- **The lexemes of two sources with a line end between them** are those of the first, the line
end, and those of the second. -/
theorem all_join (cs : List Char) (h : Closed (all cs)) (more : List Char) :
    all (cs ++ '\n' :: more) = all cs ++ newline :: all more := by
  fun_induction all cs with
  | case1 => exact all_newline more
  | case2 c cs token? n hscan ih =>
    have hfirst : ∀ kind text, (scan c cs).1 = some (kind, text) → ¬ Unterminated kind text := by
      rw [hscan]
      exact h _ List.mem_cons_self
    -- The first lexeme is the same and ends in front of the line end, which still ends the rest.
    have hlength : n ≤ cs.length := by
      have := scan_le_length c cs
      rwa [hscan] at this
    rw [List.cons_append, all, scan_before_newline hfirst, hscan]
    simp only [List.take_append_of_le_length hlength, List.drop_append_of_le_length hlength]
    rw [ih fun lexeme hmem => h lexeme (List.mem_cons_of_mem _ hmem)]
    rfl

end Lexeme

/-! ### Tokens -/

/-- The place so many lines lower. -/
def Position.below (p : Position) (lines : Nat) : Position := ⟨p.line + lines, p.column⟩

/-- The token so many lines lower. -/
def Token.below (lines : Nat) (t : Token) : Token := { t with line := t.line + lines }

theorem Position.after_below (p : Position) (lines : Nat) (c : Char) :
    (p.below lines).after c = (p.after c).below lines := by
  by_cases hc : c = '\n'
  · simp only [after, below, hc, if_true, Position.mk.injEq, and_true]
    omega
  · simp only [after, below, hc, if_false]

theorem Position.afterAll_below (p : Position) (lines : Nat) (cs : List Char) :
    (p.below lines).afterAll cs = (p.afterAll cs).below lines := by
  induction cs generalizing p with
  | nil => rfl
  | cons c cs ih => rw [afterAll_cons, after_below, ih, afterAll_cons]

theorem Position.line_afterAll (p : Position) (cs : List Char) :
    (p.afterAll cs).line = p.line + cs.count '\n' := by
  induction cs generalizing p with
  | nil => simp
  | cons c cs ih =>
    rw [afterAll_cons, ih]
    by_cases hc : c = '\n'
    · subst hc
      simp [after]
      omega
    · simp [after, hc]

namespace Lexeme

theorem tokens_below (p : Position) (lines : Nat) (lexemes : List Lexeme) :
    tokens (p.below lines) lexemes = (tokens p lexemes).map (Token.below lines) := by
  induction lexemes generalizing p with
  | nil => rfl
  | cons lexeme rest ih =>
    rw [tokens, tokens, Position.afterAll_below, ih]
    cases lexeme.token? with
    | none => rfl
    | some token => rfl

theorem exists_mem_tokens {lexemes : List Lexeme} {lexeme : Lexeme} (h : lexeme ∈ lexemes)
    {kind : TokenKind} {text : String} (htoken : lexeme.token? = some (kind, text))
    (p : Position) : ∃ t ∈ tokens p lexemes, t.kind = kind ∧ t.text = text := by
  induction lexemes generalizing p with
  | nil => cases h
  | cons first rest ih =>
    rcases List.mem_cons.1 h with rfl | h
    · exact ⟨⟨kind, text, p.line, p.column⟩, by simp [tokens, htoken], rfl, rfl⟩
    · obtain ⟨t, ht, hkind⟩ := ih h (p.afterAll first.raw)
      refine ⟨t, ?_, hkind⟩
      rw [tokens]
      cases first.token? with
      | none => exact ht
      | some token => exact List.mem_cons_of_mem _ ht

/-- The tokens of lexemes with more behind them: without their end of input, and then those of the
others from where they begin. -/
theorem tokens_append (p : Position) (lexemes more : List Lexeme) :
    tokens p (lexemes ++ more) =
      (tokens p lexemes).dropLast ++ tokens (p.afterAll (lexemes.flatMap raw)) more := by
  induction lexemes generalizing p with
  | nil => rfl
  | cons lexeme rest ih =>
    have hne : tokens (p.afterAll lexeme.raw) rest ≠ [] := by
      obtain ⟨t, ht, -⟩ := exists_endOfInput (p.afterAll lexeme.raw) rest
      exact List.ne_nil_of_mem ht
    rw [List.cons_append, tokens, tokens, ih, List.flatMap_cons, Position.afterAll_append]
    cases lexeme.token? with
    | none => rfl
    | some token => simp [List.dropLast_cons_of_ne_nil hne]

/-- Among lexemes whose tokens are no such errors, none is. -/
theorem closed_of_tokens {lexemes : List Lexeme} {p : Position}
    (h : ∀ t ∈ tokens p lexemes, ¬ Unterminated t.kind t.text) : Closed lexemes := by
  intro lexeme hmem kind text htoken
  obtain ⟨t, ht, rfl, rfl⟩ := exists_mem_tokens hmem htoken p
  exact h t ht

/-- **Joining at a line end.** The tokens of two sources with a line end between them are those of
the first without its end of input, and those of the second as many lines lower as come before
it. -/
theorem tokens_join {cs : List Char} (h : Closed (all cs)) (more : List Char) :
    tokens .start (all (cs ++ '\n' :: more)) =
      (tokens .start (all cs)).dropLast ++
        (tokens .start (all more)).map (Token.below (1 + cs.count '\n')) := by
  have hline : (Position.start.afterAll cs).after '\n' =
      Position.start.below (1 + cs.count '\n') := by
    rw [Position.after, if_pos rfl, Position.line_afterAll]
    simp only [Position.start, Position.below, Position.mk.injEq, and_true]
    omega
  calc tokens .start (all (cs ++ '\n' :: more))
    _ = tokens .start (all cs ++ newline :: all more) := by rw [all_join cs h]
    _ = (tokens .start (all cs)).dropLast ++
          tokens ((Position.start.afterAll cs).after '\n') (all more) := by
        rw [tokens_append, flatMap_raw_all]
        rfl
    _ = (tokens .start (all cs)).dropLast ++
          (tokens .start (all more)).map (Token.below (1 + cs.count '\n')) := by
        rw [hline, tokens_below]

end Lexeme

/-- The tokens of two sources with a line end between them. -/
theorem Token.ofSource_newline {a : String}
    (h : ∀ t ∈ ofSource a, ¬ Lexeme.Unterminated t.kind t.text) (b : String) :
    ofSource (a ++ "\n" ++ b) =
      (ofSource a).dropLast ++ (ofSource b).map (below (1 + a.toList.count '\n')) := by
  have htext : (a ++ "\n" ++ b).toList = a.toList ++ '\n' :: b.toList := by simp
  rw [ofSource, htext, Lexeme.tokens_join (Lexeme.closed_of_tokens h)]
  rfl

/-- **Joined sources.** Two sources with a line end between them, of which the first has no string
that is not closed, have the tokens of the first up to its end of input, and then those of the
second, in their columns and as many lines lower as come before it. -/
theorem Token.ofSource_join {a : String}
    (h : ∀ t ∈ ofSource a, ¬ Lexeme.Unterminated t.kind t.text) (b : String) :
    ∃ ts eof, ofSource a = ts ++ [eof] ∧ eof.kind = .endOfInput ∧
      ofSource (a ++ "\n" ++ b) = ts ++ (ofSource b).map (below (1 + a.toList.count '\n')) := by
  obtain ⟨ts, eof, hts, hkind, -⟩ := Lexeme.exists_tokenized .start a.toList
  refine ⟨ts, eof, hts, hkind, ?_⟩
  rw [ofSource_newline h, ofSource, hts, List.dropLast_concat]

/-- The first source ends in half of a sign, behind a number with a point, a comment with a quote in
it and a string over two lines; the second begins with the other half. -/
theorem Token.ofSource_join_half :
    (∀ t ∈ ofSource "1. // '\n\"two\nlines\" -", ¬ Lexeme.Unterminated t.kind t.text) ∧
      ∃ ts eof, ofSource "1. // '\n\"two\nlines\" -" = ts ++ [eof] ∧ eof.kind = .endOfInput ∧
        ofSource ("1. // '\n\"two\nlines\" -" ++ "\n" ++ "> 'open") =
          ts ++ [⟨.greater, ">", 4, 1⟩, ⟨.error, "'open", 4, 3⟩, ⟨.endOfInput, "", 4, 8⟩] := by
  have h : ∀ t ∈ ofSource "1. // '\n\"two\nlines\" -", ¬ Lexeme.Unterminated t.kind t.text := by
    decide +kernel
  have hsecond : (ofSource "> 'open").map (below 3) =
      [⟨.greater, ">", 4, 1⟩, ⟨.error, "'open", 4, 3⟩, ⟨.endOfInput, "", 4, 8⟩] := by
    decide +kernel
  refine ⟨h, ?_⟩
  rw [← hsecond]
  exact ofSource_join h "> 'open"

end PageScript
