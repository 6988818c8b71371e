import PageScript.Proofs.Lexing.Places
import PageScript.Proofs.Lexing.Vocabulary

/-!
Words are whole runs. The scanner never stops inside a run of letters, digits and underscores but
behind a number. So a name or a reserved word with no digit before it is all of such a run, as
readers see it that know nothing of strings, comments and numbers.
-/
namespace PageScript

/-- Whether a token is a name or a reserved word. The sign `!` is neither, although it is of the
kind of the word `not`. -/
def Token.IsWord (t : Token) : Prop := t.kind = .identifier ∨ (t.text, t.kind) ∈ keywords

instance (t : Token) : Decidable t.IsWord :=
  inferInstanceAs (Decidable (t.kind = .identifier ∨ (t.text, t.kind) ∈ keywords))

/-- Whether a digit stands right before a token. -/
def Token.FollowsDigit (source : List Char) (t : Token) : Prop :=
  ∃ place, t.StandsAt source (place + 1) ∧ ∃ c ∈ source[place]?, isDigit c

namespace Lexeme

/-- Whether a text is all of a run of word characters in a source, from this place on. -/
structure IsRunAt (source : List Char) (place : Nat) (text : List Char) : Prop where
  ne_nil : text ≠ []
  takeWhile_drop : (source.drop place).takeWhile isIdentChar = text
  getLast?_take : ∀ c ∈ (source.take place).getLast?, ¬ isIdentChar c

/-! ### Cuts between lexemes -/

/-- Whether no run of word characters goes on from one text into the other, unless the first one
ends in a digit. -/
def CutsNoWord (front behind : List Char) : Prop :=
  ∀ d ∈ front.getLast?, isIdentChar d → isDigit d ∨ ∀ e ∈ behind.head?, ¬ isIdentChar e

theorem CutsNoWord.append {raw rest : List Char} (h : CutsNoWord raw rest) (hne : raw ≠ [])
    (before : List Char) : CutsNoWord (before ++ raw) rest := by
  intro d hd
  rw [List.getLast?_append_of_ne_nil _ hne] at hd
  exact h d hd

theorem isIdentChar_of_isIdentStart {c : Char} (h : isIdentStart c) : isIdentChar c := by
  rw [isIdentChar, h, Bool.true_or]

theorem not_isIdentChar_of_isSpace {c : Char} (h : isSpace c) : ¬ isIdentChar c := by
  rw [isIdentChar, Bool.or_eq_true, isIdentStart_iff, isDigit_iff]
  rw [isSpace_iff] at h
  omega

theorem not_isIdentChar_of_isQuote {c : Char} (h : isQuote c) : ¬ isIdentChar c := by
  rw [isIdentChar, Bool.or_eq_true, isIdentStart_iff, isDigit_iff]
  rw [isQuote_iff] at h
  omega

/-- A word goes on with any word character. -/
theorem spells_snoc {c e : Char} {cs : List Char} (hc : isIdentStart c)
    (hcs : ∀ d ∈ cs, isIdentChar d) (he : isIdentChar e) :
    ∃ kind text, Spells kind text (c :: cs ++ [e]) :=
  ⟨_, _, .word hc (List.forall_mem_append.2 ⟨hcs, List.forall_mem_singleton.2 he⟩)⟩

/-- Behind a token of the grammar that ends in a word character, unless that is a digit, the token
would go on with a further one. -/
theorem Spells.exists_longer {kind : TokenKind} {text raw : List Char} (h : Spells kind text raw)
    {d e : Char} (hd : d ∈ raw.getLast?) (hident : isIdentChar d) (hdigit : ¬ isDigit d)
    (he : isIdentChar e) : ∃ kind' text', Spells kind' text' (raw ++ [e]) := by
  cases h with
  | @sign c kind hmem =>
    obtain rfl : c = d := by simpa using hd
    obtain ⟨-, -, hdigit', hstart⟩ := classes_of_singleSigns _ hmem
    rw [isIdentChar, hdigit', hstart] at hident
    cases hident
  | @pair c c' kind hmem =>
    have hseconds : ∀ p ∈ doubleSigns, isIdentChar p.1.2 = false := by decide
    obtain rfl : c' = d := by simpa using hd
    exact absurd hident (by simp [hseconds _ hmem])
  | whole hne hall => exact absurd (hall d (List.mem_of_getLast? hd)) hdigit
  | @decimal whole fraction hwne hw hfne hf =>
    have hmem : d ∈ fraction := by
      rw [← List.singleton_append, ← List.append_assoc,
        List.getLast?_append_of_ne_nil _ hfne] at hd
      exact List.mem_of_getLast? hd
    exact absurd (hf d hmem) hdigit
  | word hc hcs => exact spells_snoc hc hcs he
  | @string quote inside hq hi =>
    rw [← List.cons_append, List.getLast?_concat] at hd
    obtain rfl : quote = d := Option.some.inj hd
    exact absurd hident (not_isIdentChar_of_isQuote hq)

/-- Where a token ends, no word is cut. -/
theorem Fits.cutsNoWord {kind : TokenKind} {text : String} {raw rest : List Char}
    (h : Fits kind text raw rest) : CutsNoWord raw rest := by
  intro d hd hident
  by_contra hcut
  obtain ⟨hdigit, e, hhead, he⟩ : ¬ isDigit d ∧ ∃ e ∈ rest.head?, isIdentChar e := by
    simpa [not_or] using hcut
  obtain ⟨behind, rfl⟩ := List.head?_eq_some_iff.1 hhead
  cases h with
  | token hspells hlongest hcomment =>
    obtain ⟨kind', text', hlonger⟩ := hspells.exists_longer hd hident hdigit he
    have hnone : [e] = [] := hlongest kind' text' [e] ⟨behind, rfl⟩ hlonger
    cases hnone
  | @stray c rest hspace hnone =>
    obtain rfl : c = d := by simpa using hd
    rw [isIdentChar, Bool.or_eq_true] at hident
    exact hnone _ _ [] (.word (hident.resolve_right hdigit) (by simp))

/-- Behind blanks and comments, no word is cut. -/
theorem cutsNoWord_of_scan {c : Char} {cs : List Char} {n : Nat} (h : scan c cs = (none, n)) :
    CutsNoWord (c :: cs.take n) (cs.drop n) := by
  intro d hd hident
  rcases trivia_of_scan h with ⟨hspace, rfl⟩ | ⟨rfl, body, rest, rfl, rfl, hbody, hstop⟩
  · obtain rfl : c = d := by simpa using hd
    exact absurd hident (not_isIdentChar_of_isSpace hspace)
  · refine .inr fun e he => ?_
    rw [List.drop_succ_cons, List.drop_left] at he
    rw [hstop e he]
    decide

/-- Each token of the rest of a source fits there, and no word is cut where it begins. -/
theorem exists_fits (before cs : List Char) (hcut : CutsNoWord before cs) {t : Token}
    (ht : t ∈ tokens (Position.start.afterAll before) (all cs)) (hend : t.kind ≠ .endOfInput) :
    ∃ front raw rest, before ++ cs = front ++ (raw ++ rest) ∧ Fits t.kind t.text raw rest ∧
      CutsNoWord front (raw ++ rest) ∧ t.StandsAt (before ++ cs) front.length := by
  fun_induction all cs generalizing before with
  | case1 =>
    obtain rfl := List.mem_singleton.1 ht
    exact absurd rfl hend
  | case2 c cs token? n hscan ih =>
    have hsource : before ++ c :: cs.take n ++ cs.drop n = before ++ c :: cs := by simp
    -- The tokens behind this lexeme are those of the same source with the lexeme put before them.
    have hbehind (hcut' : CutsNoWord (c :: cs.take n) (cs.drop n))
        (ht' : t ∈ tokens ((Position.start.afterAll before).afterAll (c :: cs.take n))
          (all (cs.drop n))) :
        ∃ front raw rest, before ++ c :: cs = front ++ (raw ++ rest) ∧
          Fits t.kind t.text raw rest ∧ CutsNoWord front (raw ++ rest) ∧
          t.StandsAt (before ++ c :: cs) front.length := by
      rw [← hsource]
      refine ih _ (hcut'.append (by simp) before) ?_
      rwa [Position.afterAll_append]
    cases token? with
    | none => exact hbehind (cutsNoWord_of_scan hscan) ht
    | some token =>
      obtain ⟨kind, text⟩ := token
      have hfits := fits_of_scan hscan
      rcases List.mem_cons.1 ht with rfl | ht
      · have hraw : c :: cs.take n ++ cs.drop n = c :: cs := by simp
        refine ⟨before, c :: cs.take n, cs.drop n, by rw [hraw], hfits, by rwa [hraw], ?_⟩
        rw [← hraw]
        exact hfits.standsAt before
      · exact hbehind hfits.cutsNoWord ht

end Lexeme

namespace Token
variable {t : Token}

/-- The text of a word is what the grammar has for words. -/
theorem IsWord.exists_chars (h : t.IsWord) {raw : List Char}
    (hspells : Lexeme.Spells t.kind t.text.toList raw) :
    ∃ c cs, t.text.toList = c :: cs ∧ isIdentStart c ∧ ∀ d ∈ cs, isIdentChar d := by
  rcases h with hname | hkeyword
  · have hword := hspells.word_of
    rw [hname] at hword
    cases hword with
    | fixed hmem => exact absurd rfl (Lexeme.kind_of_mem_fixedContents hmem).2.2
    | name htext hc hcs hfree => exact ⟨_, _, htext, hc, hcs⟩
  · have hall : ∀ p ∈ keywords, p.1.toList.head?.any isIdentStart ∧
        p.1.toList.tail.all isIdentChar := by decide
    obtain ⟨hstart, hrest⟩ := hall _ hkeyword
    cases hcs : t.text.toList with
    | nil => simp [hcs] at hstart
    | cons c cs =>
      rw [hcs] at hstart hrest
      exact ⟨c, cs, rfl, hstart, List.all_eq_true.1 hrest⟩

theorem IsWord.kind_ne (h : t.IsWord) :
    t.kind ≠ .error ∧ t.kind ≠ .string ∧ t.kind ≠ .endOfInput := by
  have hall : ∀ p ∈ keywords, p.2 ≠ .error ∧ p.2 ≠ .string ∧ p.2 ≠ .endOfInput := by decide
  rcases h with hname | hkeyword
  · rw [hname]
    decide
  · exact hall _ hkeyword

/-- **Words are whole runs.** A name or a reserved word of a source, if no digit stands right before
it, is all of a run of letters, digits and underscores at its place. -/
theorem exists_run {source : String} (ht : t ∈ ofSource source) (hword : t.IsWord)
    (hdigit : ¬ t.FollowsDigit source.toList) :
    ∃ place, t.StandsAt source.toList place ∧ Lexeme.IsRunAt source.toList place t.text.toList := by
  obtain ⟨herror, hstring, hend⟩ := hword.kind_ne
  have hstart : Lexeme.CutsNoWord [] source.toList := by
    intro d hd
    cases hd
  obtain ⟨front, raw, rest, hsource, hfits, hcut, hstands⟩ :=
    Lexeme.exists_fits [] source.toList hstart ht hend
  rw [List.nil_append] at hsource hstands
  obtain rfl : t.text.toList = raw := hfits.text_eq hstring
  obtain ⟨c, cs, hcs, hc, hall⟩ := hword.exists_chars (hfits.spells herror)
  have hstop (e : Char) (he : rest.head? = some e) : isIdentChar e = false := by
    by_contra hident
    rw [Bool.not_eq_false] at hident
    obtain ⟨behind, rfl⟩ := List.head?_eq_some_iff.1 he
    obtain ⟨kind, text, hlonger⟩ := Lexeme.spells_snoc hc hall hident
    rw [← hcs] at hlonger
    exact hfits.longest ⟨behind, rfl⟩ (List.cons_ne_nil e []) hlonger
  refine ⟨front.length, hstands, by simp [hcs], ?_, ?_⟩
  · rw [hsource, List.drop_left]
    refine Lexeme.takeWhile_append_of_stop ?_ hstop
    rw [hcs]
    exact List.forall_mem_cons.2 ⟨Lexeme.isIdentChar_of_isIdentStart hc, hall⟩
  · rw [hsource, List.take_left]
    intro d hd hident
    rcases hcut d hd hident with hdigit' | hnone
    · -- A digit before the token stands at the place before its own.
      refine hdigit ?_
      obtain ⟨others, rfl⟩ := List.getLast?_eq_some_iff.1 hd
      refine ⟨others.length, by simpa using hstands, d, ?_, hdigit'⟩
      simp [hsource]
    · exact hnone c (by simp [hcs]) (Lexeme.isIdentChar_of_isIdentStart hc)

end Token
end PageScript
