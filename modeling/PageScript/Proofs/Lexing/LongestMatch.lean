import PageScript.Proofs.Lexing.Spelling

/-!
Longest match: what is scanned at a place is the longest token that the grammar has there, and an
error only where it has none.
-/
namespace PageScript.Lexeme

/-! ### Runs of one class -/

theorem length_le_takeWhile {f : Char → Bool} {front cs : List Char} (hp : front <+: cs)
    (h : ∀ c ∈ front, f c) : front.length ≤ (cs.takeWhile f).length := by
  obtain ⟨rest, rfl⟩ := hp
  rw [List.takeWhile_append_of_pos h, List.length_append]
  omega

theorem takeWhile_append_of_stop {f : Char → Bool} {front rest : List Char}
    (h : ∀ c ∈ front, f c) (hstop : ∀ c, rest.head? = some c → f c = false) :
    (front ++ rest).takeWhile f = front := by
  rw [List.takeWhile_append_of_pos h]
  cases rest with
  | nil => simp
  | cons c cs => simp [hstop c rfl]

theorem all_of_takeWhile {f : Char → Bool} {cs : List Char} : ∀ c ∈ cs.takeWhile f, f c :=
  List.all_eq_true.1 List.all_takeWhile

theorem take_length_takeWhile (f : Char → Bool) (cs : List Char) :
    cs.take (cs.takeWhile f).length = cs.takeWhile f :=
  (List.prefix_iff_eq_take.1 (List.takeWhile_prefix f)).symm

/-! ### Numbers -/

theorem isDigit_point : isDigit '.' = false := by decide

theorem takeWhile_point {whole : List Char} (hw : ∀ c ∈ whole, isDigit c) (rest : List Char) :
    (whole ++ '.' :: rest).takeWhile isDigit = whole :=
  takeWhile_append_of_stop hw (by simp [isDigit_point])

/-- The length of a number with a fraction. -/
theorem numberLength_point {whole rest : List Char} (hw : ∀ c ∈ whole, isDigit c)
    (hr : rest.takeWhile isDigit ≠ []) :
    numberLength (whole ++ '.' :: rest) = whole.length + 1 + (rest.takeWhile isDigit).length := by
  have hpos : (rest.takeWhile isDigit).length ≠ 0 := by simpa using hr
  simp only [numberLength, takeWhile_point hw, List.drop_left]

/-- A number stops behind its digits, unless a point and more digits follow. -/
theorem numberLength_cases (cs : List Char) :
    numberLength cs = (cs.takeWhile isDigit).length ∨
      ∃ whole rest, (∀ c ∈ whole, isDigit c) ∧ rest.takeWhile isDigit ≠ [] ∧
        cs = whole ++ '.' :: rest := by
  simp only [numberLength]
  split
  · next rest hrest =>
    split
    · exact .inl rfl
    · next n hn =>
      refine .inr ⟨cs.takeWhile isDigit, rest, all_of_takeWhile,
        fun h => hn (by rw [h, List.length_nil]), ?_⟩
      calc cs = cs.take (cs.takeWhile isDigit).length ++ cs.drop (cs.takeWhile isDigit).length :=
            (List.take_append_drop _ _).symm
        _ = cs.takeWhile isDigit ++ '.' :: rest := by rw [take_length_takeWhile, hrest]
  · exact .inl rfl

theorem le_numberLength (cs : List Char) : (cs.takeWhile isDigit).length ≤ numberLength cs := by
  rcases numberLength_cases cs with h | ⟨whole, rest, hw, hrest, rfl⟩
  · exact Nat.le_of_eq h.symm
  · rw [numberLength_point hw hrest, takeWhile_point hw]
    omega

/-- What is scanned as a number is one. -/
theorem spells_number {c : Char} (hc : isDigit c) (cs : List Char) :
    Spells .number (c :: cs.take (numberLength cs)) (c :: cs.take (numberLength cs)) := by
  have hall {ds : List Char} (h : ∀ d ∈ ds, isDigit d) : ∀ d ∈ c :: ds, isDigit d := by
    simpa [hc] using h
  rcases numberLength_cases cs with h | ⟨whole, rest, hw, hrest, rfl⟩
  · rw [h, take_length_takeWhile]
    exact .whole (by simp) (hall all_of_takeWhile)
  · rw [numberLength_point hw hrest, Nat.add_assoc, List.take_length_add_append, Nat.add_comm 1,
      List.take_succ_cons, take_length_takeWhile, ← List.cons_append]
    exact .decimal (by simp) (hall hw) hrest all_of_takeWhile

/-! ### The longest token -/

theorem scan_pair {c d : Char} {kind : TokenKind} (h : ((c, d), kind) ∈ doubleSigns)
    (ds : List Char) : scan c (d :: ds) = (some (kind, String.ofList [c, d]), 1) := by
  have hall : ∀ p ∈ doubleSigns,
      isSpace p.1.1 = false ∧ p.1.1 ≠ '/' ∧ doubleSigns.lookup p.1 = some p.2 := by decide
  obtain ⟨hspace, hslash, hlookup⟩ := hall _ h
  simp only at hspace hslash hlookup
  simp [scan, hspace, hslash, doubleSign?, hlookup]

/-- No token at a place is longer than what is scanned there. -/
theorem length_le_scan {kind : TokenKind} {text : List Char} {c : Char} {front cs : List Char}
    (h : Spells kind text (c :: front)) (hp : front <+: cs) : front.length ≤ (scan c cs).2 := by
  generalize hraw : c :: front = raw at h
  obtain ⟨behind, rfl⟩ := hp
  cases h with
  | sign hmem =>
    obtain ⟨rfl, rfl⟩ := by simpa using hraw
    simp
  | pair hmem =>
    obtain ⟨rfl, rfl⟩ := by simpa using hraw
    rw [List.singleton_append, scan_pair hmem]
    exact Nat.le_refl 1
  | whole hne hd =>
    subst hraw
    rw [scan_digit (hd c (by simp))]
    exact Nat.le_trans (length_le_takeWhile (List.prefix_append _ _) fun d hmem => hd d (by simp [hmem]))
      (le_numberLength _)
  | @decimal whole fraction hwne hw hfne hf =>
    cases whole with
    | nil => exact absurd rfl hwne
    | cons first whole =>
      obtain ⟨rfl, rfl⟩ := by simpa using hraw
      -- The point is taken in because a digit follows it, and then all the digits are.
      have hrun := length_le_takeWhile (List.prefix_append fraction behind) hf
      have hne : (fraction ++ behind).takeWhile isDigit ≠ [] := by
        rw [List.takeWhile_append_of_pos hf]
        simp [hfne]
      rw [scan_digit (hw _ (by simp)), List.append_assoc, List.cons_append,
        numberLength_point (fun d hmem => hw d (by simp [hmem])) hne]
      simp only [List.length_append, List.length_cons]
      omega
  | word hc hcs =>
    obtain ⟨rfl, rfl⟩ := by simpa using hraw
    rw [scan_letter hc]
    exact length_le_takeWhile (List.prefix_append _ _) hcs
  | @string quote inside hq hi =>
    obtain ⟨rfl, rfl⟩ := by simpa using hraw
    have hback : c ≠ '\\' := by rintro rfl; revert hq; decide
    rw [scan_quote hq, List.append_assoc, List.singleton_append, stringBody?_append hback hi]
    simp

/-- No token goes on behind what is scanned. -/
theorem eq_nil_of_spells {c : Char} {cs : List Char} {kind : TokenKind} {text more : List Char}
    (hp : more <+: cs.drop (scan c cs).2) (h : Spells kind text (c :: cs.take (scan c cs).2 ++ more)) :
    more = [] := by
  have hfront : cs.take (scan c cs).2 ++ more <+: cs := by
    conv => rhs; rw [← List.take_append_drop (scan c cs).2 cs]
    exact (List.prefix_append_right_inj _).2 hp
  have hle : (cs.take (scan c cs).2 ++ more).length ≤ (scan c cs).2 := length_le_scan h hfront
  have hmore := hp.length_le
  simp only [List.length_append, List.length_take, List.length_drop] at hle hmore
  exact List.eq_nil_of_length_eq_zero (by omega)

/-- `Fits kind text raw rest`: the characters `raw`, with `rest` behind them, are rightly taken for
a token of this kind and with this text. -/
inductive Fits : TokenKind → String → List Char → List Char → Prop where
  /-- The longest token of the grammar at this place, where no comment begins. -/
  | token {kind : TokenKind} {text : String} {raw rest : List Char}
    (h : Spells kind text.toList raw)
    (hlongest : ∀ kind' text' more, more <+: rest → Spells kind' text' (raw ++ more) → more = [])
    (hcomment : ¬ ['/', '/'] <+: raw ++ rest) : Fits kind text raw rest
  /-- A character that begins no token and is no blank. -/
  | stray {c : Char} {rest : List Char} (hspace : isSpace c = false)
    (h : ∀ kind text cs, ¬ Spells kind text (c :: cs)) :
    Fits .error (String.singleton c) [c] rest
  /-- A string without its closing quote: all the rest of the source. -/
  | unterminated {quote : Char} {cs : List Char} (hq : isQuote quote)
    (h : ∀ kind text front, front <+: quote :: cs → ¬ Spells kind text front) :
    Fits .error (String.ofList (quote :: cs)) (quote :: cs) []

namespace Fits

variable {kind : TokenKind} {text : String} {raw rest : List Char}

theorem ne_nil (h : Fits kind text raw rest) : raw ≠ [] := by
  cases h with
  | token h => exact h.ne_nil
  | _ => simp

theorem spells (h : Fits kind text raw rest) (hk : kind ≠ .error) :
    Spells kind text.toList raw := by
  cases h with
  | token h => exact h
  | _ => exact absurd rfl hk

theorem ordinary (h : Fits kind text raw rest) : kind ≠ .newline ∧ kind ≠ .endOfInput := by
  cases h with
  | token h => exact h.kind_ne.2
  | _ => decide

theorem text_eq (h : Fits kind text raw rest) (hk : kind ≠ .string) : text.toList = raw := by
  cases h with
  | token h => exact h.text_eq hk
  | stray hspace h => exact String.toList_singleton _
  | unterminated hq h => exact String.toList_ofList

/-- An error is a character that begins no token, or all the rest behind an opening quote. -/
theorem of_error (h : Fits .error text raw rest) :
    (∃ c, raw = [c] ∧ isSpace c = false ∧ ∀ kind text cs, ¬ Spells kind text (c :: cs)) ∨
      rest = [] ∧ ∃ quote cs, isQuote quote ∧ raw = quote :: cs ∧
        ∀ kind text front, front <+: quote :: cs → ¬ Spells kind text front := by
  cases h with
  | token h => exact absurd rfl h.kind_ne.1
  | stray hspace h => exact .inl ⟨_, rfl, hspace, h⟩
  | unterminated hq h => exact .inr ⟨rfl, _, _, hq, rfl, h⟩

/-- Nothing longer at the place of a token is one. -/
theorem longest (h : Fits kind text raw rest) {kind' : TokenKind} {text' more : List Char}
    (hp : more <+: rest) (hne : more ≠ []) : ¬ Spells kind' text' (raw ++ more) := by
  cases h with
  | token h hlongest => exact fun h' => hne (hlongest _ _ _ hp h')
  | stray hspace h => exact h _ _ _
  | unterminated hq h => exact absurd (List.prefix_nil.1 hp) hne

/-- No token is taken from a comment. -/
theorem no_comment (h : Fits kind text raw rest) : ¬ ['/', '/'] <+: raw ++ rest := by
  cases h with
  | token h hlongest hcomment => exact hcomment
  | @stray c rest hspace h =>
    intro hp
    obtain ⟨rfl, -⟩ := List.cons_prefix_cons.1 hp
    exact h .slash ['/'] [] (.sign (by decide))
  | @unterminated quote cs hq h =>
    intro hp
    obtain ⟨rfl, -⟩ := List.cons_prefix_cons.1 hp
    exact ne_slash (.inl hq) rfl

end Fits

/-- A token begins with a sign, a digit or a letter, or it is a string. -/
theorem first_of_spells {kind : TokenKind} {text cs : List Char} {c : Char}
    (h : Spells kind text (c :: cs)) :
    (∃ kind', (c, kind') ∈ singleSigns) ∨ isDigit c ∨ isIdentStart c ∨
      isQuote c ∧ ∃ inside, isQuotable c inside ∧ cs = inside ++ [c] := by
  generalize hraw : c :: cs = raw at h
  cases h with
  | sign hmem =>
    obtain ⟨rfl, -⟩ := by simpa using hraw
    exact .inl ⟨_, hmem⟩
  | pair hmem =>
    obtain ⟨rfl, -⟩ := by simpa using hraw
    exact .inl (first_of_doubleSigns _ hmem).2
  | whole hne hd =>
    subst hraw
    exact .inr (.inl (hd c (by simp)))
  | @decimal whole fraction hwne hw hfne hf =>
    cases whole with
    | nil => exact absurd rfl hwne
    | cons first whole =>
      obtain ⟨rfl, -⟩ := by simpa using hraw
      exact .inr (.inl (hw _ (by simp)))
  | word hc hcs =>
    obtain ⟨rfl, -⟩ := by simpa using hraw
    exact .inr (.inr (.inl hc))
  | @string quote inside hq hi =>
    obtain ⟨rfl, rfl⟩ := by simpa using hraw
    exact .inr (.inr (.inr ⟨hq, inside, hi, rfl⟩))

/-- No token begins with a blank. -/
theorem Spells.exists_first {kind : TokenKind} {text raw : List Char}
    (h : Spells kind text raw) : ∃ c cs, raw = c :: cs ∧ isSpace c = false := by
  obtain ⟨c, cs, rfl⟩ := List.exists_cons_of_ne_nil h.ne_nil
  refine ⟨c, cs, rfl, ?_⟩
  rcases first_of_spells h with ⟨kind', hsign⟩ | hdigit | hletter | ⟨hquote, -⟩
  · exact (classes_of_singleSigns _ hsign).1
  · exact isSpace_eq_false (.inr (.inl hdigit))
  · exact isSpace_eq_false (.inr (.inr hletter))
  · exact isSpace_eq_false (.inl hquote)

/-- A character of no class begins no token. -/
theorem not_spells_of_stray {c : Char} (hsign : singleSigns.lookup c = none)
    (hq : isQuote c = false) (hd : isDigit c = false) (hl : isIdentStart c = false)
    {kind : TokenKind} {text cs : List Char} : ¬ Spells kind text (c :: cs) := by
  intro h
  rcases first_of_spells h with ⟨kind', hmem⟩ | h | h | ⟨h, -⟩
  · have := List.lookup_eq_none_iff.1 hsign _ hmem
    simp at this
  · simp [hd] at h
  · simp [hl] at h
  · simp [hq] at h

/-- Only strings begin with a quote. -/
theorem inside_of_spells {quote : Char} (hq : isQuote quote) {kind : TokenKind}
    {text front : List Char} (h : Spells kind text (quote :: front)) :
    ∃ inside, isQuotable quote inside ∧ front = inside ++ [quote] := by
  rcases first_of_spells h with ⟨kind', hmem⟩ | h | h | ⟨-, h⟩
  · obtain ⟨-, hquote, -⟩ := classes_of_singleSigns _ hmem
    simp [hq] at hquote
  · rw [isDigit_iff] at h
    rw [isQuote_iff] at hq
    omega
  · rw [isIdentStart_iff] at h
    rw [isQuote_iff] at hq
    omega
  · exact h

/-- A quote whose string is not closed begins no token. -/
theorem not_spells_of_unterminated {quote : Char} {cs : List Char} (hq : isQuote quote)
    (hbody : stringBody? quote cs = none) {kind : TokenKind} {text front : List Char}
    (hp : front <+: quote :: cs) : ¬ Spells kind text front := by
  intro h
  cases front with
  | nil => exact h.ne_nil rfl
  | cons c front =>
    obtain ⟨rfl, behind, rfl⟩ := List.cons_prefix_cons.1 hp
    obtain ⟨inside, hi, rfl⟩ := inside_of_spells hq h
    have hback : c ≠ '\\' := by rintro rfl; revert hq; decide
    rw [List.append_assoc, List.singleton_append, stringBody?_append hback hi] at hbody
    cases hbody

theorem fits_token {c : Char} {cs : List Char} {kind : TokenKind} {text : String} {n : Nat}
    (hcomment : ¬ (c = '/' ∧ cs.head? = some '/')) (hscan : scan c cs = (some (kind, text), n))
    (h : Spells kind text.toList (c :: cs.take n)) :
    Fits kind text (c :: cs.take n) (cs.drop n) := by
  obtain rfl : (scan c cs).2 = n := by rw [hscan]
  refine .token h (fun kind' text' more hp h' => eq_nil_of_spells hp h') fun hslash => hcomment ?_
  rw [List.cons_append, List.take_append_drop, List.cons_prefix_cons] at hslash
  obtain ⟨hc, rest, rfl⟩ := hslash
  exact ⟨hc.symm, rfl⟩

/-- **Longest match.** What is scanned as a token is rightly taken for it. -/
theorem fits_of_scan {c : Char} {cs : List Char} {kind : TokenKind} {text : String} {n : Nat}
    (h : scan c cs = (some (kind, text), n)) : Fits kind text (c :: cs.take n) (cs.drop n) := by
  have hscanned := scanned c cs
  rw [h] at hscanned
  cases hscanned with
  | pair hd =>
    obtain ⟨d, ds, rfl, hmem⟩ := mem_of_doubleSign? hd
    have hslash := (first_of_doubleSigns _ hmem).1
    exact fits_token (fun hcomment => hslash hcomment.1) h (by simpa using .pair hmem)
  | sign hcomment hs => exact fits_token hcomment h (by simpa using .sign (mem_of_lookup hs))
  | string hq hbody =>
    obtain ⟨inside, rest, hi, rfl, rfl, rfl⟩ := exists_of_stringBody? hbody
    refine fits_token (fun hcomment => ne_slash (.inl hq) hcomment.1) h ?_
    rw [List.take_length_add_append, List.take_succ_cons, List.take_zero, String.toList_ofList]
    exact .string hq hi
  | unterminated hq hbody =>
    rw [List.take_length, List.drop_length]
    exact .unterminated hq fun _ _ _ => not_spells_of_unterminated hq hbody
  | number hd =>
    exact fits_token (fun hcomment => ne_slash (.inr (.inl hd)) hcomment.1) h
      (by simpa using spells_number hd cs)
  | word hl =>
    refine fits_token (fun hcomment => ne_slash (.inr (.inr hl)) hcomment.1) h ?_
    rw [String.toList_ofList, take_length_takeWhile]
    exact .word hl all_of_takeWhile
  | stray hspace hsign hq hd hl =>
    rw [List.take_zero, List.drop_zero]
    exact .stray hspace fun _ _ _ => not_spells_of_stray hsign hq hd hl

end PageScript.Lexeme
