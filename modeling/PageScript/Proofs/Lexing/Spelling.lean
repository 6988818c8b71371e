import PageScript.Token.Lexeme

/-!
The token grammar: which characters spell which tokens, said apart from the scanning. The lexemes of
the scanner are held against it: what is scanned spells its token, nothing longer at the same place
spells any token, and what is scanned as an error spells none.
-/
namespace PageScript.Lexeme

/-! ### Strings -/

/-- Whether a text may stand between two quotes: each such quote in it has a backslash of its own
before it, and it does not end with a backslash, which would take the closing quote in. -/
def isQuotable (quote : Char) : List Char → Bool
  | [] => true
  | [c] => c != quote && c != '\\'
  | c :: d :: ds =>
    if c = '\\' ∧ d = quote then isQuotable quote ds else c != quote && isQuotable quote (d :: ds)

/-- The text between two quotes with every backslash that stands before such a quote left out. -/
def unescape (quote : Char) : List Char → List Char
  | [] => []
  | [c] => [c]
  | c :: d :: ds =>
    if c = '\\' ∧ d = quote then quote :: unescape quote ds else c :: unescape quote (d :: ds)

theorem stringBody?_quote (quote : Char) (cs : List Char) :
    stringBody? quote (quote :: cs) = some ([], 1) := by
  cases cs <;> simp [stringBody?]

/-- A quotable text is read up to the quote behind it. -/
theorem stringBody?_append {quote : Char} (hquote : quote ≠ '\\') {inside : List Char}
    (h : isQuotable quote inside) (rest : List Char) :
    stringBody? quote (inside ++ quote :: rest) =
      some (unescape quote inside, inside.length + 1) := by
  fun_induction isQuotable quote inside with
  | case1 => exact stringBody?_quote quote rest
  | case2 c =>
    simp only [Bool.and_eq_true, bne_iff_ne] at h
    simp [stringBody?, stringBody?_quote, unescape, h.1, h.2]
  | case3 c d ds hesc ih =>
    obtain ⟨rfl, rfl⟩ := hesc
    simp [stringBody?, unescape, ih h, Ne.symm hquote]
  | case4 c d ds hesc ih =>
    simp only [Bool.and_eq_true, bne_iff_ne] at h
    simp only [List.cons_append] at ih ⊢
    simp [stringBody?, unescape, h.1, hesc, ih h.2]

/-- What is read as a string is a quotable text and the quote behind it. -/
theorem exists_of_stringBody? {quote : Char} {cs text : List Char} {n : Nat}
    (h : stringBody? quote cs = some (text, n)) :
    ∃ inside rest, isQuotable quote inside ∧ cs = inside ++ quote :: rest ∧
      text = unescape quote inside ∧ n = inside.length + 1 := by
  fun_induction stringBody? quote cs generalizing text n with
  | case1 => simp at h
  | case2 cs =>
    obtain ⟨rfl, rfl⟩ := by simpa using h
    exact ⟨[], cs, rfl, rfl, rfl, rfl⟩
  | case3 c hc d ds hesc ih =>
    obtain ⟨⟨text', n'⟩, hs, he⟩ := Option.map_eq_some_iff.1 h
    obtain ⟨inside, rest, hi, rfl, rfl, rfl⟩ := ih hs
    cases he
    obtain ⟨rfl, rfl⟩ := hesc
    exact ⟨'\\' :: d :: inside, rest, by simpa [isQuotable] using hi, rfl, by simp [unescape], rfl⟩
  | case4 c hc d ds hesc ih =>
    obtain ⟨⟨text', n'⟩, hs, he⟩ := Option.map_eq_some_iff.1 h
    obtain ⟨inside, rest, hi, hcs, rfl, rfl⟩ := ih hs
    cases he
    refine ⟨c :: inside, rest, ?_, by rw [hcs, List.cons_append], ?_, rfl⟩
    all_goals
      cases inside with
      | nil =>
        obtain ⟨rfl, -⟩ : d = quote ∧ ds = rest := by simpa using hcs
        simp_all [isQuotable, unescape]
      | cons d' inside' =>
        obtain ⟨rfl, -⟩ : d = d' ∧ ds = inside' ++ quote :: rest := by simpa using hcs
        simp [isQuotable, unescape, hesc, hc, hi]
  | case5 c hc => simp at h

/-! ### Tokens -/

/-- The token grammar. `Spells kind text raw`: the characters `raw` are a token of this kind and with
this text. -/
inductive Spells : TokenKind → List Char → List Char → Prop where
  | sign {c : Char} {kind : TokenKind} (h : (c, kind) ∈ singleSigns) : Spells kind [c] [c]
  | pair {c d : Char} {kind : TokenKind} (h : ((c, d), kind) ∈ doubleSigns) :
    Spells kind [c, d] [c, d]
  | whole {digits : List Char} (hne : digits ≠ []) (h : ∀ c ∈ digits, isDigit c) :
    Spells .number digits digits
  | decimal {whole fraction : List Char} (hwne : whole ≠ []) (hw : ∀ c ∈ whole, isDigit c)
    (hfne : fraction ≠ []) (hf : ∀ c ∈ fraction, isDigit c) :
    Spells .number (whole ++ '.' :: fraction) (whole ++ '.' :: fraction)
  | word {c : Char} {cs : List Char} (hc : isIdentStart c) (hcs : ∀ d ∈ cs, isIdentChar d) :
    Spells (.ofWord (String.ofList (c :: cs))) (c :: cs) (c :: cs)
  | string {quote : Char} {inside : List Char} (hq : isQuote quote)
    (hi : isQuotable quote inside) :
    Spells .string (unescape quote inside) (quote :: (inside ++ [quote]))

theorem mem_of_lookup {α β : Type} [BEq α] [LawfulBEq α] {table : List (α × β)} {a : α} {b : β}
    (h : table.lookup a = some b) : (a, b) ∈ table := by
  obtain ⟨before, after, rfl, -⟩ := List.lookup_eq_some_iff.1 h
  simp

/-- The kinds that no sign and no word has. -/
theorem kind_of_singleSigns : ∀ p ∈ singleSigns,
    p.2 ≠ .error ∧ p.2 ≠ .newline ∧ p.2 ≠ .endOfInput ∧ p.2 ≠ .string := by
  decide

theorem kind_of_doubleSigns : ∀ p ∈ doubleSigns,
    p.2 ≠ .error ∧ p.2 ≠ .newline ∧ p.2 ≠ .endOfInput ∧ p.2 ≠ .string := by
  decide

theorem kind_of_word (word : String) :
    TokenKind.ofWord word ≠ .error ∧ TokenKind.ofWord word ≠ .newline ∧
      TokenKind.ofWord word ≠ .endOfInput ∧ TokenKind.ofWord word ≠ .string := by
  have hall : ∀ p ∈ keywords,
      p.2 ≠ .error ∧ p.2 ≠ .newline ∧ p.2 ≠ .endOfInput ∧ p.2 ≠ .string := by decide
  unfold TokenKind.ofWord
  cases hk : keywords.lookup word with
  | none => simp
  | some kind =>
    exact hall _ (mem_of_lookup hk)

/-- No token is an error, a line end or the end of the input. -/
theorem Spells.kind_ne {kind : TokenKind} {text raw : List Char} (h : Spells kind text raw) :
    kind ≠ .error ∧ kind ≠ .newline ∧ kind ≠ .endOfInput := by
  cases h with
  | sign h =>
    obtain ⟨herror, hline, hend, -⟩ := kind_of_singleSigns _ h
    exact ⟨herror, hline, hend⟩
  | pair h =>
    obtain ⟨herror, hline, hend, -⟩ := kind_of_doubleSigns _ h
    exact ⟨herror, hline, hend⟩
  | word hc hcs =>
    obtain ⟨herror, hline, hend, -⟩ := kind_of_word _
    exact ⟨herror, hline, hend⟩
  | _ => decide

/-- A string is a quotable text between two quotes. -/
theorem Spells.exists_inside {text raw : List Char} (h : Spells .string text raw) :
    ∃ quote inside, isQuote quote ∧ isQuotable quote inside ∧ raw = quote :: (inside ++ [quote]) ∧
      text = unescape quote inside := by
  generalize hk : TokenKind.string = kind at h
  cases h with
  | sign h => exact absurd hk.symm (kind_of_singleSigns _ h).2.2.2
  | pair h => exact absurd hk.symm (kind_of_doubleSigns _ h).2.2.2
  | word hc hcs => exact absurd hk.symm (kind_of_word _).2.2.2
  | string hq hi => exact ⟨_, _, hq, hi, rfl, rfl⟩
  | _ => cases hk

theorem Spells.ne_nil {kind : TokenKind} {text raw : List Char} (h : Spells kind text raw) :
    raw ≠ [] := by
  cases h with
  | whole hne h => exact hne
  | _ => simp

/-- Only the text of a string differs from its characters. -/
theorem Spells.text_eq {kind : TokenKind} {text raw : List Char} (h : Spells kind text raw)
    (hk : kind ≠ .string) : text = raw := by
  cases h with
  | string => exact absurd rfl hk
  | _ => rfl

/-! ### First characters -/

theorem isDigit_iff {c : Char} : isDigit c ↔ 48 ≤ c.toNat ∧ c.toNat ≤ 57 := by
  simp [isDigit, Char.le_def, UInt32.le_iff_toNat_le]

theorem isIdentStart_iff {c : Char} :
    isIdentStart c ↔
      (97 ≤ c.toNat ∧ c.toNat ≤ 122) ∨ (65 ≤ c.toNat ∧ c.toNat ≤ 90) ∨ c.toNat = 95 := by
  simp [isIdentStart, Char.le_def, UInt32.le_iff_toNat_le, or_assoc, ← Char.toNat_inj]

theorem isQuote_iff {c : Char} : isQuote c ↔ c.toNat = 34 ∨ c.toNat = 39 := by
  simp [isQuote, ← Char.toNat_inj]

theorem isSpace_iff {c : Char} :
    isSpace c ↔ c.toNat = 32 ∨ c.toNat = 9 ∨ c.toNat = 13 ∨ c.toNat = 10 := by
  simp [isSpace, ← Char.toNat_inj, or_assoc]

/-- The signs, the blanks, the quotes, the digits and the letters have no character in common. -/
theorem classes_of_singleSigns : ∀ p ∈ singleSigns,
    isSpace p.1 = false ∧ isQuote p.1 = false ∧ isDigit p.1 = false ∧ isIdentStart p.1 = false := by
  decide

/-- A sign of two characters begins with one that is a sign by itself, but no slash. -/
theorem first_of_doubleSigns : ∀ p ∈ doubleSigns,
    p.1.1 ≠ '/' ∧ ∃ kind, (p.1.1, kind) ∈ singleSigns := by
  simp [doubleSigns, singleSigns]

/-- The sign that two characters make is in the table. -/
theorem mem_of_doubleSign? {c : Char} {cs : List Char} {kind : TokenKind}
    (h : doubleSign? c cs = some kind) : ∃ d ds, cs = d :: ds ∧ ((c, d), kind) ∈ doubleSigns := by
  cases cs with
  | nil => simp [doubleSign?] at h
  | cons d ds =>
    exact ⟨d, ds, rfl, mem_of_lookup h⟩

/-- A character that is no sign begins no longer one either. -/
theorem doubleSign?_of_not_sign {c : Char} (h : singleSigns.lookup c = none) (cs : List Char) :
    doubleSign? c cs = none := by
  cases hd : doubleSign? c cs with
  | none => rfl
  | some kind =>
    obtain ⟨d, ds, -, hmem⟩ := mem_of_doubleSign? hd
    obtain ⟨-, kind', hsign⟩ := first_of_doubleSigns _ hmem
    have := List.lookup_eq_none_iff.1 h _ hsign
    simp at this

theorem singleSign_eq_none {c : Char} (h : isQuote c ∨ isDigit c ∨ isIdentStart c) :
    singleSigns.lookup c = none := by
  cases hs : singleSigns.lookup c with
  | none => rfl
  | some kind =>
    have := classes_of_singleSigns _ (mem_of_lookup hs)
    simp_all

/-! ### Scanning by the first character -/

theorem isSpace_eq_false {c : Char} (h : isQuote c ∨ isDigit c ∨ isIdentStart c) :
    isSpace c = false := by
  rw [isQuote_iff, isDigit_iff, isIdentStart_iff] at h
  rw [← Bool.not_eq_true, isSpace_iff]
  omega

theorem ne_slash {c : Char} (h : isQuote c ∨ isDigit c ∨ isIdentStart c) : c ≠ '/' := by
  rintro rfl
  revert h
  decide

theorem scan_quote {c : Char} (h : isQuote c) (cs : List Char) :
    scan c cs =
      match stringBody? c cs with
      | some (text, n) => (some (.string, String.ofList text), n)
      | none => (some (.error, String.ofList (c :: cs)), cs.length) := by
  have hsign := singleSign_eq_none (.inl h)
  have hspace : ¬ isSpace c := by simp [isSpace_eq_false (.inl h)]
  have hcomment : ¬ (c = '/' ∧ cs.head? = some '/') := fun hslash => ne_slash (.inl h) hslash.1
  rw [scan, if_neg hspace, if_neg hcomment, doubleSign?_of_not_sign hsign, hsign]
  exact if_pos h

theorem scan_digit {c : Char} (h : isDigit c) (cs : List Char) :
    scan c cs =
      (some (.number, String.ofList (c :: cs.take (numberLength cs))), numberLength cs) := by
  have hclass : isQuote c ∨ isDigit c ∨ isIdentStart c := .inr (.inl h)
  have hsign := singleSign_eq_none hclass
  have hq : isQuote c = false := by
    rw [← Bool.not_eq_true, isQuote_iff]
    rw [isDigit_iff] at h
    omega
  simp [scan, isSpace_eq_false hclass, ne_slash hclass, doubleSign?_of_not_sign hsign, hsign, h, hq]

theorem scan_letter {c : Char} (h : isIdentStart c) (cs : List Char) :
    scan c cs =
      let word := String.ofList (c :: cs.take (cs.takeWhile isIdentChar).length)
      (some (.ofWord word, word), (cs.takeWhile isIdentChar).length) := by
  have hclass : isQuote c ∨ isDigit c ∨ isIdentStart c := .inr (.inr h)
  have hsign := singleSign_eq_none hclass
  have hq : isQuote c = false := by
    rw [← Bool.not_eq_true, isQuote_iff]
    rw [isIdentStart_iff] at h
    omega
  have hd : isDigit c = false := by
    rw [← Bool.not_eq_true, isDigit_iff]
    rw [isIdentStart_iff] at h
    omega
  simp [scan, isSpace_eq_false hclass, ne_slash hclass, doubleSign?_of_not_sign hsign, hsign, h, hq,
    hd]

/-- All that can be scanned at a place. -/
inductive Scanned (c : Char) (cs : List Char) : Option (TokenKind × String) × Nat → Prop where
  | blank (h : isSpace c) : Scanned c cs (none, 0)
  | comment (h : c = '/' ∧ cs.head? = some '/') :
    Scanned c cs (none, (cs.takeWhile (· ≠ '\n')).length)
  | pair {kind : TokenKind} (h : doubleSign? c cs = some kind) :
    Scanned c cs (some (kind, String.ofList (c :: cs.take 1)), 1)
  | sign {kind : TokenKind} (hcomment : ¬ (c = '/' ∧ cs.head? = some '/'))
    (h : singleSigns.lookup c = some kind) : Scanned c cs (some (kind, String.singleton c), 0)
  | string {text : List Char} {n : Nat} (hq : isQuote c) (h : stringBody? c cs = some (text, n)) :
    Scanned c cs (some (.string, String.ofList text), n)
  | unterminated (hq : isQuote c) (h : stringBody? c cs = none) :
    Scanned c cs (some (.error, String.ofList (c :: cs)), cs.length)
  | number (h : isDigit c) :
    Scanned c cs (some (.number, String.ofList (c :: cs.take (numberLength cs))), numberLength cs)
  | word (h : isIdentStart c) :
    Scanned c cs
      (some (.ofWord (String.ofList (c :: cs.take (cs.takeWhile isIdentChar).length)),
          String.ofList (c :: cs.take (cs.takeWhile isIdentChar).length)),
        (cs.takeWhile isIdentChar).length)
  | stray (hspace : isSpace c = false) (hsign : singleSigns.lookup c = none)
    (hq : isQuote c = false) (hd : isDigit c = false) (hl : isIdentStart c = false) :
    Scanned c cs (some (.error, String.singleton c), 0)

theorem scanned (c : Char) (cs : List Char) : Scanned c cs (scan c cs) := by
  unfold scan
  split
  · next hspace => exact .blank hspace
  split
  · next hcomment => exact .comment hcomment
  next hspace hcomment =>
  split
  · next hd => exact .pair hd
  split
  · next hs => exact .sign hcomment hs
  next hsign =>
  split
  · next hq =>
    split
    · next hbody => exact .string hq hbody
    · next hbody => exact .unterminated hq hbody
  split
  · next hd => exact .number hd
  split
  · next hl => exact .word hl
  next hq hd hl =>
  exact .stray (by simpa using hspace) hsign (by simpa using hq) (by simpa using hd)
    (by simpa using hl)

end PageScript.Lexeme
