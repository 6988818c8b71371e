import Mathlib.Algebra.Group.Nat.Defs
import PageScript.Proofs.Text.Encoding
import PageScript.Text.Quoted

/-!
Text between quotes can be read back. Each character is written in a way of its own, and where one
ends is known from its front: a backslash says how many characters follow that belong to it. So two
texts that are written alike are the same. What is written stays on one line.
-/
namespace PageScript.Text

/-! ### Hexadecimal digits -/

/-- The value of a hexadecimal digit. -/
def hexValue (c : Char) : Nat := if c.isDigit then c.toNat - 48 else c.toNat - 87

/-- The number that hexadecimal digits stand for. -/
def ofHexDigits (cs : List Char) : Nat := cs.foldl (fun n c => 16 * n + hexValue c) 0

theorem hexValue_digitChar : ∀ n < 16, hexValue n.digitChar = n := by decide

theorem length_hexDigits (width n : Nat) : (hexDigits width n).length = width := by
  induction width generalizing n with
  | zero => rfl
  | succ width ih => rw [hexDigits, List.length_append, ih, List.length_singleton]

theorem ofHexDigits_hexDigits (width n : Nat) :
    ofHexDigits (hexDigits width n) = n % 16 ^ width := by
  induction width generalizing n with
  | zero => simp [hexDigits, ofHexDigits, Nat.mod_one]
  | succ width ih =>
    have hlast : ofHexDigits (hexDigits (width + 1) n) =
        16 * ofHexDigits (hexDigits width (n / 16)) + hexValue (n % 16).digitChar := by
      simp [hexDigits, ofHexDigits]
    rw [hlast, ih, hexValue_digitChar _ (Nat.mod_lt n (by decide)), Nat.pow_succ, Nat.mul_comm _ 16,
      Nat.mod_mul, Nat.add_comm]

theorem mem_hexDigits {width n : Nat} {c : Char} (h : c ∈ hexDigits width n) :
    ∃ d < 16, c = d.digitChar := by
  induction width generalizing n with
  | zero => cases h
  | succ width ih =>
    rcases List.mem_append.1 h with h | h
    · exact ih h
    · exact ⟨n % 16, Nat.mod_lt n (by decide), List.mem_singleton.1 h⟩

/-! ### Reading characters back -/

/-- The character that is meant by a backslash with `c` behind it, and what follows. -/
def escaped (c : Char) (cs : List Char) : Char × List Char :=
  let coded (width : Nat) : Char × List Char :=
    (Char.ofNat (ofHexDigits (cs.take width)), cs.drop width)
  if c = 'n' then ('\n', cs)
  else if c = 'r' then ('\r', cs)
  else if c = 't' then ('\t', cs)
  else if c = 'x' then coded 2
  else if c = 'u' then coded 4
  else if c = 'U' then coded 8
  else (c, cs)

/-- The first character that is meant by what is written, and what follows. -/
def unquoted? : List Char → Option (Char × List Char)
  | [] => none
  | c :: cs =>
    if c = '\\' then
      match cs with
      | [] => none
      | d :: ds => some (escaped d ds)
    else some (c, cs)

/-- A character that is written by its code point is read back, if that has no more digits than are
written. -/
theorem ofNat_ofHexDigits {width : Nat} {c : Char} (h : c.toNat < 16 ^ width) (rest : List Char) :
    (Char.ofNat (ofHexDigits ((hexDigits width c.toNat ++ rest).take width)),
      (hexDigits width c.toNat ++ rest).drop width) = (c, rest) := by
  have hlength := length_hexDigits width c.toNat
  rw [List.take_left' hlength, List.drop_left' hlength, ofHexDigits_hexDigits, Nat.mod_eq_of_lt h,
    Char.ofNat_toNat]

/-- **What is written for a character is read back**, whatever follows it. -/
theorem unquoted?_quotedChar {quote : Char} (hquote : quote = '\'' ∨ quote = '"') (c : Char)
    (rest : List Char) : unquoted? (quotedChar quote c ++ rest) = some (c, rest) := by
  unfold quotedChar
  split
  · next h =>
    have hself : escaped c rest = (c, rest) := by
      rcases h with rfl | rfl
      · rcases hquote with rfl | rfl <;> rfl
      · rfl
    exact congrArg some hself
  next hplain =>
  obtain ⟨-, hslash⟩ := not_or.1 hplain
  split
  · next h => subst h; rfl
  split
  · next h => subst h; rfl
  split
  · next h => subst h; rfl
  split
  · exact if_neg hslash
  split
  · next h => exact congrArg some (ofNat_ofHexDigits (Nat.lt_of_le_of_lt h (by decide)) rest)
  split
  · next h => exact congrArg some (ofNat_ofHexDigits (Nat.lt_of_le_of_lt h (by decide)) rest)
  · exact congrArg some (ofNat_ofHexDigits (Nat.lt_trans (toNat_lt c) (by decide)) rest)

/-! ### Texts -/

theorem delimiter_eq (cs : List Char) : delimiter cs = '\'' ∨ delimiter cs = '"' := by
  unfold delimiter
  split
  · exact .inr rfl
  · exact .inl rfl

theorem flatMap_quotedChar_inj {quote : Char} (hquote : quote = '\'' ∨ quote = '"')
    {cs cs' : List Char} (h : cs.flatMap (quotedChar quote) = cs'.flatMap (quotedChar quote)) :
    cs = cs' := by
  have hread (c : Char) (cs : List Char) :
      unquoted? ((c :: cs).flatMap (quotedChar quote)) =
        some (c, cs.flatMap (quotedChar quote)) := by
    rw [List.flatMap_cons]
    exact unquoted?_quotedChar hquote c _
  induction cs generalizing cs' with
  | nil =>
    cases cs' with
    | nil => rfl
    | cons c' cs' =>
      have hnone := hread c' cs'
      rw [← h] at hnone
      cases hnone
  | cons c cs ih =>
    have hfirst := hread c cs
    cases cs' with
    | nil =>
      rw [h] at hfirst
      cases hfirst
    | cons c' cs' =>
      rw [h, hread c' cs'] at hfirst
      obtain ⟨rfl, hrest⟩ := Prod.ext_iff.1 (Option.some.inj hfirst)
      rw [ih hrest.symm]

theorem toList_quoted (s : String) :
    (quoted s).toList = delimiter s.toList ::
      (s.toList.flatMap (quotedChar (delimiter s.toList)) ++ [delimiter s.toList]) := by
  simp [quoted]

/-- **No two texts are written alike between quotes.** -/
theorem quoted_inj {s s' : String} (h : quoted s = quoted s') : s = s' := by
  have hlist := congrArg String.toList h
  rw [toList_quoted, toList_quoted] at hlist
  obtain ⟨hquote, hinside⟩ := List.cons.inj hlist
  rw [← hquote] at hinside
  exact String.toList_inj.1
    (flatMap_quotedChar_inj (delimiter_eq s.toList) (List.append_cancel_right hinside))

theorem head?_quoted (s : String) :
    (quoted s).toList.head? = some '\'' ∨ (quoted s).toList.head? = some '"' := by
  rw [toList_quoted, List.head?_cons]
  rcases delimiter_eq s.toList with h | h <;> simp [h]

theorem newline_not_mem_quotedChar {quote : Char} (hquote : quote = '\'' ∨ quote = '"')
    (c : Char) : '\n' ∉ quotedChar quote c := by
  have hdigits (width n : Nat) : '\n' ∉ hexDigits width n := by
    intro hmem
    obtain ⟨d, hd, heq⟩ := mem_hexDigits hmem
    have hall : ∀ d < 16, '\n' ≠ d.digitChar := by decide
    exact hall d hd heq
  unfold quotedChar
  split
  · next h =>
    have hne : '\n' ≠ c := by
      rintro rfl
      rcases h with rfl | h
      · rcases hquote with h | h <;> cases h
      · cases h
    simp [hne]
  split
  · decide
  split
  · decide
  split
  · decide
  split
  · next h _ _ _ => simpa using Ne.symm h
  split
  · simp [hdigits]
  split
  · simp [hdigits]
  · simp [hdigits]

/-- What is written between quotes stays on one line. -/
theorem newline_not_mem_quoted (s : String) : '\n' ∉ (quoted s).toList := by
  have hquote := delimiter_eq s.toList
  have hne : '\n' ≠ delimiter s.toList := by
    rcases hquote with h | h <;> rw [h] <;> decide
  rw [toList_quoted]
  simp only [List.mem_cons, List.mem_append, List.mem_flatMap, List.not_mem_nil, or_false, hne,
    false_or, not_exists, not_and]
  exact fun c _ => newline_not_mem_quotedChar hquote c

end PageScript.Text
