import PageScript.Proofs.Text.Encoding
import PageScript.Text.Utf8

/-!
UTF-8, said by how characters are written. Bytes are read as a text if and only if they are what
that text is written as, so that what cannot be read is no text at all.
-/
namespace PageScript.Text

/-! ### Sequences of bytes -/

theorem uInt8_eq_ofNat_iff {a : UInt8} {n : Nat} (h : n < 256) :
    a = UInt8.ofNat n ↔ a.toNat = n := by
  rw [← UInt8.toNat_inj, UInt8.toNat_ofNat', Nat.mod_eq_of_lt h]

theorem isContinuation_iff {b : UInt8} : isContinuation b ↔ 0x80 ≤ b.toNat ∧ b.toNat < 0xc0 := by
  simp [isContinuation, UInt8.le_iff_toNat_le, UInt8.lt_iff_toNat_lt]

theorem twoBytes?_eq_some_iff {a b : UInt8} {n : Nat} :
    twoBytes? a b = some n ↔ 0x80 ≤ n ∧ n < 0x800 ∧
      [a, b] = [UInt8.ofNat (n / 64 % 32 + 192), UInt8.ofNat (n % 64 + 128)] := by
  simp only [twoBytes?, isContinuation_iff, payload, UInt8.le_iff_toNat_le, UInt8.lt_iff_toNat_lt,
    Option.ite_none_right_eq_some, Option.some.injEq, List.cons.injEq, and_true]
  rw [uInt8_eq_ofNat_iff (by omega), uInt8_eq_ofNat_iff (by omega)]
  have h1 : (0xc2 : UInt8).toNat = 0xc2 := rfl
  have h2 : (0xe0 : UInt8).toNat = 0xe0 := rfl
  rw [h1, h2]
  omega

theorem threeBytes?_eq_some_iff {a b c : UInt8} {n : Nat} :
    threeBytes? false a b c = some n ↔ 0x800 ≤ n ∧ n < 0x10000 ∧ (n < 0xd800 ∨ 0xe000 ≤ n) ∧
      [a, b, c] = [UInt8.ofNat (n / 4096 % 16 + 224), UInt8.ofNat (n / 64 % 64 + 128),
        UInt8.ofNat (n % 64 + 128)] := by
  simp only [threeBytes?, isContinuation_iff, payload, UInt8.le_iff_toNat_le,
    UInt8.lt_iff_toNat_lt, Option.ite_none_right_eq_some, Option.some.injEq, List.cons.injEq,
    and_true, Bool.false_eq_true, false_or]
  rw [uInt8_eq_ofNat_iff (by omega), uInt8_eq_ofNat_iff (by omega), uInt8_eq_ofNat_iff (by omega)]
  have h1 : (0xe0 : UInt8).toNat = 0xe0 := rfl
  have h2 : (0xf0 : UInt8).toNat = 0xf0 := rfl
  rw [h1, h2]
  omega

theorem fourBytes?_eq_some_iff {a b c d : UInt8} {n : Nat} :
    fourBytes? a b c d = some n ↔ 0x10000 ≤ n ∧ n < 0x110000 ∧
      [a, b, c, d] = [UInt8.ofNat (n / 262144 % 8 + 240), UInt8.ofNat (n / 4096 % 64 + 128),
        UInt8.ofNat (n / 64 % 64 + 128), UInt8.ofNat (n % 64 + 128)] := by
  unfold fourBytes?
  simp only [Option.ite_none_right_eq_some, Option.some.injEq, List.cons.injEq, and_true]
  simp only [isContinuation_iff, payload, UInt8.le_iff_toNat_le, UInt8.lt_iff_toNat_lt]
  rw [uInt8_eq_ofNat_iff (by omega), uInt8_eq_ofNat_iff (by omega), uInt8_eq_ofNat_iff (by omega),
    uInt8_eq_ofNat_iff (by omega)]
  have h1 : (0xf0 : UInt8).toNat = 0xf0 := rfl
  have h2 : (0xf8 : UInt8).toNat = 0xf8 := rfl
  rw [h1, h2]
  omega

/-! #### First bytes -/

theorem first_of_twoBytes? {a b : UInt8} {n : Nat} (h : twoBytes? a b = some n) :
    0x80 ≤ a ∧ a < 0xe0 := by
  simp only [twoBytes?, Option.ite_none_right_eq_some] at h
  exact ⟨UInt8.le_trans (by decide) h.1.1, h.1.2.1⟩

theorem first_of_threeBytes? {a b c : UInt8} {n : Nat} (h : threeBytes? false a b c = some n) :
    0xe0 ≤ a ∧ a < 0xf0 := by
  simp only [threeBytes?, Option.ite_none_right_eq_some] at h
  exact ⟨h.1.1, h.1.2.1⟩

theorem first_of_fourBytes? {a b c d : UInt8} {n : Nat} (h : fourBytes? a b c d = some n) :
    0xf0 ≤ a := by
  simp only [fourBytes?, Option.ite_none_right_eq_some] at h
  exact h.1.1

theorem twoBytes?_eq_none {a : UInt8} (h : 0xe0 ≤ a) (b : UInt8) : twoBytes? a b = none :=
  if_neg fun hall => UInt8.not_lt.2 h hall.2.1

theorem threeBytes?_eq_none {a : UInt8} (h : 0xf0 ≤ a) (b c : UInt8) :
    threeBytes? false a b c = none :=
  if_neg fun hall => UInt8.not_lt.2 h hall.2.1

/-! ### Code points -/

/-- The bytes that a code point is written as. -/
inductive Writes : Nat → List UInt8 → Prop where
  | one {a : UInt8} (h : a < 0x80) : Writes a.toNat [a]
  | two {a b : UInt8} {n : Nat} (h : twoBytes? a b = some n) : Writes n [a, b]
  | three {a b c : UInt8} {n : Nat} (h : threeBytes? false a b c = some n) : Writes n [a, b, c]
  | four {a b c d : UInt8} {n : Nat} (h : fourBytes? a b c d = some n) : Writes n [a, b, c, d]

namespace Writes
variable {n : Nat} {bytes : List UInt8}

theorem isValidChar (h : Writes n bytes) : n.isValidChar := by
  cases h with
  | one h =>
    rw [UInt8.lt_iff_toNat_lt] at h
    exact .inl (Nat.lt_trans h (by decide))
  | two h =>
    obtain ⟨-, hlt, -⟩ := twoBytes?_eq_some_iff.1 h
    exact .inl (Nat.lt_trans hlt (by decide))
  | three h =>
    obtain ⟨-, hlt, hsurrogate, -⟩ := threeBytes?_eq_some_iff.1 h
    simp only [Nat.isValidChar]
    omega
  | four h =>
    obtain ⟨hle, hlt, -⟩ := fourBytes?_eq_some_iff.1 h
    exact .inr ⟨by omega, hlt⟩

theorem toNat_charOfCode (h : Writes n bytes) : (charOfCode n).toNat = n := by
  have hcode : (Char.ofNat n).toNat = n := by
    rw [Char.ofNat, dif_pos h.isValidChar]
    rfl
  have hchar := charOfCode_toNat (Char.ofNat n)
  rw [hcode] at hchar
  rw [hchar, hcode]

/-- What is written is a character. -/
theorem eq_utf8EncodeChar (h : Writes n bytes) : bytes = String.utf8EncodeChar (charOfCode n) := by
  have hcode : (charOfCode n).val.toNat = n := h.toNat_charOfCode
  simp only [String.utf8EncodeChar, hcode]
  cases h with
  | @one a h =>
    rw [UInt8.lt_iff_toNat_lt] at h
    rw [if_pos (Nat.le_of_lt_succ h), UInt8.ofNat_toNat]
  | two h =>
    obtain ⟨hle, hlt, hbytes⟩ := twoBytes?_eq_some_iff.1 h
    rw [hbytes, if_neg (by omega), if_pos (by omega)]
  | three h =>
    obtain ⟨hle, hlt, -, hbytes⟩ := threeBytes?_eq_some_iff.1 h
    rw [hbytes, if_neg (by omega), if_neg (by omega), if_pos (by omega)]
  | four h =>
    obtain ⟨hle, hlt, hbytes⟩ := fourBytes?_eq_some_iff.1 h
    rw [hbytes, if_neg (by omega), if_neg (by omega), if_neg (by omega)]

end Writes

/-- Every character is written. -/
theorem writes_utf8EncodeChar (c : Char) : Writes c.toNat (String.utf8EncodeChar c) := by
  have hlt := toNat_lt c
  have hvalid : c.toNat < 0xd800 ∨ 0xe000 ≤ c.toNat := by
    have := c.valid
    simp only [UInt32.isValidChar, Nat.isValidChar] at this
    exact this.imp_right fun h => Nat.succ_le_of_lt h.1
  have hcode : c.val.toNat = c.toNat := rfl
  simp only [String.utf8EncodeChar, hcode]
  split
  · next h =>
    have hbyte : (UInt8.ofNat c.toNat).toNat = c.toNat := by
      rw [UInt8.toNat_ofNat']
      omega
    have hone : Writes (UInt8.ofNat c.toNat).toNat [UInt8.ofNat c.toNat] := by
      refine .one ?_
      rw [UInt8.lt_iff_toNat_lt, hbyte]
      exact Nat.lt_succ_of_le h
    rwa [hbyte] at hone
  split
  · next h1 h2 => exact .two (twoBytes?_eq_some_iff.2 ⟨by omega, by omega, rfl⟩)
  split
  · next h1 h2 h3 => exact .three (threeBytes?_eq_some_iff.2 ⟨by omega, by omega, hvalid, rfl⟩)
  · next h1 h2 h3 => exact .four (fourBytes?_eq_some_iff.2 ⟨by omega, hlt, rfl⟩)

/-! ### Texts -/

/-- A code point is read where it is written. -/
theorem codePoints_append {n : Nat} {bytes : List UInt8} (h : Writes n bytes) (offset : Nat)
    (rest : List UInt8) :
    codePoints false offset (bytes ++ rest) =
      (codePoints false (offset + bytes.length) rest).map (n :: ·) := by
  cases h with
  | one h =>
    rw [List.singleton_append, codePoints.eq_def]
    simp only [if_pos h]
    rfl
  | two h =>
    obtain ⟨hfirst, -⟩ := first_of_twoBytes? h
    rw [List.cons_append, List.cons_append, codePoints.eq_def]
    simp only [if_neg (UInt8.not_lt.2 hfirst), h]
    rfl
  | @three a b c n h =>
    obtain ⟨hfirst, -⟩ := first_of_threeBytes? h
    have hlong : ¬ a < 0x80 := UInt8.not_lt.2 (UInt8.le_trans (by decide) hfirst)
    rw [List.cons_append, List.cons_append, codePoints.eq_def]
    simp only [if_neg hlong, twoBytes?_eq_none hfirst, List.cons_append, h]
    rfl
  | @four a b c d n h =>
    have hfirst := first_of_fourBytes? h
    have hlong : ¬ a < 0x80 := UInt8.not_lt.2 (UInt8.le_trans (by decide) hfirst)
    have htwo : 0xe0 ≤ a := UInt8.le_trans (by decide) hfirst
    rw [List.cons_append, List.cons_append, codePoints.eq_def]
    simp only [if_neg hlong, twoBytes?_eq_none htwo, threeBytes?_eq_none hfirst, List.cons_append,
      h]
    rfl

/-- What is read is written, code point by code point. -/
theorem eq_of_codePoints {offset : Nat} {bytes : List UInt8} {ns : List Nat}
    (h : codePoints false offset bytes = .ok ns) :
    bytes = (ns.map charOfCode).flatMap String.utf8EncodeChar := by
  -- The branches that read a code point differ only in how many bytes it takes.
  have hstep {read : Except Nat (List Nat)} {n : Nat} {part rest : List UInt8}
      (hpart : Writes n part)
      (hrest : ∀ ns, read = .ok ns → rest = (ns.map charOfCode).flatMap String.utf8EncodeChar)
      {ns : List Nat} (h : read.map (n :: ·) = .ok ns) :
      part ++ rest = (ns.map charOfCode).flatMap String.utf8EncodeChar := by
    cases read with
    | error offset => cases h
    | ok ns' =>
      obtain rfl : n :: ns' = ns := Except.ok.inj h
      rw [List.map_cons, List.flatMap_cons, ← hpart.eq_utf8EncodeChar, ← hrest ns' rfl]
  fun_induction codePoints false offset bytes generalizing ns with
  | case1 =>
    cases h
    rfl
  | case2 offset a rest ha ih => exact hstep (.one ha) (fun ns => ih) h
  | case3 => cases h
  | case4 offset a ha b rest n hn ih => exact hstep (.two hn) (fun ns => ih) h
  | case5 => cases h
  | case6 offset a ha b hab c rest n hn ih => exact hstep (.three hn) (fun ns => ih) h
  | case7 => cases h
  | case8 offset a ha b hab c habc d rest n hn ih => exact hstep (.four hn) (fun ns => ih) h
  | case9 => cases h

/-- What a text is written as. -/
def utf8 (cs : List Char) : List UInt8 := cs.flatMap String.utf8EncodeChar

/-- **Bytes are read as a text if and only if they are what it is written as.** -/
theorem ofUtf8_eq_ok_iff {bytes : List UInt8} {cs : List Char} :
    ofUtf8 bytes = .ok cs ↔ bytes = utf8 cs := by
  constructor
  · intro h
    cases hcodes : codePoints false 0 bytes with
    | error offset =>
      rw [ofUtf8, hcodes] at h
      cases h
    | ok ns =>
      rw [ofUtf8, hcodes] at h
      obtain rfl : ns.map charOfCode = cs := Except.ok.inj h
      exact eq_of_codePoints hcodes
  · rintro rfl
    have hcodes (offset : Nat) : codePoints false offset (utf8 cs) = .ok (cs.map Char.toNat) := by
      induction cs generalizing offset with
      | nil => rfl
      | cons c cs ih =>
        have hcons : utf8 (c :: cs) = String.utf8EncodeChar c ++ utf8 cs := List.flatMap_cons
        rw [hcons, codePoints_append (writes_utf8EncodeChar c), ih]
        rfl
    rw [ofUtf8, hcodes]
    show Except.ok ((cs.map Char.toNat).map charOfCode) = _
    rw [List.map_map]
    exact congrArg Except.ok (List.map_id'' charOfCode_toNat cs)

theorem utf8_inj {cs cs' : List Char} : utf8 cs = utf8 cs' ↔ cs = cs' := by
  constructor
  · intro h
    exact Except.ok.inj ((ofUtf8_eq_ok_iff.2 rfl).symm.trans (ofUtf8_eq_ok_iff.2 h))
  · exact congrArg utf8

/-- Bytes that cannot be read are no text. -/
theorem exists_error_iff {bytes : List UInt8} :
    (∃ offset, ofUtf8 bytes = .error offset) ↔ ∀ cs, bytes ≠ utf8 cs := by
  cases h : ofUtf8 bytes with
  | ok cs => simpa using ⟨cs, ofUtf8_eq_ok_iff.1 h⟩
  | error offset =>
    have hnone (cs : List Char) : bytes ≠ utf8 cs := by
      rw [Ne, ← ofUtf8_eq_ok_iff, h]
      nofun
    simpa using hnone

end PageScript.Text
