import PageScript.Text.Encoding

/-!
Characters as code units and as bytes. The units of a character join to that character again; ASCII
text has one byte for every character, and without control characters it is read back as it was.
-/
namespace PageScript.Text

/-! ### Code units -/

theorem toNat_lt (c : Char) : c.toNat < 0x110000 := by
  have := c.valid
  simp only [UInt32.isValidChar, Nat.isValidChar] at this
  show c.val.toNat < _
  omega

/-- A character is no half of a pair. -/
theorem not_surrogate (c : Char) :
    isHighSurrogate c.toNat = false ∧ isLowSurrogate c.toNat = false := by
  have := c.valid
  simp only [UInt32.isValidChar, Nat.isValidChar] at this
  simp only [isHighSurrogate, isLowSurrogate, Char.toNat]
  grind

/-- Every unit has sixteen bits. -/
theorem lt_of_mem_units {c : Char} {unit : Nat} (h : unit ∈ units c) : unit < 0x10000 := by
  have := toNat_lt c
  simp only [units] at h
  split at h
  · simp only [List.mem_singleton] at h
    omega
  · simp only [List.mem_cons, List.not_mem_nil, or_false] at h
    omega

theorem charOfCode_toNat (c : Char) : charOfCode c.toNat = c := by
  obtain ⟨hhigh, hlow⟩ := not_surrogate c
  rw [charOfCode, hhigh, hlow]
  exact Char.ofNat_toNat c

/-- The units of a character join again, whatever follows. -/
theorem ofUnits_units_append (c : Char) (rest : List Nat) :
    ofUnits (units c ++ rest) = c :: ofUnits rest := by
  obtain ⟨hhigh, -⟩ := not_surrogate c
  simp only [units]
  split
  · cases rest with
    | nil => simp [ofUnits, charOfCode_toNat]
    | cons unit rest => simp [ofUnits, hhigh, charOfCode_toNat]
  · next h =>
    have hlt := toNat_lt c
    have h1 : isHighSurrogate (0xd800 + (c.toNat - 0x10000) / 0x400) = true := by
      simp only [isHighSurrogate, Bool.and_eq_true, decide_eq_true_eq]
      omega
    have h2 : isLowSurrogate (0xdc00 + (c.toNat - 0x10000) % 0x400) = true := by
      simp only [isLowSurrogate, Bool.and_eq_true, decide_eq_true_eq]
      omega
    have hpair : pairChar (0xd800 + (c.toNat - 0x10000) / 0x400)
        (0xdc00 + (c.toNat - 0x10000) % 0x400) = c := by
      have hcode : 0x10000 + (0xd800 + (c.toNat - 0x10000) / 0x400 - 0xd800) * 0x400 +
          (0xdc00 + (c.toNat - 0x10000) % 0x400 - 0xdc00) = c.toNat := by omega
      rw [pairChar, hcode]
      exact Char.ofNat_toNat c
    simp [ofUnits, h1, h2, hpair]

theorem ofUnits_flatMap_units (cs : List Char) : ofUnits (cs.flatMap units) = cs := by
  induction cs with
  | nil => rfl
  | cons c cs ih => rw [List.flatMap_cons, ofUnits_units_append, ih]

/-! ### ASCII -/

/-- The bytes of an array in order. -/
theorem toList_byteArray (bytes : ByteArray) : bytes.toList = bytes.data.toList := by
  have hloop : ∀ i done, ByteArray.toList.loop bytes i done =
      done.reverse ++ bytes.data.toList.drop i := by
    intro i done
    fun_induction ByteArray.toList.loop bytes i done with
    | case1 i done h ih =>
      have hi : i < bytes.data.toList.length := by simpa using h
      rw [ih, List.drop_eq_getElem_cons hi]
      simp [ByteArray.get!, h]
    | case2 i done h =>
      rw [List.drop_eq_nil_of_le (by simpa using h)]
      simp
  simp [ByteArray.toList, hloop]

/-- The byte of an ASCII character. -/
def asciiByte (c : Char) : UInt8 := UInt8.ofNat c.toNat

/-- A blank or an ASCII character that can be seen. -/
def IsGraphic (c : Char) : Prop := 0x20 ≤ c.toNat ∧ c.toNat < 0x7f

instance (c : Char) : Decidable (IsGraphic c) := inferInstanceAs (Decidable (_ ∧ _))

theorem IsGraphic.ascii {c : Char} (h : IsGraphic c) : c.toNat < 0x80 :=
  Nat.lt_trans h.2 (by decide)

/-- A check of a whole text. -/
theorem isGraphic_of_all {cs : List Char} (h : cs.all fun c => decide (IsGraphic c)) :
    ∀ c ∈ cs, IsGraphic c := by simpa using h

theorem toNat_asciiByte {c : Char} (h : c.toNat < 0x80) : (asciiByte c).toNat = c.toNat := by
  rw [asciiByte, UInt8.toNat_ofNat']
  omega

theorem utf8EncodeChar_ascii {c : Char} (h : c.toNat < 0x80) :
    String.utf8EncodeChar c = [asciiByte c] := by
  have hle : c.val.toNat ≤ 0x7f := Nat.le_of_lt_succ h
  simp only [String.utf8EncodeChar, hle, if_true]
  rfl

/-- **ASCII text in UTF-8**: a byte for every character. -/
theorem toUTF8_ofList {cs : List Char} (h : ∀ c ∈ cs, c.toNat < 0x80) :
    (String.ofList cs).toUTF8.toList = cs.map asciiByte := by
  rw [toList_byteArray]
  show (String.ofList cs).toByteArray.data.toList = _
  rw [String.toByteArray_ofList, List.utf8Encode, List.toList_data_toByteArray]
  induction cs with
  | nil => rfl
  | cons c cs ih =>
    rw [List.flatMap_cons, utf8EncodeChar_ascii (h c (by simp)), ih fun d hd => h d (by simp [hd])]
    rfl

theorem utf8ByteSize_ofList {cs : List Char} (h : ∀ c ∈ cs, c.toNat < 0x80) :
    (String.ofList cs).utf8ByteSize = cs.length := by
  have := congrArg List.length (toUTF8_ofList h)
  rw [toList_byteArray, List.length_map] at this
  exact this

/-- The code points of ASCII bytes are those of the characters. -/
theorem codePoints_map_asciiByte {cs : List Char} (h : ∀ c ∈ cs, c.toNat < 0x80)
    (surrogates : Bool) (offset : Nat) :
    codePoints surrogates offset (cs.map asciiByte) = .ok (cs.map Char.toNat) := by
  induction cs generalizing offset with
  | nil => rfl
  | cons c cs ih =>
    have hc := toNat_asciiByte (h c (by simp))
    have hlt : asciiByte c < 0x80 := by
      rw [UInt8.lt_iff_toNat_lt, hc]
      exact h c (by simp)
    rw [List.map_cons, codePoints.eq_def]
    simp only [hlt, if_true, ih fun d hd => h d (by simp [hd]), hc]
    rfl

/-- Bytes without control characters are read back as the characters that they were. -/
theorem detect?_map_asciiByte {cs : List Char} (h : ∀ c ∈ cs, IsGraphic c) :
    detect? (cs.map asciiByte) = some cs := by
  have hascii : ∀ c ∈ cs, c.toNat < 0x80 := fun c hc => (h c hc).ascii
  have hbyte : ∀ b ∈ cs.map asciiByte, 0x20 ≤ b.toNat ∧ b.toNat < 0x7f := by
    intro b hb
    obtain ⟨c, hc, rfl⟩ := List.mem_map.1 hb
    rw [toNat_asciiByte (hascii c hc)]
    exact h c hc
  have hzero : ∀ b ∈ cs.map asciiByte, b ≠ 0 := by
    rintro b hb rfl
    exact absurd (hbyte _ hb) (by decide)
  have hmark : Encoding.ofMark? (cs.map asciiByte) = none := by
    generalize cs.map asciiByte = bytes at hbyte
    unfold Encoding.ofMark?
    split
    case h_6 => rfl
    all_goals exact absurd (hbyte _ List.mem_cons_self) (by decide)
  have hzeros : Encoding.ofZeros (cs.map asciiByte) = .utf8 := by
    generalize cs.map asciiByte = bytes at hzero
    unfold Encoding.ofZeros
    split
    · rw [if_neg (hzero _ (by simp)), if_neg (hzero _ (by simp))]
    · rw [if_neg (hzero _ (by simp)), if_neg (hzero _ (by simp))]
    · rfl
  rw [detect?, hmark]
  simp only [hzeros, decode?, codePoints_map_asciiByte hascii, List.map_map]
  congr 1
  exact List.map_id'' charOfCode_toNat cs

end PageScript.Text
