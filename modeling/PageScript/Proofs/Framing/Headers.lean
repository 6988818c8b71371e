import Mathlib.Data.List.TakeWhile
import PageScript.Proofs.Framing.Chunking

/-!
Headers, said without the functions that look for them. A header ends at the first empty line, and
the length that it gives is that of the first length field in it, wherever that field begins.
-/
namespace PageScript.Frame

/-! ### The end of a header -/

/-- What stands behind a header. -/
def emptyLine : List UInt8 := [0x0d, 0x0a, 0x0d, 0x0a]

/-- With an empty line behind it, a header holds no other one: no empty line ends earlier. -/
def IsHeader (header : List UInt8) : Prop :=
  ∀ before after, header ++ emptyLine = before ++ emptyLine ++ after → after = []

theorem eq_append_of_splitHeader {bytes header after : List UInt8}
    (h : splitHeader bytes = some (header, after)) : bytes = header ++ emptyLine ++ after := by
  rw [eq_of_splitHeader h, emptyLine]
  simp

/-- Where there is an empty line, a header is found that ends there or earlier. -/
theorem exists_splitHeader (before after : List UInt8) :
    ∃ header rest, splitHeader (before ++ emptyLine ++ after) = some (header, rest) ∧
      header.length ≤ before.length := by
  induction before with
  | nil => exact ⟨[], after, rfl, Nat.le_refl _⟩
  | cons b before ih =>
    obtain ⟨header, rest, hsplit, hlength⟩ := ih
    rw [List.cons_append, List.cons_append]
    unfold splitHeader
    split
    · next h => cases h
    · exact ⟨[], _, rfl, Nat.zero_le _⟩
    · next h =>
      cases h
      rw [hsplit]
      exact ⟨b :: header, rest, rfl, Nat.succ_le_succ hlength⟩

theorem isHeader_of_splitHeader {bytes header after : List UInt8}
    (h : splitHeader bytes = some (header, after)) : IsHeader header := by
  intro before more hmore
  have hbytes : bytes = before ++ emptyLine ++ (more ++ after) := by
    rw [eq_append_of_splitHeader h, hmore, List.append_assoc]
  obtain ⟨header', rest, hsplit, hfirst⟩ := exists_splitHeader before (more ++ after)
  rw [← hbytes, h] at hsplit
  cases hsplit
  have hlengths := congrArg List.length hmore
  simp only [List.length_append] at hlengths
  exact List.length_eq_zero_iff.1 (by omega)

theorem splitHeader_of_isHeader {header : List UInt8} (h : IsHeader header) (after : List UInt8) :
    splitHeader (header ++ emptyLine ++ after) = some (header, after) := by
  obtain ⟨found, rest, hsplit, hfirst⟩ := exists_splitHeader header after
  have hbytes := eq_append_of_splitHeader hsplit
  -- What was found ends inside the header and its empty line, and so at their end.
  obtain ⟨more, hmore⟩ : found ++ emptyLine <+: header ++ emptyLine := by
    apply List.prefix_of_prefix_length_le (hbytes ▸ List.prefix_append _ rest)
      (List.prefix_append _ after)
    simpa using hfirst
  obtain rfl := h found more hmore.symm
  rw [List.append_nil] at hmore
  obtain rfl := List.append_cancel_right hmore
  rw [hsplit, List.append_cancel_left hbytes]

/-- **A stream is split at its first empty line.** -/
theorem splitHeader_eq_some_iff {bytes header after : List UInt8} :
    splitHeader bytes = some (header, after) ↔
      IsHeader header ∧ bytes = header ++ emptyLine ++ after := by
  constructor
  · intro h
    exact ⟨isHeader_of_splitHeader h, eq_append_of_splitHeader h⟩
  · rintro ⟨h, rfl⟩
    exact splitHeader_of_isHeader h after

theorem splitHeader_eq_none_iff {bytes : List UInt8} :
    splitHeader bytes = none ↔ ¬ emptyLine <:+: bytes := by
  rw [Option.eq_none_iff_forall_ne_some]
  constructor
  · rintro h ⟨before, after, rfl⟩
    obtain ⟨header, rest, hsplit, -⟩ := exists_splitHeader before after
    exact h _ hsplit
  · rintro h ⟨header, after⟩ hsplit
    exact h ⟨header, after, (eq_append_of_splitHeader hsplit).symm⟩

/-- A text without a carriage return is a header: no empty line begins in it. -/
theorem isHeader_of_not_mem {header : List UInt8} (h : 0x0d ∉ header) : IsHeader header := by
  intro before after hmore
  rw [List.append_assoc] at hmore
  rcases List.append_eq_append_iff.1 hmore with ⟨more, rfl, hline⟩ | ⟨more, rfl, hline⟩
  · have hlengths := congrArg List.length hline
    simp only [List.length_append] at hlengths
    exact List.length_eq_zero_iff.1 (by omega)
  · cases more with
    | nil => exact List.append_right_eq_self.1 hline
    | cons b more =>
      have hb : 0x0d = b := List.head_eq_of_cons_eq hline
      exact absurd (hb ▸ List.mem_append_right _ List.mem_cons_self) h

/-! ### The length in a header -/

/-- Whether a text begins with a length field of these digits: the name in capital or small letters,
then any blanks, and then all digits that follow. -/
structure BeginsWithLength (text digits : List UInt8) : Prop where
  exists_parts : ∃ name blanks rest, text = name ++ blanks ++ digits ++ rest ∧
    name.map lower = lengthField ∧ (∀ b ∈ blanks, isBlank b) ∧ ∀ b ∈ rest.head?, ¬ isDigit b
  ne_nil : digits ≠ []
  isDigit : ∀ b ∈ digits, isDigit b

/-- Whether the first length field in a header has these digits. -/
inductive FirstLength : (header digits : List UInt8) → Prop where
  | here {header digits : List UInt8} (h : BeginsWithLength header digits) :
    FirstLength header digits
  | later {b : UInt8} {header digits : List UInt8}
    (hnot : ∀ digits, ¬ BeginsWithLength (b :: header) digits) (h : FirstLength header digits) :
    FirstLength (b :: header) digits

/-- Whether no length field begins anywhere in a header. -/
def NoLength (header : List UInt8) : Prop :=
  ∀ text, text <:+ header → ∀ digits, ¬ BeginsWithLength text digits

theorem isBlank_of_isDigit {b : UInt8} (h : isDigit b) : isBlank b = false := by
  simp only [isDigit, Bool.and_eq_true, decide_eq_true_eq, UInt8.le_iff_toNat_le] at h
  have hne : b ≠ 0x20 := by
    rintro rfl
    revert h
    decide
  have hgt : ¬ b ≤ 0x0d := by
    rw [UInt8.le_iff_toNat_le]
    have : (0x30 : UInt8).toNat = 48 := rfl
    have : (0x0d : UInt8).toNat = 13 := rfl
    omega
  simp [isBlank, hne, hgt]

theorem beginsWithLength_of_lengthHere? {text digits : List UInt8}
    (h : lengthHere? text = some digits) : BeginsWithLength text digits := by
  unfold lengthHere? at h
  split at h
  · next hname =>
    have hname : (text.take lengthField.length).map lower = lengthField := by
      have hbegins := List.isPrefixOf_iff_prefix.1 hname
      apply (hbegins.eq_of_length_le _).symm
      rw [List.length_map]
      exact List.length_take_le _ _
    split at h
    · cases h
    · next hne =>
      obtain rfl := Option.some.inj h
      refine ⟨⟨text.take lengthField.length,
        (text.drop lengthField.length).takeWhile isBlank,
        ((text.drop lengthField.length).dropWhile isBlank).dropWhile isDigit, ?_, hname,
        fun b => List.mem_takeWhile_imp, ?_⟩, hne, fun b => List.mem_takeWhile_imp⟩
      · rw [List.append_assoc, List.takeWhile_append_dropWhile, List.append_assoc,
          List.takeWhile_append_dropWhile, List.take_append_drop]
      · intro b hb
        have := List.head?_dropWhile_not isDigit ((text.drop lengthField.length).dropWhile isBlank)
        rw [hb] at this
        simpa using this
  · cases h

theorem lengthHere?_of_beginsWithLength {text digits : List UInt8}
    (h : BeginsWithLength text digits) : lengthHere? text = some digits := by
  obtain ⟨⟨name, blanks, rest, rfl, hname, hblanks, hrest⟩, hne, hdigits⟩ := h
  have hlength : name.length = lengthField.length := by rw [← hname, List.length_map]
  have hblank : (digits ++ rest).dropWhile isBlank = digits ++ rest := by
    obtain ⟨d, ds, rfl⟩ := List.exists_cons_of_ne_nil hne
    exact List.dropWhile_cons_of_neg (by simp [isBlank_of_isDigit (hdigits d (by simp))])
  have hmore : rest.takeWhile isDigit = [] := by
    cases rest with
    | nil => rfl
    | cons b rest => exact List.takeWhile_cons_of_neg (hrest b rfl)
  rw [lengthHere?, List.append_assoc, List.append_assoc, List.take_left' hlength,
    List.drop_left' hlength, hname, if_pos (List.isPrefixOf_iff_prefix.2 (List.prefix_refl _)),
    List.dropWhile_append_of_pos hblanks, hblank, List.takeWhile_append_of_pos hdigits, hmore,
    List.append_nil]
  split
  · contradiction
  · rfl

theorem lengthHere?_eq_some_iff {text digits : List UInt8} :
    lengthHere? text = some digits ↔ BeginsWithLength text digits :=
  ⟨beginsWithLength_of_lengthHere?, lengthHere?_of_beginsWithLength⟩

theorem lengthHere?_eq_none_iff {text : List UInt8} :
    lengthHere? text = none ↔ ∀ digits, ¬ BeginsWithLength text digits := by
  simp only [Option.eq_none_iff_forall_ne_some, Ne, lengthHere?_eq_some_iff]

/-- **The length is that of the first length field.** -/
theorem lengthDigits?_eq_some_iff {header digits : List UInt8} :
    lengthDigits? header = some digits ↔ FirstLength header digits := by
  constructor
  · intro h
    induction header with
    | nil => cases h
    | cons b header ih =>
      rw [lengthDigits?] at h
      split at h
      · next hhere =>
        cases h
        exact .here (lengthHere?_eq_some_iff.1 hhere)
      · next hhere => exact .later (lengthHere?_eq_none_iff.1 hhere) (ih h)
  · intro h
    induction h with
    | @here header digits h =>
      have hhere := lengthHere?_eq_some_iff.2 h
      cases header with
      | nil => cases hhere
      | cons b header => rw [lengthDigits?, hhere]
    | later hnot h ih => rw [lengthDigits?, lengthHere?_eq_none_iff.2 hnot, ih]

theorem noLength_cons {b : UInt8} {header : List UInt8} :
    NoLength (b :: header) ↔ (∀ digits, ¬ BeginsWithLength (b :: header) digits) ∧ NoLength header := by
  simp only [NoLength, List.suffix_cons_iff, forall_eq_or_imp]

/-- A header gives no length if no length field begins anywhere in it. -/
theorem lengthDigits?_eq_none_iff {header : List UInt8} :
    lengthDigits? header = none ↔ NoLength header := by
  induction header with
  | nil =>
    simp only [lengthDigits?, NoLength, List.suffix_nil, forall_eq, true_iff]
    exact lengthHere?_eq_none_iff.1 (by decide)
  | cons b header ih =>
    rw [noLength_cons, ← ih, ← lengthHere?_eq_none_iff, lengthDigits?]
    cases lengthHere? (b :: header) <;> simp

/-! ### The front -/

/-- A header and the payload of the length that it gives are the front of every stream that begins
with them. -/
theorem front_sized {header digits : List UInt8} (hheader : IsHeader header)
    (hlength : FirstLength header digits) (hdigits : digits.length ≤ Numeral.maxDigits)
    {payload : List UInt8} (hsize : digitsValue digits = payload.length) (rest : List UInt8) :
    front (header ++ emptyLine ++ payload ++ rest) = payloadFront payload rest := by
  rw [List.append_assoc (header ++ emptyLine)]
  simp only [front, splitHeader_of_isHeader hheader, lengthDigits?_eq_some_iff.2 hlength, hsize]
  rw [if_neg (Nat.not_lt.2 hdigits), if_neg (by simp), List.take_left, List.drop_left]

end PageScript.Frame
