import Mathlib.Algebra.Group.Int.Defs
import Mathlib.Algebra.Group.Nat.Defs
import PageScript.Node.Reader

/-!
Decimal text: the digits of a natural number are read as that number. Integers with more digits than
`Numeral.maxDigits` are neither read nor written.
-/
namespace PageScript.Numeral
open Text

theorem digitValue?_of_isDigit {c : Char} (h : c.isDigit) : digitValue? c = some (c.toNat - 48) := by
  rw [digitValue?, if_pos h]

theorem toNat_of_isDigit {c : Char} (h : c.isDigit) : 48 ≤ c.toNat ∧ c.toNat ≤ 57 := by
  simpa [Char.isDigit, UInt32.le_iff_toNat_le] using h

theorem ne_underscore {c : Char} (h : c.isDigit) : c ≠ '_' := by
  rintro rfl
  revert h
  decide

/-- ASCII digits are read one by one. -/
theorem digitsAfter_of_isDigit {cs : List Char} (h : ∀ c ∈ cs, c.isDigit) {previous : Char}
    (hprevious : previous ≠ '_') :
    digitsAfter previous cs = some (cs.map fun c => c.toNat - 48) := by
  induction cs generalizing previous with
  | nil => simp [digitsAfter, hprevious]
  | cons c cs ih =>
    have hc : c.isDigit := h c (by simp)
    have hcs := ih (fun d hd => h d (by simp [hd])) (ne_underscore hc)
    simp [digitsAfter, ne_underscore hc, digitValue?_of_isDigit hc, hcs]

theorem isMargin_of_isDigit {c : Char} (h : c.isDigit) : isMargin c = false := by
  obtain ⟨hlow, hhigh⟩ := toNat_of_isDigit h
  have hblank : isBlank c = false := by
    simp only [isBlank]
    grind
  simp [isMargin, hblank]

/-- A text without any margin is left as it is. -/
theorem trim_eq_self {cs : List Char} (h : ∀ c ∈ cs, isMargin c = false) : trim cs = cs := by
  have hdrop : ∀ {cs : List Char}, (∀ c ∈ cs, isMargin c = false) →
      cs.dropWhile isMargin = cs := by
    intro cs h
    cases cs with
    | nil => rfl
    | cons c cs => simp [h c (by simp)]
  have hreverse : ∀ c ∈ cs.reverse, isMargin c = false := by simpa using h
  rw [trim, hdrop h, hdrop hreverse, List.reverse_reverse]

theorem sign_of_isDigit {cs : List Char} (h : ∀ c ∈ cs, c.isDigit) : sign cs = (false, cs) := by
  unfold sign
  split
  · exact absurd (h '-' (by simp)) (by decide)
  · exact absurd (h '+' (by simp)) (by decide)
  · rfl

theorem ofDigits_map (cs : List Char) :
    ofDigits (cs.map fun c => c.toNat - 48) = Nat.ofDigitChars 10 cs 0 := by
  rw [ofDigits, List.foldl_map, Nat.ofDigitChars_eq_foldl]
  rfl

/-- The digits of a natural number that is not too long are read as that number. -/
theorem digits?_toDigits {n : Nat} (h : n < 10 ^ maxDigits) :
    ∃ ds, digits? (Nat.toDigits 10 n) = some ds ∧ ofDigits ds = n ∧
      ds ≠ [] ∧ ds.length ≤ maxDigits := by
  have hdigits : ∀ c ∈ Nat.toDigits 10 n, c.isDigit :=
    fun c hc => Nat.isDigit_of_mem_toDigits (by omega) (by omega) hc
  have hlength : (Nat.toDigits 10 n).length ≤ maxDigits :=
    (Nat.length_toDigits_le_iff (by omega) (by decide)).2 h
  refine ⟨_, digitsAfter_of_isDigit hdigits (by decide), ?_, ?_⟩
  · rw [ofDigits_map, Nat.ofDigitChars_ten_toDigits]
  · simpa [Nat.toDigits_ne_nil] using hlength

/-- The decimal text of a natural number that is not too long is read as that number. -/
theorem integer?_repr {n : Nat} (h : n < 10 ^ maxDigits) : integer? n.repr = some (n : Int) := by
  have hdigits : ∀ c ∈ Nat.toDigits 10 n, c.isDigit :=
    fun c hc => Nat.isDigit_of_mem_toDigits (by omega) (by omega) hc
  obtain ⟨ds, hds, hvalue, hne, hlength⟩ := digits?_toDigits h
  have htrim : trim (Nat.toDigits 10 n) = Nat.toDigits 10 n :=
    trim_eq_self fun c hc => isMargin_of_isDigit (hdigits c hc)
  simp only [integer?, Nat.toList_repr, htrim, sign_of_isDigit hdigits, hds]
  simp [hne, hlength, hvalue]

/-- The decimal text of an integer that is not too long is read as that integer. -/
theorem integer?_toString {n : Int} (h : n.natAbs < 10 ^ maxDigits) :
    integer? (toString n) = some n := by
  cases n with
  | ofNat n => exact integer?_repr h
  | negSucc n =>
    obtain ⟨ds, hds, hvalue, hne, hlength⟩ := digits?_toDigits (show n + 1 < 10 ^ maxDigits from h)
    have htext : (toString (Int.negSucc n)).toList = '-' :: Nat.toDigits 10 (n + 1) := by
      simp [Int.repr_eq_if]
    have htrim : trim ('-' :: Nat.toDigits 10 (n + 1)) = '-' :: Nat.toDigits 10 (n + 1) := by
      apply trim_eq_self
      intro c hc
      rcases List.mem_cons.1 hc with rfl | hc
      · decide
      · exact isMargin_of_isDigit (Nat.isDigit_of_mem_toDigits (by omega) (by omega) hc)
    simp only [integer?, htext, htrim, sign, hds]
    simp [hne, hlength, hvalue, Int.negSucc_eq]

end PageScript.Numeral

namespace PageScript.Number

/-- An integer has more decimal digits than are ever shown. -/
def IsLong (n : Int) : Prop := Numeral.maxDigits < (Nat.toDigits 10 n.natAbs).length

theorem maxDigits_pos : 0 < Numeral.maxDigits := by decide

theorem isLong_iff {n : Int} : IsLong n ↔ 10 ^ Numeral.maxDigits ≤ n.natAbs := by
  rw [IsLong, ← Nat.not_le, Nat.length_toDigits_le_iff (by decide) maxDigits_pos, Nat.not_lt]

theorem fitsText_eq_false_iff {n : Int} : fitsText n = false ↔ IsLong n := by
  rw [isLong_iff]
  unfold fitsText
  generalize Numeral.maxDigits = digits
  simp

theorem fitsText_iff {n : Int} : fitsText n ↔ ¬ IsLong n := by
  rw [← fitsText_eq_false_iff, Bool.not_eq_false]

theorem natAbs_lt_of_fitsText {n : Int} (h : fitsText n) : n.natAbs < 10 ^ Numeral.maxDigits := by
  unfold fitsText at h
  generalize Numeral.maxDigits = digits at h ⊢
  simpa using h

end PageScript.Number

namespace PageScript.Reader

theorem lt_of_fitsText {n : Nat} (h : Number.fitsText n) : n < 10 ^ Numeral.maxDigits :=
  Number.natAbs_lt_of_fitsText h

/-- The decimal text of a natural number that is not too long is a number token of that value. -/
theorem numberValue?_repr {n : Nat} (h : n < 10 ^ Numeral.maxDigits) :
    numberValue? n.repr = some (.integer n) := by
  have hpoint : '.' ∉ n.repr.toList := by
    intro hmem
    rw [Nat.toList_repr] at hmem
    exact absurd (Nat.isDigit_of_mem_toDigits (by omega) (by omega) hmem) (by decide)
  have hcontains : n.repr.toList.contains '.' = false := by simpa using hpoint
  rw [numberValue?, hcontains, Numeral.integer?_repr h]
  rfl

end PageScript.Reader
