import Mathlib.Algebra.Order.Field.Basic
import Mathlib.Tactic.Linarith
import PageScript.Evaluation.Operators
import PageScript.Proofs.Number.Exact

/-!
The remainder operator. It takes away as many multiples of the right operand as fit into the left
one, toward zero, and what it gives is exact: of two integers an integer, of two finite doubles a
double.
-/
namespace PageScript

/-- `m` is what is left of `l` without a multiple of `r`: less than `r` in magnitude, and on the
side of zero on which `l` is. -/
structure IsRemainder (l r m : ℚ) : Prop where
  multiple : ∃ k : ℤ, l - m = k * r
  small : |m| < |r|
  side : m = 0 ∨ (0 < m ∧ 0 < l) ∨ (m < 0 ∧ l < 0)

/-- Remainders do not depend on the unit that is measured with. -/
theorem IsRemainder.div {l r m : ℚ} (h : IsRemainder l r m) {unit : ℚ} (hunit : 0 < unit) :
    IsRemainder (l / unit) (r / unit) (m / unit) where
  multiple := by
    obtain ⟨k, hk⟩ := h.multiple
    exact ⟨k, by rw [← sub_div, hk, mul_div_assoc]⟩
  small := by
    rw [abs_div, abs_div, div_lt_div_iff_of_pos_right (abs_pos.2 hunit.ne')]
    exact h.small
  side := by
    rcases h.side with hm | ⟨hm, hl⟩ | ⟨hm, hl⟩
    · exact .inl (by rw [hm, zero_div])
    · exact .inr (.inl ⟨div_pos hm hunit, div_pos hl hunit⟩)
    · exact .inr (.inr ⟨div_neg_of_neg_of_pos hm hunit, div_neg_of_neg_of_pos hl hunit⟩)

/-! ### Integers -/

/-- The remainder of a truncated division is the remainder of the magnitudes with the sign of the
dividend. -/
theorem tmod_eq (l r : Int) :
    l.tmod r = if 0 ≤ l then ↑(l.natAbs % r.natAbs) else -↑(l.natAbs % r.natAbs) := by
  cases l <;> cases r <;> rfl

theorem isRemainder_tmod (l : Int) {r : Int} (hr : r ≠ 0) : IsRemainder l r (l.tmod r) where
  multiple := by
    have hdivision : l - l.tmod r = l.tdiv r * r := by
      have := Int.mul_tdiv_add_tmod l r
      linarith
    exact ⟨l.tdiv r, by exact_mod_cast hdivision⟩
  small := by
    have hlt : l.natAbs % r.natAbs < r.natAbs := Nat.mod_lt _ (Int.natAbs_pos.2 hr)
    have habs : |l.tmod r| < |r| := by
      rw [Int.abs_eq_natAbs, Int.abs_eq_natAbs, Int.natAbs_tmod]
      exact_mod_cast hlt
    exact_mod_cast habs
  side := by
    have hle : l.natAbs % r.natAbs ≤ l.natAbs := Nat.mod_le _ _
    have hside : l.tmod r = 0 ∨ (0 < l.tmod r ∧ 0 < l) ∨ (l.tmod r < 0 ∧ l < 0) := by
      rw [tmod_eq]
      split <;> omega
    exact_mod_cast hside

namespace Number

/-- A number is negative if it stands below zero. -/
theorem zero_lessOrEqual {a : Number} {units : Int} (h : a.place? = some (.point units)) :
    (integer 0).lessOrEqual a = decide (0 ≤ units) := by
  have hzero : (integer 0).place? = some (.point 0) := by
    rw [place?, Int.zero_mul]
  rw [lessOrEqual, hzero, h]
  show (decide (0 < units) || Place.point 0 == Place.point units) = decide (0 ≤ units)
  rw [Bool.eq_iff_iff, Bool.or_eq_true, decide_eq_true_iff, beq_iff_eq, Place.point.injEq,
    decide_eq_true_iff]
  omega

theorem rem_integers (l r : Int) : rem (integer l) (integer r) = some (integer (l.tmod r)) := by
  have hsign : (integer 0).lessOrEqual (integer l) = decide (0 ≤ l) := by
    rw [zero_lessOrEqual rfl, decide_eq_decide]
    exact mul_nonneg_iff_of_pos_right (Int.natCast_pos.2 Double.one_pos)
  have hrest : (l.natAbs : Int).tmod r.natAbs = (l.natAbs % r.natAbs : Nat) := rfl
  show some (if (integer 0).lessOrEqual (integer l) then integer ((l.natAbs : Int).tmod r.natAbs)
    else neg (integer ((l.natAbs : Int).tmod r.natAbs))) = _
  rw [hsign, hrest, tmod_eq]
  by_cases hl : 0 ≤ l
  · simp [hl]
  · simp [hl, neg]

/-! ### Doubles -/

open Double in
/-- The remainder of two magnitudes takes no more binary places than one of them, so no rounding
touches it. -/
theorem exists_rem_eq (negative negative' : Bool) (a : Fin magnitudes) {b : Fin magnitudes}
    (hb : b.val ≠ 0) :
    ∃ rank : Fin magnitudes,
      Double.rem (finite negative a) (finite negative' b) = finite false rank ∧
        magnitude rank = magnitude a % magnitude b := by
  have hpos : 0 < magnitude b := Nat.pos_of_ne_zero (mt magnitude_eq_zero_iff.1 hb)
  have hlt : magnitude a % magnitude b < magnitude b := Nat.mod_lt _ hpos
  have hle : magnitude a % magnitude b ≤ magnitude a := Nat.mod_le _ _
  have hround (e : Nat) (hea : e ≤ scale a) (heb : e ≤ scale b) (he : e ≤ 2045)
      (hplaces : magnitude a % magnitude b < 2 ^ (53 + e)) := by
    have hdvda := (Nat.pow_dvd_pow 2 hea).trans (dvd_magnitude a)
    have hdvdb := (Nat.pow_dvd_pow 2 heb).trans (dvd_magnitude b)
    exact exists_round_eq ((Nat.dvd_mod_iff hdvdb).2 hdvda) hplaces he false
  rw [Double.rem, if_neg hb]
  rcases Nat.le_total (scale a) (scale b) with hscale | hscale
  · exact hround (scale a) le_rfl hscale (scale_le a.isLt) (hle.trans_lt (magnitude_lt a))
  · exact hround (scale b) hscale le_rfl (scale_le b.isLt) (hlt.trans (magnitude_lt b))

open Double in
/-- The remainder of two finite doubles is that of their units. -/
theorem exists_rem_doubles (negative negative' : Bool) (a : Fin magnitudes) {b : Fin magnitudes}
    (hb : b.val ≠ 0) :
    ∃ (sign : Bool) (rank : Fin magnitudes),
      rem (double (finite negative a)) (double (finite negative' b)) =
          some (double (finite sign rank)) ∧
        units sign rank = (units negative a).tmod (units negative' b) := by
  obtain ⟨rank, hrem, hrank⟩ := exists_rem_eq false false a hb
  have hrest : rem (double (finite negative a)) (double (finite negative' b)) =
      some (if (integer 0).lessOrEqual (double (finite negative a)) then double (finite false rank)
        else double (finite true rank)) := by
    show some (if (integer 0).lessOrEqual (double (finite negative a)) then
      double (Double.rem (finite false a) (finite false b))
      else neg (double (Double.rem (finite false a) (finite false b)))) = _
    rw [hrem]
    rfl
  rw [hrest, zero_lessOrEqual rfl, tmod_eq, natAbs_units, natAbs_units, ← hrank]
  by_cases hsign : 0 ≤ units negative a
  · exact ⟨false, rank, by simp [hsign], (if_pos hsign).symm⟩
  · exact ⟨true, rank, by simp [hsign], (if_neg hsign).symm⟩

end Number

namespace Operators
open Value (int)

/-- A remainder with a divisor other than zero is calculated. -/
theorem binary_percent {a b m : Number} (hb : b.isZero = false) (h : a.rem b = some m) :
    binary "%" (.number a) (.number b) = .ok (.number m) := by
  have hcalculate :
      binary "%" (.number a) (.number b) = calculate "%" (.number a) (.number b) := rfl
  have harithmetic : arithmetic? "%" = some Number.rem := rfl
  simp only [hcalculate, calculate, numbers, harithmetic]
  simp [bind, Except.bind, pure, Except.pure, hb, h]

/-- **The remainder operator is exact.** Any two integers, the right one other than zero, give the
integer that a division truncated toward zero leaves. Any two finite doubles, the right one other
than zero, give a finite double. In both cases the exact values differ by a multiple of the right
operand, and the remainder is smaller than that and on the side of zero of the left operand. -/
theorem remainder_exact :
    (∀ l r : Int, r ≠ 0 →
      binary "%" (int l) (int r) = .ok (int (l.tmod r)) ∧ l = r * l.tdiv r + l.tmod r ∧
        IsRemainder l r (l.tmod r)) ∧
    ∀ (l r : Double) (p q : ℚ), l.rational? = some p → r.rational? = some q → q ≠ 0 →
      ∃ d m, binary "%" (.number (.double l)) (.number (.double r)) = .ok (.number (.double d)) ∧
        d.rational? = some m ∧ IsRemainder p q m := by
  constructor
  · intro l r hr
    refine ⟨?_, (Int.mul_tdiv_add_tmod l r).symm, isRemainder_tmod l hr⟩
    exact binary_percent (beq_eq_false_iff_ne.2 hr) (Number.rem_integers l r)
  · intro l r p q hl hr hq
    cases l with
    | nan | infinite => cases hl
    | finite negative a =>
      cases r with
      | nan | infinite => cases hr
      | finite negative' b =>
        cases hl
        cases hr
        have hunits : Double.units negative' b ≠ 0 := by
          intro hzero
          exact hq (by rw [hzero, Int.cast_zero, zero_div])
        have hb : b.val ≠ 0 := by
          intro hzero
          apply hunits
          rw [← Int.natAbs_eq_zero, Double.natAbs_units, hzero]
          rfl
        obtain ⟨sign, rank, hrem, hvalue⟩ := Number.exists_rem_doubles negative negative' a hb
        refine ⟨_, _, binary_percent (beq_eq_false_iff_ne.2 hb) hrem, rfl, ?_⟩
        rw [hvalue]
        exact (isRemainder_tmod _ hunits).div (Nat.cast_pos.2 Double.one_pos)

/-- The remainder of `-7` by `2` is `-1`, and that of the least finite double by three times the
smallest positive one is exact as well. -/
theorem remainder_exact_extremes :
    let least : Double := .finite true ⟨Double.magnitudes - 1, by decide⟩
    let small : Double := .finite false ⟨3, by decide⟩
    ((2 : Int) ≠ 0 ∧ binary "%" (int (-7)) (int 2) = .ok (int (-1))) ∧
      ∃ p q, least.rational? = some p ∧ small.rational? = some q ∧ q ≠ 0 ∧
        ∃ d m, binary "%" (.number (.double least)) (.number (.double small)) =
            .ok (.number (.double d)) ∧ d.rational? = some m ∧ IsRemainder p q m := by
  intro least small
  have hone : ((Double.one : ℕ) : ℚ) ≠ 0 := Nat.cast_ne_zero.2 (Nat.ne_of_gt Double.one_pos)
  have hsmall : (Double.units false 3 : ℚ) / (Double.one : ℕ) ≠ 0 :=
    div_ne_zero (Int.cast_ne_zero.2 (by decide)) hone
  refine ⟨⟨by decide, (remainder_exact.1 (-7) 2 (by decide)).1⟩, _, _, rfl, rfl, hsmall, ?_⟩
  exact remainder_exact.2 least small _ _ rfl rfl hsmall

end Operators
end PageScript
