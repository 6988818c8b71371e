import Mathlib.Data.Nat.Log
import Mathlib.Order.Monotone.Basic
import Mathlib.Tactic.Ring
import PageScript.Number.Double

/-!
Magnitudes of finite doubles. They grow with the rank, so no two ranks have the same one, and
rounding leaves alone what is a magnitude already: a number of units that takes at most 53 binary
places is met exactly.
-/
namespace PageScript.Double

theorem block_pos : 0 < block := by decide

/-! ### Magnitudes by rank -/

/-- In the first two blocks the steps are single units. -/
theorem magnitude_of_lt {rank : Nat} (h : rank < 2 * block) : magnitude rank = rank := by
  have hquot : rank / block < 2 := (Nat.div_lt_iff_lt_mul block_pos).2 h
  have hscale : scale rank = 0 := by
    unfold scale
    omega
  rw [magnitude, hscale, significand]
  split
  · exact Nat.mul_one rank
  · next hge =>
    have hquot' : 1 ≤ rank / block := (Nat.le_div_iff_mul_le block_pos).2 (by omega)
    have hmod := Nat.mod_add_div rank block
    rw [show rank / block = 1 by omega] at hmod
    show (block + rank % block) * 1 = rank
    omega

/-- From the second block on, each block has steps twice as large as the one before it. -/
theorem magnitude_add {q : Nat} (hlow : block ≤ q) (hhigh : q < 2 * block) (s : Nat) :
    magnitude (s * block + q) = q * 2 ^ s := by
  obtain ⟨r, rfl⟩ := Nat.exists_eq_add_of_le hlow
  have hr : r < block := by omega
  have hrank : s * block + (block + r) = r + block * (s + 1) := by ring
  have hscale : scale (r + block * (s + 1)) = s := by
    rw [scale, Nat.add_mul_div_left _ _ block_pos, Nat.div_eq_of_lt hr]
    omega
  have hsignificand : significand (r + block * (s + 1)) = block + r := by
    have hge : ¬ r + block * (s + 1) < block := by
      have := Nat.le_mul_of_pos_right block (Nat.succ_pos s)
      omega
    rw [significand, if_neg hge, Nat.add_mul_mod_self_left, Nat.mod_eq_of_lt hr]
  rw [hrank, magnitude, hscale, hsignificand]
  rfl

/-- A rank behind the first block, as its block and its place there. -/
theorem exists_eq_add {rank : Nat} (h : block ≤ rank) :
    ∃ s q, rank = s * block + q ∧ block ≤ q ∧ q < 2 * block := by
  have hmod := Nat.mod_lt rank block_pos
  have hquot : 1 ≤ rank / block := (Nat.le_div_iff_mul_le block_pos).2 (by omega)
  refine ⟨rank / block - 1, block + rank % block, ?_, by omega, by omega⟩
  calc rank = rank / block * block + rank % block := (Nat.div_add_mod' rank block).symm
    _ = (rank / block - 1 + 1) * block + rank % block := by rw [Nat.sub_add_cancel hquot]
    _ = (rank / block - 1) * block + (block + rank % block) := by ring

theorem magnitude_lt_succ (rank : Nat) : magnitude rank < magnitude (rank + 1) := by
  have hpos := block_pos
  by_cases hfirst : rank < block
  · rw [magnitude_of_lt (by omega), magnitude_of_lt (by omega)]
    omega
  obtain ⟨s, q, rfl, hlow, hhigh⟩ := exists_eq_add (Nat.le_of_not_lt hfirst)
  have hstep : q * 2 ^ s < (q + 1) * 2 ^ s :=
    Nat.mul_lt_mul_of_pos_right (Nat.lt_succ_self q) (Nat.two_pow_pos s)
  rw [magnitude_add hlow hhigh]
  by_cases hlast : q + 1 < 2 * block
  · rw [Nat.add_assoc, magnitude_add (by omega) hlast]
    exact hstep
  · -- The next rank is the first of the next block.
    have hq : q + 1 = 2 * block := by omega
    have hnext : s * block + q + 1 = (s + 1) * block + block := by
      rw [Nat.add_assoc, hq]
      ring
    rw [hnext, magnitude_add le_rfl (by omega)]
    calc q * 2 ^ s < (q + 1) * 2 ^ s := hstep
      _ = block * 2 ^ (s + 1) := by rw [hq]; ring

theorem magnitude_strictMono : StrictMono magnitude := strictMono_nat_of_lt_succ magnitude_lt_succ

theorem magnitude_eq_zero_iff {rank : Nat} : magnitude rank = 0 ↔ rank = 0 := by
  have hzero : magnitude 0 = 0 := magnitude_of_lt (Nat.mul_pos Nat.two_pos block_pos)
  calc magnitude rank = 0 ↔ magnitude rank = magnitude 0 := by rw [hzero]
    _ ↔ rank = 0 := magnitude_strictMono.injective.eq_iff

theorem dvd_magnitude (rank : Nat) : 2 ^ scale rank ∣ magnitude rank :=
  Nat.dvd_mul_left _ (significand rank)

theorem magnitude_lt (rank : Nat) : magnitude rank < 2 ^ (53 + scale rank) := by
  have hsignificand : significand rank < 2 ^ 53 := by
    have hmod := Nat.mod_lt rank block_pos
    have hblock : block + block = 2 ^ 53 := by decide
    unfold significand
    split <;> omega
  rw [Nat.pow_add]
  exact Nat.mul_lt_mul_of_pos_right hsignificand (Nat.two_pow_pos (scale rank))

theorem scale_le {rank : Nat} (h : rank < magnitudes) : scale rank ≤ 2045 := by
  have hquot : rank / block < 2047 := (Nat.div_lt_iff_lt_mul block_pos).2 h
  unfold scale
  omega

/-! ### Rounding what needs no rounding -/

/-- A whole number of steps is rounded to its own rank. -/
theorem nearestRank_mul {q s : Nat} (hshift : (q * 2 ^ s).log2 - 52 = s) :
    nearestRank (q * 2 ^ s) 1 = s * block + q := by
  have hstep : 0 < 2 ^ s := Nat.two_pow_pos s
  have htie : ¬ 0 = 2 ^ s := Nat.ne_of_lt hstep
  simp [nearestRank, Nat.pow_eq, hshift, htie, Nat.mul_div_cancel q hstep]

/-- What takes more than 53 binary places is counted in steps of its block. -/
theorem block_le_of_log2 {q s : Nat} (hs : 0 < s) (hshift : (q * 2 ^ s).log2 - 52 = s) :
    block ≤ q := by
  have hpos : q * 2 ^ s ≠ 0 := by
    intro hzero
    rw [hzero, Nat.log2_zero] at hshift
    omega
  have hlow := Nat.log2_self_le hpos
  rw [show (q * 2 ^ s).log2 = 52 + s by omega, Nat.pow_add] at hlow
  exact Nat.le_of_mul_le_mul_right hlow (Nat.two_pow_pos s)

/-- **Rounding is exact** on what takes at most 53 binary places from some place on, unless it is
too large for a double. -/
theorem exists_round_eq {k e : Nat} (hdvd : 2 ^ e ∣ k) (hlt : k < 2 ^ (53 + e)) (he : e ≤ 2045)
    (negative : Bool) :
    ∃ rank : Fin magnitudes, round negative k 1 = finite negative rank ∧ magnitude rank = k := by
  have hlog : k.log2 < 53 + e := by
    by_cases hk : k = 0
    · rw [hk, Nat.log2_zero]
      omega
    · exact (Nat.log2_lt hk).2 hlt
  obtain ⟨s, hs⟩ : ∃ s, k.log2 - 52 = s := ⟨_, rfl⟩
  obtain ⟨q, rfl⟩ : ∃ q, k = q * 2 ^ s :=
    exists_eq_mul_left_of_dvd ((Nat.pow_dvd_pow 2 (by omega)).trans hdvd)
  have hq : q < 2 * block := by
    have hhigh : q * 2 ^ s < 2 ^ (53 + s) :=
      Nat.lt_log2_self.trans_le (Nat.pow_le_pow_right Nat.two_pos (by omega))
    rw [Nat.pow_add] at hhigh
    exact Nat.lt_of_mul_lt_mul_right hhigh
  have hmagnitude : magnitude (s * block + q) = q * 2 ^ s := by
    rcases Nat.eq_zero_or_pos s with rfl | hpos
    · rw [Nat.zero_mul, Nat.zero_add, magnitude_of_lt hq, Nat.pow_zero, Nat.mul_one]
    · exact magnitude_add (block_le_of_log2 hpos hs) hq s
  have hrank : s * block + q < magnitudes := by
    have hle : s * block ≤ 2045 * block := Nat.mul_le_mul_right block (by omega)
    show s * block + q < 2047 * block
    omega
  refine ⟨⟨s * block + q, hrank⟩, ?_, hmagnitude⟩
  rw [round, nearestRank_mul hs, ofRank, dif_pos hrank]

end PageScript.Double
