import Mathlib.Algebra.Order.Field.Power
import Mathlib.Algebra.Order.Field.Rat
import Mathlib.Data.List.TakeWhile
import Mathlib.Data.Rat.Cast.Order
import Mathlib.Tactic.FieldSimp
import Mathlib.Tactic.Linarith
import PageScript.Number.Shortest
import PageScript.Proofs.Number.Magnitude
import PageScript.Text.Split

/-!
The text of a double tells it from all others. The decimal that is written reads back as the
magnitude it is written for, and a decimal reads back as one magnitude only: where the ranges of
two neighbours meet, the point between them belongs to the one of even rank. Which decimal is meant
can be seen from its text.
-/
namespace PageScript.Double
namespace Decimal

/-! ### The number that a decimal stands for -/

def value (d : Decimal) : ℚ := d.digits * 10 ^ d.exponent

theorem zpow_toNat (e : ℤ) : (10 : ℚ) ^ e.toNat = 10 ^ e * 10 ^ (-e).toNat := by
  rw [← zpow_natCast, ← zpow_natCast, ← zpow_add₀ (by norm_num)]
  congr 1
  omega

/-- The fraction of a decimal is its value in units. -/
theorem fraction_eq (d : Decimal) :
    0 < d.fraction.2 ∧ (d.fraction.1 : ℚ) = d.value * (one : ℕ) * d.fraction.2 := by
  constructor
  · exact Nat.pow_pos (by decide)
  · simp only [fraction, value]
    generalize one = unit
    simp only [Nat.pow_eq, Nat.cast_mul, Nat.cast_pow, Nat.cast_ofNat]
    rw [zpow_toNat]
    ring

/-! ### Reading back -/

/-- Twice the point half-way from a magnitude to the next one. -/
def boundary (rank : ℕ) : ℕ := magnitude rank + magnitude (rank + 1)

theorem boundary_strictMono : StrictMono boundary := fun _ _ h =>
  Nat.add_lt_add (magnitude_strictMono h) (magnitude_strictMono (Nat.succ_lt_succ h))

/-- Twice the point half-way from the magnitude before down to the one at a rank. -/
def lowerBoundary (rank : ℕ) : ℕ := magnitude (rank - 1) + magnitude rank

theorem lowerBoundary_succ (rank : ℕ) : lowerBoundary (rank + 1) = boundary rank := rfl

/-- What it is for a decimal to read back, said of its value. -/
theorem readsAs_iff {d : Decimal} {rank : ℕ} :
    d.readsAs rank ↔
      if rank % 2 = 0 then
        (lowerBoundary rank : ℚ) ≤ 2 * (d.value * (one : ℕ)) ∧
          2 * (d.value * (one : ℕ)) ≤ boundary rank
      else
        (lowerBoundary rank : ℚ) < 2 * (d.value * (one : ℕ)) ∧
          2 * (d.value * (one : ℕ)) < boundary rank := by
  obtain ⟨hpos, hfraction⟩ := d.fraction_eq
  have hden : (0 : ℚ) < d.fraction.2 := Nat.cast_pos.2 hpos
  have hnum : ((2 * d.fraction.1 : ℕ) : ℚ) = 2 * (d.value * (one : ℕ)) * d.fraction.2 := by
    rw [Nat.cast_mul, hfraction]
    generalize ((one : ℕ) : ℚ) = unit
    push_cast
    ring
  have hle (n : ℕ) : n * d.fraction.2 ≤ 2 * d.fraction.1 ↔
      (n : ℚ) ≤ 2 * (d.value * (one : ℕ)) := by
    rw [← Nat.cast_le (α := ℚ), hnum, Nat.cast_mul, mul_le_mul_iff_left₀ hden]
  have hge (n : ℕ) : 2 * d.fraction.1 ≤ n * d.fraction.2 ↔
      2 * (d.value * (one : ℕ)) ≤ (n : ℚ) := by
    rw [← Nat.cast_le (α := ℚ), hnum, Nat.cast_mul, mul_le_mul_iff_left₀ hden]
  have hreads : d.readsAs rank =
      if rank % 2 = 0 then
        lowerBoundary rank * d.fraction.2 ≤ 2 * d.fraction.1 &&
          2 * d.fraction.1 ≤ boundary rank * d.fraction.2
      else
        lowerBoundary rank * d.fraction.2 < 2 * d.fraction.1 &&
          2 * d.fraction.1 < boundary rank * d.fraction.2 := rfl
  rw [hreads]
  split
  · simp only [Bool.and_eq_true, decide_eq_true_eq]
    exact and_congr (hle _) (hge _)
  · simp only [Bool.and_eq_true, decide_eq_true_eq]
    exact and_congr (not_le.symm.trans ((not_congr (hge _)).trans not_le))
      (not_le.symm.trans ((not_congr (hle _)).trans not_le))

theorem readsAs_congr {d d' : Decimal} (h : d.value = d'.value) (rank : ℕ) :
    d.readsAs rank ↔ d'.readsAs rank := by
  rw [readsAs_iff, readsAs_iff, h]

/-- **A decimal reads back as one magnitude only.** -/
theorem eq_of_readsAs {d : Decimal} {rank rank' : ℕ} (h : d.readsAs rank)
    (h' : d.readsAs rank') : rank = rank' := by
  wlog hlt : rank < rank' generalizing rank rank'
  · rcases Nat.lt_or_ge rank' rank with hgt | hge
    · exact (this h' h hgt).symm
    · omega
  exfalso
  obtain ⟨before, rfl⟩ : ∃ before, rank' = before + 1 := ⟨rank' - 1, by omega⟩
  rw [readsAs_iff] at h h'
  rw [lowerBoundary_succ] at h'
  have hmono : (boundary rank : ℚ) ≤ boundary before :=
    Nat.cast_le.2 (boundary_strictMono.monotone (by omega))
  generalize 2 * (d.value * (one : ℕ)) = twice at h h'
  -- The ranges meet in one point at most, and it belongs to both only if both ranks are even.
  have hup : twice ≤ boundary rank := by split at h <;> linarith [h.2]
  have hdown : (boundary before : ℚ) ≤ twice := by split at h' <;> linarith [h'.1]
  have hsame : boundary rank = boundary before :=
    Nat.cast_injective (le_antisymm hmono (hdown.trans hup))
  obtain rfl := boundary_strictMono.injective hsame
  split at h
  · next heven =>
    rw [if_neg (by omega)] at h'
    exact absurd (hup.trans_lt h'.1) (lt_irrefl _)
  · exact absurd (h.2.trans_le hdown) (lt_irrefl _)

/-- The zeros that digits end in do not count. -/
theorem value_strip (fuel : ℕ) (d : Decimal) : (d.strip fuel).value = d.value := by
  fun_induction strip fuel d with
  | case1 => rfl
  | case2 fuel d h ih =>
    obtain ⟨-, hzero⟩ : d.digits ≠ 0 ∧ d.digits % 10 = 0 := by simpa using h
    have hwhole : d.digits = d.digits / 10 * 10 := by omega
    have hdigits : (d.digits : ℚ) = ((d.digits / 10 : ℕ) : ℚ) * 10 := by exact_mod_cast hwhole
    rw [ih, value, value, hdigits]
    simp only
    rw [zpow_add_one₀ (by norm_num)]
    ring
  | case3 => rfl

end Decimal

open Decimal

theorem readsAs_of_ofDigits? {rank count : ℕ} {d : Decimal} (h : ofDigits? rank count = some d) :
    d.readsAs rank := by
  unfold ofDigits? at h
  split at h
  split at h
  split at h
  · next hreads =>
    cases h
    exact hreads
  split at h
  · next hreads =>
    cases h
    exact hreads
  · cases h

/-- The exact value of a magnitude, written out. -/
theorem value_exact (n : ℕ) {places unit : ℕ} {e : ℤ} (hunit : unit = Nat.pow 2 places)
    (he : e = -places) : value ⟨n * Nat.pow 5 places, e⟩ * unit = n := by
  subst hunit he
  simp only [value, Nat.pow_eq, Nat.cast_mul, Nat.cast_pow, Nat.cast_ofNat, zpow_neg, zpow_natCast]
  rw [show (10 : ℚ) = 5 * 2 by norm_num, mul_pow]
  field_simp

/-- **The shortest decimal reads back.** -/
theorem readsAs_shortest {rank : ℕ} (h : 0 < rank) : (shortest rank).readsAs rank := by
  unfold shortest
  split
  · next d hd =>
    obtain ⟨k, -, hk⟩ := List.exists_of_findSome?_eq_some hd
    rw [readsAs_congr (value_strip 400 d)]
    exact readsAs_of_ofDigits? hk
  · have hbelow : magnitude (rank - 1) < magnitude rank := magnitude_strictMono (by omega)
    have habove : magnitude rank < magnitude (rank + 1) := magnitude_strictMono (by omega)
    have hlow : (lowerBoundary rank : ℚ) < 2 * (magnitude rank : ℚ) := by
      have : lowerBoundary rank < 2 * magnitude rank := by
        unfold lowerBoundary
        omega
      exact_mod_cast this
    have hhigh : 2 * (magnitude rank : ℚ) < boundary rank := by
      have : 2 * magnitude rank < boundary rank := by
        unfold boundary
        omega
      exact_mod_cast this
    have hone : one = Nat.pow 2 1074 := by simp only [one]
    have hvalue := value_exact (magnitude rank) hone (Eq.refl (-1074))
    rw [readsAs_iff, hvalue]
    split
    · exact ⟨hlow.le, hhigh.le⟩
    · exact ⟨hlow, hhigh⟩

/-! ### Reading texts -/

namespace Decimal
open Text

theorem cutAt_append {p : Char → Bool} {front : List Char} (hfront : ∀ d ∈ front, p d = false)
    {c : Char} (hc : p c) (rest : List Char) :
    cutAt p (front ++ c :: rest) = (front, some rest) := by
  have hfront' : ∀ d ∈ front, (!p d) = true := by simpa using hfront
  simp [cutAt, List.dropWhile_append_of_pos hfront', List.takeWhile_append_of_pos hfront', hc]

theorem cutAt_eq_self {p : Char → Bool} {cs : List Char} (h : ∀ d ∈ cs, p d = false) :
    cutAt p cs = (cs, none) := by
  have hdrop : cs.dropWhile (!p ·) = [] := by simpa [List.dropWhile_eq_nil_iff] using h
  simp [cutAt, hdrop]

/-- What stands behind the `e` of a text. -/
def power : List Char → ℤ
  | '-' :: cs => -(Nat.ofDigitChars 10 cs 0)
  | '+' :: cs => Nat.ofDigitChars 10 cs 0
  | _ => 0

/-- The decimal that digits with a point among them stand for. -/
def ofMantissa (cs : List Char) : Decimal :=
  let (whole, places) := cutAt (· == '.') cs
  ⟨Nat.ofDigitChars 10 (whole ++ places.getD []) 0, -(places.getD []).length⟩

/-- The decimal that a text stands for. -/
def ofText (cs : List Char) : Decimal :=
  let (mantissa, exponent) := cutAt (· == 'e') cs
  ⟨(ofMantissa mantissa).digits, (ofMantissa mantissa).exponent + (exponent.map power).getD 0⟩

theorem isDigit_ne {c : Char} (h : c.isDigit) : (c == '.') = false ∧ (c == 'e') = false := by
  constructor <;> rw [beq_eq_false_iff_ne] <;> rintro rfl <;> cases h

theorem ofMantissa_point {whole places : List Char} (hwhole : ∀ c ∈ whole, c.isDigit) :
    ofMantissa (whole ++ '.' :: places) =
      ⟨Nat.ofDigitChars 10 (whole ++ places) 0, -places.length⟩ := by
  rw [ofMantissa, cutAt_append (fun d hd => (isDigit_ne (hwhole d hd)).1) rfl]
  rfl

theorem ofText_point {whole places : List Char} (hwhole : ∀ c ∈ whole, c.isDigit)
    (hplaces : ∀ c ∈ places, c.isDigit) :
    ofText (whole ++ '.' :: places) =
      ⟨Nat.ofDigitChars 10 (whole ++ places) 0, -places.length⟩ := by
  have hnone : ∀ d ∈ whole ++ '.' :: places, (d == 'e') = false := by
    intro d hd
    rcases List.mem_append.1 hd with hd | hd
    · exact (isDigit_ne (hwhole d hd)).2
    rcases List.mem_cons.1 hd with rfl | hd
    · rfl
    · exact (isDigit_ne (hplaces d hd)).2
  rw [ofText, cutAt_eq_self hnone]
  simp [ofMantissa_point hwhole]

theorem ofText_power {mantissa : List Char} (h : ∀ c ∈ mantissa, (c == 'e') = false)
    (rest : List Char) :
    ofText (mantissa ++ 'e' :: rest) =
      ⟨(ofMantissa mantissa).digits, (ofMantissa mantissa).exponent + power rest⟩ := by
  rw [ofText, cutAt_append h rfl]
  rfl

/-- A power is read back with or without a zero before its digits. -/
theorem power_text (n : ℤ) {zero : List Char} (h : zero = ['0'] ∨ zero = []) :
    power ((if n < 0 then ['-'] else ['+']) ++ (zero ++ Nat.toDigits 10 n.natAbs)) = n := by
  have hdigits : Nat.ofDigitChars 10 (zero ++ Nat.toDigits 10 n.natAbs) 0 = n.natAbs := by
    rw [Nat.ofDigitChars_append]
    rcases h with rfl | rfl <;> exact Nat.ofDigitChars_ten_toDigits
  split
  · rw [List.singleton_append, power, hdigits]
    omega
  · rw [List.singleton_append, power, hdigits]
    omega

/-- The digits before a power, with a point behind the first unless that is the only one. -/
theorem ofMantissa_digits {c : Char} {more : List Char} (h : ∀ d ∈ c :: more, d.isDigit) :
    ofMantissa (c :: ((if more = [] then [] else ['.']) ++ more)) =
      ⟨Nat.ofDigitChars 10 (c :: more) 0, -more.length⟩ := by
  obtain ⟨hfirst, hmore⟩ := List.forall_mem_cons.1 h
  split
  · next hnil =>
    subst hnil
    rw [ofMantissa, cutAt_eq_self (by simpa using (isDigit_ne hfirst).1)]
    rfl
  · have hwhole : ∀ d ∈ [c], d.isDigit := List.forall_mem_singleton.2 hfirst
    exact ofMantissa_point hwhole

/-! ### The forms of a text -/

section Forms
variable {d : Decimal} {ds : List Char}

theorem mk_eq {n : ℕ} {e : ℤ} (hn : n = d.digits) (he : e = d.exponent) :
    (⟨n, e⟩ : Decimal) = d := by
  subst hn he
  rfl

theorem isDigit_replicate (n : ℕ) : ∀ c ∈ List.replicate n '0', c.isDigit := by
  intro c hc
  rw [List.eq_of_mem_replicate hc]
  rfl

/-- Digits behind the point, after zeros. -/
theorem ofText_behind (hds : ∀ c ∈ ds, c.isDigit) (hread : Nat.ofDigitChars 10 ds 0 = d.digits)
    (zeros : ℕ) (hplace : d.exponent + ds.length = -zeros) :
    ofText ('0' :: '.' :: (List.replicate zeros '0' ++ ds)) = d := by
  have hplaces := List.forall_mem_append.2 ⟨isDigit_replicate zeros, hds⟩
  rw [← List.singleton_append, ofText_point (List.forall_mem_singleton.2 rfl) hplaces]
  refine mk_eq ?_ ?_
  · rw [Nat.ofDigitChars_append, Nat.ofDigitChars_append, Nat.ofDigitChars_replicate_zero]
    exact hread
  · rw [List.length_append, List.length_replicate]
    omega

/-- Digits before the point, and zeros behind them. -/
theorem value_ofText_before (hds : ∀ c ∈ ds, c.isDigit)
    (hread : Nat.ofDigitChars 10 ds 0 = d.digits) (zeros : ℕ) (hplace : d.exponent = zeros) :
    (ofText (ds ++ List.replicate zeros '0' ++ '.' :: ['0'])).value = d.value := by
  have hwhole := List.forall_mem_append.2 ⟨hds, isDigit_replicate zeros⟩
  have hvalue : Nat.ofDigitChars 10 (ds ++ List.replicate zeros '0' ++ ['0']) 0 =
      10 * (10 ^ zeros * d.digits) := by
    rw [Nat.ofDigitChars_append, Nat.ofDigitChars_append, hread, Nat.ofDigitChars_replicate_zero]
    rfl
  rw [ofText_point hwhole (List.forall_mem_singleton.2 rfl), hvalue, value, value, hplace]
  simp only [List.length_singleton, Nat.cast_mul, Nat.cast_pow, Nat.cast_ofNat, Nat.cast_one,
    zpow_natCast, zpow_neg, zpow_one]
  field_simp

/-- A point among the digits. -/
theorem ofText_among (hds : ∀ c ∈ ds, c.isDigit) (hread : Nat.ofDigitChars 10 ds 0 = d.digits)
    (place : ℕ) (hplace : d.exponent + ds.length = place) (hle : place ≤ ds.length) :
    ofText (ds.take place ++ '.' :: ds.drop place) = d := by
  rw [ofText_point (fun c hc => hds c (List.mem_of_mem_take hc))
    (fun c hc => hds c (List.mem_of_mem_drop hc)), List.take_append_drop]
  refine mk_eq hread ?_
  rw [List.length_drop]
  omega

/-- One digit, a point before the others if there are any, and a power. -/
theorem ofText_powered (hds : ∀ c ∈ ds, c.isDigit) (hread : Nat.ofDigitChars 10 ds 0 = d.digits)
    (hne : ds ≠ []) {rest : List Char} (hrest : power rest = d.exponent + ds.length - 1) :
    ofText (ds.take 1 ++ (if ds.length ≤ 1 then [] else ['.']) ++ ds.drop 1 ++ 'e' :: rest) =
      d := by
  obtain ⟨c, more, rfl⟩ := List.exists_cons_of_ne_nil hne
  have hpoint : (if (c :: more).length ≤ 1 then [] else ['.']) =
      if more = [] then [] else ['.'] := by
    cases more <;> simp
  have hmantissa : (c :: more).take 1 ++ (if (c :: more).length ≤ 1 then [] else ['.']) ++
      (c :: more).drop 1 = c :: ((if more = [] then [] else ['.']) ++ more) := by
    rw [hpoint]
    rfl
  have hplain : ∀ x ∈ c :: ((if more = [] then [] else ['.']) ++ more), (x == 'e') = false := by
    intro x hx
    have hx : x ∈ c :: more ∨ x = '.' := by
      split at hx <;> simp at hx ⊢ <;> tauto
    rcases hx with hx | rfl
    · exact (isDigit_ne (hds x hx)).2
    · rfl
  rw [hmantissa, ofText_power hplain, ofMantissa_digits hds, hrest]
  refine mk_eq hread ?_
  show -(more.length : ℤ) + (d.exponent + (more.length + 1 : ℕ) - 1) = d.exponent
  omega

end Forms

/-- **The value of a decimal is read off its text.** -/
theorem value_ofText (d : Decimal) : (ofText d.text.toList).value = d.value := by
  have hlist (n : ℕ) : (toString n).toList = Nat.toDigits 10 n := Nat.toList_repr
  have hds : ∀ c ∈ Nat.toDigits 10 d.digits, c.isDigit :=
    fun c hc => Nat.isDigit_of_mem_toDigits (by omega) (by omega) hc
  have hread : Nat.ofDigitChars 10 (Nat.toDigits 10 d.digits) 0 = d.digits :=
    Nat.ofDigitChars_ten_toDigits
  have hne : Nat.toDigits 10 d.digits ≠ [] := Nat.toDigits_ne_nil
  unfold text
  simp only [hlist]
  generalize Nat.toDigits 10 d.digits = ds at hds hread hne
  split
  · split
    · have hbehind := ofText_behind hds hread (-(d.exponent + ds.length)).toNat (by omega)
      simpa using congrArg value hbehind
    split
    · have hbefore :=
        value_ofText_before hds hread (d.exponent + ds.length - ds.length).toNat (by omega)
      simpa using hbefore
    · have hamong := ofText_among hds hread (d.exponent + ds.length).toNat (by omega) (by omega)
      simpa using congrArg value hamong
  · generalize hn : d.exponent + ds.length - 1 = n
    have hzero : (if n.natAbs < 10 then ['0'] else []) = ['0'] ∨
        (if n.natAbs < 10 then ['0'] else []) = [] := by
      split <;> simp
    have hpowered := ofText_powered hds hread hne ((power_text n hzero).trans hn.symm)
    simpa [apply_ite String.toList] using congrArg value hpowered

/-- The text of a decimal begins with a digit, and there is a point or an `e` in it. -/
theorem exists_text_cons (d : Decimal) :
    ∃ c cs, d.text.toList = c :: cs ∧ c.isDigit ∧ ('.' ∈ cs ∨ 'e' ∈ cs) := by
  have hlist : (toString d.digits).toList = Nat.toDigits 10 d.digits := Nat.toList_repr
  have hne : Nat.toDigits 10 d.digits ≠ [] := Nat.toDigits_ne_nil
  obtain ⟨c, cs, hcons⟩ := List.exists_cons_of_ne_nil hne
  have hdigit : c.isDigit :=
    Nat.isDigit_of_mem_toDigits (by omega) (by omega) (hcons ▸ List.mem_cons_self)
  unfold text
  simp only [hlist, hcons]
  split
  · split
    · exact ⟨'0', _, by simp; rfl, rfl, by simp⟩
    split
    · exact ⟨c, _, by simp; rfl, hdigit, by simp⟩
    · have hpos : (d.exponent + (c :: cs).length).toNat ≠ 0 := by omega
      obtain ⟨before, hbefore⟩ := Nat.exists_eq_succ_of_ne_zero hpos
      rw [hbefore, List.take_succ_cons]
      exact ⟨c, _, by simp; rfl, hdigit, by simp⟩
  · exact ⟨c, _, by simp; rfl, hdigit, by simp⟩

/-- The text of a decimal takes one line. -/
theorem newline_not_mem_text (d : Decimal) : '\n' ∉ d.text.toList := by
  have hdigits (n : ℕ) : '\n' ∉ (toString n).toList := by
    intro hmem
    have hlist : (toString n).toList = Nat.toDigits 10 n := Nat.toList_repr
    rw [hlist] at hmem
    exact absurd (Nat.isDigit_of_mem_toDigits (by omega) (by omega) hmem) (by decide)
  have htake (count : ℕ) : '\n' ∉ (toString d.digits).toList.take count :=
    fun hmem => hdigits _ (List.mem_of_mem_take hmem)
  have hdrop (count : ℕ) : '\n' ∉ (toString d.digits).toList.drop count :=
    fun hmem => hdigits _ (List.mem_of_mem_drop hmem)
  have hdigits' := hdigits d.digits
  unfold text
  generalize (toString d.digits).toList = ds at hdigits' htake hdrop
  simp only
  split
  · split
    · simp [hdigits']
    split
    · simp [hdigits']
    · simp [htake, hdrop]
  · simp only [String.toList_append, String.toList_ofList, List.mem_append, htake, hdrop, hdigits,
      or_false, false_or]
    repeat' split
    all_goals simp

end Decimal

/-! ### Texts of doubles -/

/-- The decimal that is written for a magnitude. -/
def written (rank : ℕ) : Decimal := if rank = 0 then ⟨0, 0⟩ else shortest rank

theorem text_written (rank : ℕ) :
    (if rank = 0 then "0.0" else (shortest rank).text) = (written rank).text := by
  unfold written
  split
  · rfl
  · rfl

theorem readsAs_written (rank : ℕ) : (written rank).readsAs rank := by
  unfold written
  split
  · next h =>
    subst h
    decide +kernel
  · next h => exact readsAs_shortest (Nat.pos_of_ne_zero h)

/-- Magnitudes that are written alike are the same. -/
theorem rank_eq_of_text {rank rank' : ℕ} (h : (written rank).text = (written rank').text) :
    rank = rank' := by
  have hvalue : (written rank).value = (written rank').value := by
    rw [← value_ofText (written rank), h, value_ofText]
  have hreads := readsAs_written rank
  rw [readsAs_congr hvalue] at hreads
  exact eq_of_readsAs hreads (readsAs_written rank')

/-- The text of a double without its sign. -/
def unsigned : Double → String
  | nan => "nan"
  | infinite _ => "inf"
  | finite _ rank => (written rank).text

theorem text_eq (d : Double) : d.text = (if d.isNegative then "-" else "") ++ d.unsigned := by
  cases d with
  | nan => rfl
  | infinite negative => cases negative <;> rfl
  | finite negative rank => rw [text, text_written, isNegative, unsigned]

/-- What stands behind the sign begins with a letter or a digit, and it is no integer. -/
theorem exists_unsigned_cons (d : Double) :
    ∃ c cs, d.unsigned.toList = c :: cs ∧ (c.isDigit ∨ c.isLower) ∧
      ('.' ∈ cs ∨ 'e' ∈ cs ∨ 'n' ∈ cs) := by
  cases d with
  | nan => exact ⟨'n', ['a', 'n'], rfl, .inr rfl, .inr (.inr (by decide))⟩
  | infinite negative =>
    have htext : "inf".toList = ['i', 'n', 'f'] := rfl
    exact ⟨'i', ['n', 'f'], htext, .inr rfl, .inr (.inr (by decide))⟩
  | finite negative rank =>
    obtain ⟨c, cs, hcons, hdigit, hmark⟩ := exists_text_cons (written rank)
    exact ⟨c, cs, hcons, .inl hdigit, hmark.imp_right .inl⟩

theorem unsigned_inj {a b : Double} (hsign : a.isNegative = b.isNegative)
    (h : a.unsigned = b.unsigned) : a = b := by
  have hword (rank : ℕ) (word : String) (hletter : word.toList.head?.any Char.isDigit = false) :
      word ≠ (written rank).text := by
    rintro rfl
    obtain ⟨c, cs, hcons, hdigit, -⟩ := exists_text_cons (written rank)
    rw [hcons, List.head?_cons, Option.any_some, hdigit] at hletter
    cases hletter
  have hnan := fun rank => hword rank "nan" (by decide)
  have hinfinite := fun rank => hword rank "inf" (by decide)
  have hapart : "nan" ≠ "inf" := by decide
  cases a with
  | nan =>
    cases b with
    | nan => rfl
    | infinite => exact absurd h hapart
    | finite _ rank => exact absurd h (hnan rank)
  | infinite =>
    cases b with
    | nan => exact absurd h.symm hapart
    | infinite => exact congrArg infinite hsign
    | finite _ rank => exact absurd h (hinfinite rank)
  | finite negative rank =>
    cases b with
    | nan => exact absurd h.symm (hnan rank)
    | infinite => exact absurd h.symm (hinfinite rank)
    | finite negative' rank' =>
      obtain rfl := Fin.ext (rank_eq_of_text h)
      exact congrArg (finite · rank) hsign

/-- A sign is told apart from what follows it. -/
theorem signed_inj {negative negative' : Bool} {c c' : Char} {cs cs' : List Char} (hc : c ≠ '-')
    (hc' : c' ≠ '-')
    (h : (if negative then ['-'] else []) ++ c :: cs =
      (if negative' then ['-'] else []) ++ c' :: cs') :
    negative = negative' ∧ c :: cs = c' :: cs' := by
  cases negative <;> cases negative'
  · exact ⟨rfl, h⟩
  · exact absurd (List.cons.inj h).1 hc
  · exact absurd (List.cons.inj h).1.symm hc'
  · exact ⟨rfl, (List.cons.inj h).2⟩

theorem toList_text (d : Double) :
    d.text.toList = (if d.isNegative then ['-'] else []) ++ d.unsigned.toList := by
  rw [text_eq, String.toList_append, apply_ite String.toList]
  rfl

/-- The text of a double takes one line. -/
theorem newline_not_mem_toList_text (d : Double) : '\n' ∉ d.text.toList := by
  have hunsigned : '\n' ∉ d.unsigned.toList := by
    cases d with
    | nan => decide
    | infinite => simp [unsigned]
    | finite _ rank => exact newline_not_mem_text (written rank)
  rw [toList_text, List.mem_append, not_or]
  refine ⟨?_, hunsigned⟩
  split <;> decide

/-- **No two doubles have the same text.** -/
theorem text_inj {a b : Double} (h : a.text = b.text) : a = b := by
  obtain ⟨c, cs, hcons, hc, -⟩ := exists_unsigned_cons a
  obtain ⟨c', cs', hcons', hc', -⟩ := exists_unsigned_cons b
  have hlist := congrArg String.toList h
  rw [toList_text, toList_text, hcons, hcons'] at hlist
  have hne {c : Char} (h : c.isDigit ∨ c.isLower) : c ≠ '-' := by
    rintro rfl
    revert h
    decide
  obtain ⟨hsign, hrest⟩ := signed_inj (hne hc) (hne hc') hlist
  refine unsigned_inj hsign (String.toList_inj.1 ?_)
  rw [hcons, hcons', hrest]

end PageScript.Double
