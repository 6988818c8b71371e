import Mathlib.Algebra.Order.Field.Rat
import Mathlib.Data.Rat.Cast.Order
import Mathlib.Order.WithBot
import PageScript.Proofs.Number.Magnitude
import PageScript.Proofs.Value.Equality

/-!
Exact values. Every number but the one that is none stands for a rational number or for one of the
two infinities, and numbers compare as these do: no integer is rounded for it.
-/
namespace PageScript

/-! ### What numbers stand for -/

/-- The exact value of a finite double. -/
def Double.rational? : Double → Option ℚ
  | finite negative rank => some (units negative rank / (one : ℕ))
  | _ => none

namespace Number

/-- The exact value of a finite number. -/
def rational? : Number → Option ℚ
  | integer n => some n
  | double d => d.rational?

/-- Where a number stands among the rational numbers and the two infinities. -/
def position? : Number → Option (WithBot (WithTop ℚ))
  | double (.infinite true) => some ⊥
  | double (.infinite false) => some ⊤
  | n => n.rational?.map fun q => ((q : WithTop ℚ) : WithBot (WithTop ℚ))

end Number

/-! ### Places -/

namespace Place

/-- A place as a rational number or an infinity. -/
def position : Place → WithBot (WithTop ℚ)
  | bottom => ⊥
  | point units => (((units / (Double.one : ℕ) : ℚ) : WithTop ℚ) : WithBot (WithTop ℚ))
  | top => ⊤

theorem lt_iff : ∀ {p q : Place}, p.lt q ↔ p.position < q.position
  | bottom, bottom => iff_of_false nofun (lt_irrefl _)
  | bottom, point _ => iff_of_true rfl (WithBot.bot_lt_coe _)
  | bottom, top => iff_of_true rfl (WithBot.bot_lt_coe _)
  | point _, bottom => iff_of_false nofun not_lt_bot
  | point u, point v => by
    have hone : (0 : ℚ) < (Double.one : ℕ) := Nat.cast_pos.2 Double.one_pos
    calc (point u).lt (point v) ↔ u < v := decide_eq_true_iff
      _ ↔ (u : ℚ) < v := Int.cast_lt.symm
      _ ↔ (u : ℚ) / (Double.one : ℕ) < v / (Double.one : ℕ) :=
        (div_lt_div_iff_of_pos_right hone).symm
      _ ↔ (point u).position < (point v).position :=
        (WithBot.coe_lt_coe.trans WithTop.coe_lt_coe).symm
  | point _, top => iff_of_true rfl (WithBot.coe_lt_coe.2 (WithTop.coe_lt_top _))
  | top, bottom => iff_of_false nofun not_lt_bot
  | top, point _ => iff_of_false nofun not_top_lt
  | top, top => iff_of_false nofun (lt_irrefl _)

theorem eq_or_lt : ∀ p q : Place, p = q ∨ p.lt q ∨ q.lt p
  | bottom, bottom | top, top => .inl rfl
  | bottom, point _ | bottom, top | point _, top => .inr (.inl rfl)
  | point _, bottom | top, bottom | top, point _ => .inr (.inr rfl)
  | point u, point v => by
    simp only [point.injEq, lt, decide_eq_true_eq]
    omega

theorem position_injective : Function.Injective position := by
  intro p q h
  rcases eq_or_lt p q with heq | hlt | hgt
  · exact heq
  · exact absurd (lt_iff.1 hlt) (h ▸ lt_irrefl _)
  · exact absurd (lt_iff.1 hgt) (h ▸ lt_irrefl _)

end Place

/-! ### Comparisons -/

namespace Number
variable {a b : Number} {p q : WithBot (WithTop ℚ)}

theorem position?_eq (a : Number) : a.position? = a.place?.map Place.position := by
  have hone : ((Double.one : ℕ) : ℚ) ≠ 0 := Nat.cast_ne_zero.2 (Nat.ne_of_gt Double.one_pos)
  cases a with
  | integer n =>
    have hvalue : (n : ℚ) = ((n * (Double.one : Int) : Int) : ℚ) / (Double.one : ℕ) := by
      rw [Int.cast_mul, Int.cast_natCast, mul_div_cancel_right₀ _ hone]
    show some (((n : ℚ) : WithTop ℚ) : WithBot (WithTop ℚ)) = _
    rw [hvalue]
    rfl
  | double d =>
    cases d with
    | nan => rfl
    | infinite negative => cases negative <;> rfl
    | finite negative rank => rfl

/-- Every number but the one that is none has its position. -/
theorem exists_position? (h : a ≠ .double .nan) : ∃ p, a.position? = some p := by
  cases a with
  | integer n => exact ⟨_, rfl⟩
  | double d =>
    cases d with
    | nan => exact absurd rfl h
    | infinite negative => cases negative <;> exact ⟨_, rfl⟩
    | finite negative rank => exact ⟨_, rfl⟩

theorem exists_place? (h : a.position? = some p) : ∃ x, a.place? = some x ∧ x.position = p := by
  rw [position?_eq] at h
  exact Option.map_eq_some_iff.1 h

theorem less_iff (ha : a.position? = some p) (hb : b.position? = some q) : a.less b ↔ p < q := by
  obtain ⟨x, hx, rfl⟩ := exists_place? ha
  obtain ⟨y, hy, rfl⟩ := exists_place? hb
  simp only [less, hx, hy]
  exact Place.lt_iff

theorem equal_iff_position (ha : a.position? = some p) (hb : b.position? = some q) :
    a.equal b ↔ p = q := by
  obtain ⟨x, hx, rfl⟩ := exists_place? ha
  obtain ⟨y, hy, rfl⟩ := exists_place? hb
  simp only [equal, hx, hy, Place.position_injective.eq_iff]
  exact beq_iff_eq

theorem lessOrEqual_eq (a b : Number) : a.lessOrEqual b = (a.less b || a.equal b) := by
  unfold lessOrEqual less equal
  cases a.place? <;> cases b.place? <;> rfl

theorem lessOrEqual_iff (ha : a.position? = some p) (hb : b.position? = some q) :
    a.lessOrEqual b ↔ p ≤ q := by
  rw [lessOrEqual_eq, Bool.or_eq_true, less_iff ha hb, equal_iff_position ha hb, le_iff_lt_or_eq]

/-- The number that is none is neither less than any number nor equal to one. -/
theorem nan_apart (a : Number) :
    (double .nan).less a = false ∧ a.less (double .nan) = false ∧
      (double .nan).equal a = false ∧ a.equal (double .nan) = false := by
  have hnone : (double .nan).place? = none := rfl
  unfold less equal
  rw [hnone]
  cases a.place? <;> exact ⟨rfl, rfl, rfl, rfl⟩

end Number
end PageScript
