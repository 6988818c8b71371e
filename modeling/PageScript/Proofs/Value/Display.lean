import PageScript.Evaluation
import PageScript.Proofs.Errors
import PageScript.Proofs.Number.Magnitude
import PageScript.Proofs.Value.Equality

/-!
Which values have a text. All of them do but those that hold an integer of too many digits, however
deep inside of arrays and objects; a double is never too large. What shows a value without a text
stops before it prints anything.
-/
namespace PageScript

/-! ### Numbers -/

namespace Number

theorem integerText?_eq_none_iff {n : Int} : integerText? n = none ↔ IsLong n := by
  rw [integerText?, ← fitsText_eq_false_iff]
  cases fitsText n <;> simp

open Double in
/-- The largest double has far fewer digits than are shown. -/
theorem not_isLong_of_toInt? {d : Double} {n : Int} (h : d.toInt? = some n) : ¬ IsLong n := by
  cases d with
  | nan => cases h
  | infinite negative => cases h
  | finite negative rank =>
    have hunits : magnitude rank = n.natAbs * one := by
      rw [← natAbs_units negative, toInt?_eq_some_iff.1 h, Int.natAbs_mul, Int.natAbs_natCast]
    have hlt : n.natAbs * one < 2 ^ (53 + scale rank) := hunits ▸ magnitude_lt rank
    have hplaces : 53 + scale rank ≤ Numeral.maxDigits + 1074 := by
      have hscale := scale_le rank.isLt
      have hdigits : 1024 ≤ Numeral.maxDigits := by decide
      omega
    -- The exponent becomes a variable, so that the power is not worked out.
    delta one at hlt
    generalize 1074 = exponent at hplaces hlt
    have hwide := hlt.trans_le (Nat.pow_le_pow_right Nat.two_pos hplaces)
    rw [Nat.pow_add, Nat.pow_eq] at hwide
    rw [isLong_iff, Nat.not_le]
    calc n.natAbs < 2 ^ Numeral.maxDigits := Nat.lt_of_mul_lt_mul_right hwide
      _ ≤ 10 ^ Numeral.maxDigits := Nat.pow_le_pow_left (by decide) _

/-- Only integers can be too long to show. -/
theorem display?_eq_none_iff {n : Number} : n.display? = none ↔ ∃ k, n = integer k ∧ IsLong k := by
  cases n with
  | integer k => simp [display?, integerText?_eq_none_iff]
  | double d =>
    rw [display?]
    cases hd : d.toInt? with
    | none => simp
    | some k => simpa [integerText?_eq_none_iff] using not_isLong_of_toInt? hd

end Number

/-! ### Values -/

namespace Value

/-- A number stands in a value: it is the value, or stands in an item of an array or under a name
of an object. -/
inductive Occurs (n : Number) : Value → Prop where
  | here : Occurs n (number n)
  | item {items : List Value} {item : Value} (hmem : item ∈ items) (h : Occurs n item) :
      Occurs n (array items)
  | entry {entries : List (String × Value)} {entry : String × Value} (hmem : entry ∈ entries)
      (h : Occurs n entry.2) : Occurs n (object entries)

/-- A value holds an integer that is too long to show. -/
def HoldsLong (v : Value) : Prop := ∃ k, Number.IsLong k ∧ Occurs (.integer k) v

/-- Only numbers, arrays and objects hold a number. -/
theorem not_holdsLong_of_kind {v : Value} (h : v.kind ∉ [.number, .array, .object]) :
    ¬ v.HoldsLong := by
  rintro ⟨k, -, hoccurs⟩
  cases hoccurs <;> simp [kind] at h

theorem holdsLong_number {n : Number} :
    (number n).HoldsLong ↔ ∃ k, n = .integer k ∧ Number.IsLong k := by
  constructor
  · rintro ⟨k, hk, ⟨⟩⟩
    exact ⟨k, rfl, hk⟩
  · rintro ⟨k, rfl, hk⟩
    exact ⟨k, hk, .here⟩

theorem holdsLong_array {items : List Value} :
    (array items).HoldsLong ↔ ∃ item ∈ items, item.HoldsLong := by
  constructor
  · rintro ⟨k, hk, _ | ⟨hmem, h⟩⟩
    exact ⟨_, hmem, k, hk, h⟩
  · rintro ⟨item, hmem, k, hk, h⟩
    exact ⟨k, hk, .item hmem h⟩

theorem holdsLong_object {entries : List (String × Value)} :
    (object entries).HoldsLong ↔ ∃ entry ∈ entries, entry.2.HoldsLong := by
  constructor
  · rintro ⟨k, hk, _ | _ | ⟨hmem, h⟩⟩
    exact ⟨_, hmem, k, hk, h⟩
  · rintro ⟨entry, hmem, k, hk, h⟩
    exact ⟨k, hk, .entry hmem h⟩

theorem nestedItems?_eq_none_iff {items : List Value} :
    nestedItems? items = none ↔ ∃ item ∈ items, item.nested? = none := by
  induction items with
  | nil => simp [nestedItems?]
  | cons item rest ih =>
    rw [nestedItems?, List.exists_mem_cons_iff, ← ih]
    cases item.nested? <;> cases nestedItems? rest <;> simp

theorem nestedEntries?_eq_none_iff {entries : List (String × Value)} :
    nestedEntries? entries = none ↔ ∃ entry ∈ entries, entry.2.nested? = none := by
  induction entries with
  | nil => simp [nestedEntries?]
  | cons entry rest ih =>
    rw [nestedEntries?, List.exists_mem_cons_iff, ← ih]
    cases entry.2.nested? <;> cases nestedEntries? rest <;> simp

theorem nested?_eq_none_iff {v : Value} : v.nested? = none ↔ v.HoldsLong := by
  have hplain {v : Value} {text : String} (hkind : v.kind ∉ [.number, .array, .object])
      (htext : v.nested? = some text) : v.nested? = none ↔ v.HoldsLong :=
    iff_of_false (by simp [htext]) (not_holdsLong_of_kind hkind)
  induction v using inductionOn with
  | null => exact hplain (by simp [kind]) rfl
  | bool b => cases b <;> exact hplain (by simp [kind]) rfl
  | number n => rw [nested?, Number.display?_eq_none_iff, holdsLong_number]
  | string s => exact hplain (by simp [kind]) rfl
  | array items ih =>
    rw [nested?, Option.map_eq_none_iff, nestedItems?_eq_none_iff, holdsLong_array]
    exact exists_congr fun item => and_congr_right fun hmem => ih item hmem
  | object entries ih =>
    rw [nested?, Option.map_eq_none_iff, nestedEntries?_eq_none_iff, holdsLong_object]
    exact exists_congr fun entry => and_congr_right fun hmem => ih entry hmem
  | closure f => exact hplain (by simp [kind]) rfl
  | builtin b => exact hplain (by simp [kind]) rfl

/-- **A value has no text exactly if it holds an integer that is too long to show.** -/
theorem display?_eq_none_iff {v : Value} : v.display? = none ↔ v.HoldsLong := by
  cases v with
  | string s => exact iff_of_false (by simp [display?]) (not_holdsLong_of_kind (by simp [kind]))
  | _ => exact nested?_eq_none_iff

end Value

/-! ### What shows values -/

theorem Operators.display_of_eq_some {v : Value} {text : String} (h : v.display? = some text) :
    display v = .ok text := by
  rw [display, h]

/-- With a string on one side, `+` puts the texts of both sides together. -/
theorem Operators.binary_plus_of_isString {a b : Value} (h : isString a ∨ isString b) :
    binary "+" a b = (do
      let s ← display a
      let t ← display b
      return .string (s ++ t)) := by
  simp [binary, h]

end PageScript
