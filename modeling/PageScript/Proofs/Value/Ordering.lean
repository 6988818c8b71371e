import Mathlib.Data.List.Lex
import PageScript.Evaluation.Operators
import PageScript.Proofs.Number.Exact

/-!
The ordering operators. On numbers they are the order of exact values with the two infinities at its
ends, on strings that of the code points from the front, and so on each of the two kinds they and
equality are one total order. The number that is none stands outside of it.
-/
namespace PageScript.Operators

/-- The operator gives true between two values. -/
def Holds (operator : String) (x y : Value) : Prop := binary operator x y = .ok (.bool true)

/-- The operator succeeds between two values, and says whether `P`. -/
def Answers (operator : String) (x y : Value) (P : Prop) : Prop :=
  ∃ b : Bool, binary operator x y = .ok (.bool b) ∧ (b ↔ P)

theorem Answers.holds_iff {operator : String} {x y : Value} {P : Prop}
    (h : Answers operator x y P) : Holds operator x y ↔ P := by
  obtain ⟨b, hbinary, hb⟩ := h
  rw [Holds, hbinary, ← hb]
  simp

/-! ### Values in a linear order -/

/-- The six comparisons of two values are those of two elements of a linear order. -/
structure ComparedAs {α : Type} [LinearOrder α] (x y : Value) (p q : α) : Prop where
  less : Answers "<" x y (p < q)
  greater : Answers ">" x y (q < p)
  lessOrEqual : Answers "<=" x y (p ≤ q)
  greaterOrEqual : Answers ">=" x y (q ≤ p)
  equal : Answers "==" x y (p = q)
  notEqual : Answers "!=" x y (p ≠ q)

theorem binary_less (a b : Number) :
    binary "<" (.number a) (.number b) = .ok (.bool (a.less b)) := rfl

/-- Numbers are compared by their exact values. -/
theorem comparedAs_numbers {a b : Number} {p q : WithBot (WithTop ℚ)} (ha : a.position? = some p)
    (hb : b.position? = some q) : ComparedAs (.number a) (.number b) p q where
  less := ⟨_, binary_less a b, Number.less_iff ha hb⟩
  greater := ⟨_, rfl, Number.less_iff hb ha⟩
  lessOrEqual := ⟨_, rfl, Number.lessOrEqual_iff ha hb⟩
  greaterOrEqual := ⟨_, rfl, Number.lessOrEqual_iff hb ha⟩
  equal := ⟨_, rfl, Number.equal_iff_position ha hb⟩
  notEqual := ⟨!a.equal b, rfl, by
    rw [Bool.not_eq_true', ← Bool.not_eq_true, Number.equal_iff_position ha hb]⟩

/-- The code points of a text. -/
def codePoints (s : String) : List Nat := s.toList.map Char.toNat

theorem codePoints_injective : Function.Injective codePoints := by
  intro s t h
  exact String.toList_inj.1 (List.map_injective_iff.2 (fun _ _ => Char.toNat_inj.1) h)

theorem lt_iff_codePoints {s t : String} : s < t ↔ codePoints s < codePoints t := by
  have hlists (cs ds : List Char) : cs < ds ↔ cs.map Char.toNat < ds.map Char.toNat := by
    induction cs generalizing ds with
    | nil => cases ds <;> simp
    | cons c cs ih =>
      cases ds with
      | nil => simp
      | cons d ds =>
        rw [List.map_cons, List.map_cons, List.cons_lt_cons_iff, List.cons_lt_cons_iff, ih,
          Char.toNat_inj]
        rfl
  exact hlists s.toList t.toList

/-- Strings are compared by their code points. -/
theorem comparedAs_strings (s t : String) :
    ComparedAs (.string s) (.string t) (codePoints s) (codePoints t) := by
  have hless (s t : String) : decide (s < t) ↔ codePoints s < codePoints t := by
    rw [decide_eq_true_iff, lt_iff_codePoints]
  have hle (s t : String) : !decide (t < s) ↔ codePoints s ≤ codePoints t := by
    rw [Bool.not_eq_true', ← Bool.not_eq_true, hless, not_lt]
  have hequal : (s == t) ↔ codePoints s = codePoints t := by
    rw [beq_iff_eq, codePoints_injective.eq_iff]
  constructor
  · exact ⟨_, rfl, hless s t⟩
  · exact ⟨_, rfl, hless t s⟩
  · exact ⟨_, rfl, hle s t⟩
  · exact ⟨_, rfl, hle t s⟩
  · exact ⟨_, rfl, hequal⟩
  · exact ⟨!(s == t), rfl, by rw [Bool.not_eq_true', ← Bool.not_eq_true, hequal]⟩

/-! ### One total order -/

/-- Values that are ordered among each other: numbers other than the one that is none, or
strings. -/
def Comparable (values : List Value) : Prop :=
  (∀ v ∈ values, ∃ n : Number, v = .number n ∧ n ≠ .double .nan) ∨
    ∀ v ∈ values, ∃ s : String, v = .string s

/-- The position of a value that is a number, and that of the least one for all others. -/
def numberPlace : Value → WithBot (WithTop ℚ)
  | .number n => n.position?.getD ⊥
  | _ => ⊥

/-- The code points of a value that is a string, and none for all others. -/
def stringPlace : Value → List Nat
  | .string s => codePoints s
  | _ => []

/-- What is ordered among each other has its places in one linear order. -/
theorem Comparable.exists_order {values : List Value} (h : Comparable values) :
    ∃ (α : Type) (_ : LinearOrder α) (place : Value → α),
      ∀ x ∈ values, ∀ y ∈ values, ComparedAs x y (place x) (place y) := by
  rcases h with hnumbers | hstrings
  · have hposition (n : Number) (hn : n ≠ .double .nan) :
        n.position? = some (numberPlace (.number n)) := by
      obtain ⟨p, hp⟩ := Number.exists_position? hn
      rw [numberPlace, hp, Option.getD_some]
    refine ⟨_, inferInstance, numberPlace, fun x hx y hy => ?_⟩
    obtain ⟨a, rfl, ha⟩ := hnumbers x hx
    obtain ⟨b, rfl, hb⟩ := hnumbers y hy
    exact comparedAs_numbers (hposition a ha) (hposition b hb)
  · refine ⟨_, inferInstance, stringPlace, fun x hx y hy => ?_⟩
    obtain ⟨s, rfl⟩ := hstrings x hx
    obtain ⟨t, rfl⟩ := hstrings y hy
    exact comparedAs_strings s t

/-- The operators that compare. -/
def comparisons : List String := ["<", ">", "<=", ">=", "==", "!="]

theorem ComparedAs.exists_answer {α : Type} [LinearOrder α] {x y : Value} {p q : α}
    (h : ComparedAs x y p q) :
    ∀ operator ∈ comparisons, ∃ b, binary operator x y = .ok (.bool b) := by
  have hexists {operator : String} {P : Prop} (h : Answers operator x y P) :
      ∃ b, binary operator x y = .ok (.bool b) := h.imp fun _ hb => hb.1
  simp only [comparisons, List.forall_mem_cons]
  exact ⟨hexists h.less, hexists h.greater, hexists h.lessOrEqual, hexists h.greaterOrEqual,
    hexists h.equal, hexists h.notEqual, List.forall_mem_nil _⟩

/-- No number is ordered beside the one that is none. -/
theorem binary_nan (n : Number) : ∀ operator ∈ ["<", ">", "<=", ">=", "=="],
    binary operator (.number (.double .nan)) (.number n) = .ok (.bool false) ∧
      binary operator (.number n) (.number (.double .nan)) = .ok (.bool false) := by
  obtain ⟨hless, hgreater, hequal, hequal'⟩ := Number.nan_apart n
  have hle : (Number.double .nan).lessOrEqual n = false := by
    rw [Number.lessOrEqual_eq, hless, hequal, Bool.or_false]
  have hge : n.lessOrEqual (.double .nan) = false := by
    rw [Number.lessOrEqual_eq, hgreater, hequal', Bool.or_false]
  have hok {b : Bool} (h : b = false) :
      (.ok (.bool b) : Except RuntimeFault Value) = .ok (.bool false) := by rw [h]
  simp only [List.forall_mem_cons]
  exact ⟨⟨hok hless, hok hgreater⟩, ⟨hok hgreater, hok hless⟩, ⟨hok hle, hok hge⟩,
    ⟨hok hge, hok hle⟩, ⟨hok hequal, hok hequal'⟩, List.forall_mem_nil _⟩

/-- **The ordering operators are one total order that agrees with equality.** Between numbers other
than the one that is none, and between strings, every comparison gives a boolean; exactly one of
`x < y`, `x == y` and `y < x` is true, the other operators say what they should, and `<` is
transitive, across integers and doubles as well. Numbers are ordered by their exact values and
strings by their code points. Beside the number that is none all of `<`, `>`, `<=`, `>=` and `==`
are false. -/
theorem ordering_total :
    (∀ x y z, Comparable [x, y, z] →
      (∀ operator ∈ comparisons, ∃ b, binary operator x y = .ok (.bool b)) ∧
      (Holds "<" x y ∧ ¬ Holds "==" x y ∧ ¬ Holds "<" y x ∨
        ¬ Holds "<" x y ∧ Holds "==" x y ∧ ¬ Holds "<" y x ∨
        ¬ Holds "<" x y ∧ ¬ Holds "==" x y ∧ Holds "<" y x) ∧
      (Holds "<=" x y ↔ Holds "<" x y ∨ Holds "==" x y) ∧
      (Holds ">" x y ↔ Holds "<" y x) ∧
      (Holds ">=" x y ↔ Holds "<=" y x) ∧
      (Holds "!=" x y ↔ ¬ Holds "==" x y) ∧
      (Holds "<" x y → Holds "<" y z → Holds "<" x z)) ∧
    (∀ (a b : Number) (p q : WithBot (WithTop ℚ)), a.position? = some p → b.position? = some q →
      (Holds "<" (.number a) (.number b) ↔ p < q)) ∧
    (∀ s t, Holds "<" (.string s) (.string t) ↔ codePoints s < codePoints t) ∧
    ∀ n, ∀ operator ∈ ["<", ">", "<=", ">=", "=="],
      binary operator (.number (.double .nan)) (.number n) = .ok (.bool false) ∧
      binary operator (.number n) (.number (.double .nan)) = .ok (.bool false) := by
  refine ⟨fun x y z h => ?_, fun a b p q ha hb => (comparedAs_numbers ha hb).less.holds_iff,
    fun s t => (comparedAs_strings s t).less.holds_iff, binary_nan⟩
  obtain ⟨α, order, place, hplace⟩ := h.exists_order
  have hxy := hplace x (by simp) y (by simp)
  have hyx := hplace y (by simp) x (by simp)
  have hyz := hplace y (by simp) z (by simp)
  have hxz := hplace x (by simp) z (by simp)
  rw [hxy.less.holds_iff, hxy.equal.holds_iff, hyx.less.holds_iff, hxy.lessOrEqual.holds_iff,
    hxy.greater.holds_iff, hxy.greaterOrEqual.holds_iff, hyx.lessOrEqual.holds_iff,
    hxy.notEqual.holds_iff, hyz.less.holds_iff, hxz.less.holds_iff]
  refine ⟨hxy.exists_answer, ?_, le_iff_lt_or_eq, Iff.rfl, Iff.rfl, Iff.rfl, lt_trans⟩
  rcases lt_trichotomy (place x) (place y) with hlt | heq | hgt
  · exact .inl ⟨hlt, hlt.ne, hlt.asymm⟩
  · exact .inr (.inl ⟨heq.not_lt, heq, heq.not_gt⟩)
  · exact .inr (.inr ⟨hgt.asymm, hgt.ne', hgt⟩)

/-- The double `2 ^ 53` is less than the next integer, to which it would be equal if that were
rounded, and that integer is less than infinity. -/
theorem ordering_total_mixed :
    let x : Value := .number (.double (.ofInt 9007199254740992))
    let y : Value := .int 9007199254740993
    let z : Value := .number (.double (.infinite false))
    Comparable [x, y, z] ∧ Holds "<" x y ∧ ¬ Holds "==" x y ∧ Holds "<" y z ∧ Holds "<" x z := by
  intro x y z
  have hcomparable : Comparable [x, y, z] := by
    refine .inl ?_
    simp only [List.forall_mem_cons]
    exact ⟨⟨_, rfl, by decide +kernel⟩, ⟨_, rfl, nofun⟩, ⟨_, rfl, nofun⟩, List.forall_mem_nil _⟩
  obtain ⟨-, hone, -, -, -, -, htrans⟩ := ordering_total.1 x y z hcomparable
  have hless : Number.less (.double (.ofInt 9007199254740992)) (.integer 9007199254740993) := by
    decide +kernel
  have hxy : Holds "<" x y := by
    show binary "<" (.number _) (.number _) = _
    rw [binary_less, hless]
  have hyz : Holds "<" y z :=
    (comparedAs_numbers rfl rfl).less.holds_iff.2 (WithBot.coe_lt_coe.2 (WithTop.coe_lt_top _))
  have hne : ¬ Holds "==" x y := by
    intro heq
    rcases hone with ⟨-, hne, -⟩ | ⟨hnot, -, -⟩ | ⟨hnot, -, -⟩
    · exact hne heq
    · exact hnot hxy
    · exact hnot hxy
  exact ⟨hcomparable, hxy, hne, hyz, htrans hxy hyz⟩

end PageScript.Operators
