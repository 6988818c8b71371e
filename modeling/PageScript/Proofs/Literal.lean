import PageScript.Literal
import PageScript.Proofs.Number.Shortest
import PageScript.Proofs.Text.Quoted

/-!
Literals on a line. What is written for a literal shows which it is: its first character tells words,
quoted texts and numbers apart, and only integers are written with a sign and digits alone. None
takes more than one line.
-/
namespace PageScript

/-! ### Integers -/

theorem toList_toString_int (n : Int) :
    (toString n).toList = (if decide (n < 0) then ['-'] else []) ++ Nat.toDigits 10 n.natAbs := by
  cases n with
  | ofNat n =>
    have hsign : ¬ Int.ofNat n < 0 := Int.not_lt.2 (Int.natCast_nonneg n)
    rw [decide_eq_false hsign]
    exact Nat.toList_repr
  | negSucc n =>
    rw [decide_eq_true (Int.negSucc_lt_zero n)]
    simp [Int.repr_eq_if]

theorem exists_toDigits_cons (n : Nat) :
    ∃ c cs, Nat.toDigits 10 n = c :: cs ∧ c.isDigit ∧ ∀ d ∈ cs, d.isDigit := by
  have hdigits : ∀ c ∈ Nat.toDigits 10 n, c.isDigit :=
    fun c hc => Nat.isDigit_of_mem_toDigits (by omega) (by omega) hc
  have hne : Nat.toDigits 10 n ≠ [] := Nat.toDigits_ne_nil
  obtain ⟨c, cs, hcons⟩ := List.exists_cons_of_ne_nil hne
  rw [hcons, List.forall_mem_cons] at hdigits
  exact ⟨c, cs, hcons, hdigits⟩

theorem ne_minus_of_isDigit {c : Char} (h : c.isDigit) : c ≠ '-' := by
  rintro rfl
  cases h

theorem toString_int_inj {m n : Int} (h : toString m = toString n) : m = n := by
  obtain ⟨c, cs, hcons, hc, -⟩ := exists_toDigits_cons m.natAbs
  obtain ⟨c', cs', hcons', hc', -⟩ := exists_toDigits_cons n.natAbs
  have hlist := congrArg String.toList h
  rw [toList_toString_int, toList_toString_int, hcons, hcons'] at hlist
  obtain ⟨hsign, hdigits⟩ :=
    Double.signed_inj (ne_minus_of_isDigit hc) (ne_minus_of_isDigit hc') hlist
  have hnatAbs : m.natAbs = n.natAbs := by
    calc m.natAbs = Nat.ofDigitChars 10 (Nat.toDigits 10 m.natAbs) 0 :=
          Nat.ofDigitChars_ten_toDigits.symm
      _ = Nat.ofDigitChars 10 (Nat.toDigits 10 n.natAbs) 0 := by rw [hcons, hdigits, hcons']
      _ = n.natAbs := Nat.ofDigitChars_ten_toDigits
  rw [decide_eq_decide] at hsign
  omega

namespace Literal

/-! ### Forms -/

inductive Form where
  | null
  | bool
  | integer
  | double
  | string
deriving DecidableEq

def form : Literal → Form
  | null => .null
  | bool _ => .bool
  | number (.integer _) => .integer
  | number (.double _) => .double
  | string _ => .string

/-- The characters of which one is in the text of every double, and none in that of an integer. -/
def doubleMarks : List Char := ['.', 'e', 'n']

/-- The form that a text shows. -/
def Form.ofText (cs : List Char) : Form :=
  if cs.head? = some 'N' then .null
  else if cs.head? = some 'T' ∨ cs.head? = some 'F' then .bool
  else if cs.head? = some '\'' ∨ cs.head? = some '"' then .string
  else if cs.any doubleMarks.contains then .double
  else .integer

/-- Among what begins as a number does, the marks tell doubles from integers. -/
theorem Form.ofText_number (negative : Bool) {c : Char} (h : c.isDigit ∨ c.isLower)
    (cs : List Char) :
    ofText ((if negative then ['-'] else []) ++ c :: cs) =
      if (c :: cs).any doubleMarks.contains then .double else .integer := by
  cases negative with
  | true =>
    have hminus : '-' ∉ doubleMarks := by decide
    simp [ofText, hminus]
  | false =>
    have hne (d : Char) (hd : (d.isDigit || d.isLower) = false) : c ≠ d := by
      rintro rfl
      rw [← Bool.or_eq_true, hd] at h
      cases h
    have hfront : c ≠ 'N' ∧ c ≠ 'T' ∧ c ≠ 'F' ∧ c ≠ '\'' ∧ c ≠ '"' :=
      ⟨hne _ rfl, hne _ rfl, hne _ rfl, hne _ rfl, hne _ rfl⟩
    simp [ofText, hfront]

theorem form_integer (n : Int) : Form.ofText (toString n).toList = .integer := by
  obtain ⟨c, cs, hcons, hc, hcs⟩ := exists_toDigits_cons n.natAbs
  have hmarks : doubleMarks.all fun mark => !mark.isDigit := by decide
  have hnone : ¬ (c :: cs).any doubleMarks.contains := by
    intro hany
    obtain ⟨d, hd, hmark⟩ := List.any_eq_true.1 hany
    have hdigit : d.isDigit := by
      rcases List.mem_cons.1 hd with rfl | hd
      · exact hc
      · exact hcs d hd
    have hmark' := List.all_eq_true.1 hmarks d (List.contains_iff_mem.1 hmark)
    simp [hdigit] at hmark'
  rw [toList_toString_int, hcons, Form.ofText_number _ (.inl hc), if_neg hnone]

theorem form_double (d : Double) : Form.ofText d.text.toList = .double := by
  obtain ⟨c, cs, hcons, hc, hmark⟩ := d.exists_unsigned_cons
  have hany : (c :: cs).any doubleMarks.contains := by
    rw [List.any_eq_true]
    rcases hmark with hmark | hmark | hmark
    all_goals exact ⟨_, List.mem_cons_of_mem c hmark, by decide⟩
  rw [Double.toList_text, hcons, Form.ofText_number _ hc, if_pos hany]

/-- The text of a literal shows its form. -/
theorem form_inline (value : Literal) : Form.ofText value.inline.toList = value.form := by
  cases value with
  | null => decide
  | bool value => cases value <;> decide
  | number value =>
    cases value with
    | integer n => exact form_integer n
    | double d => exact form_double d
  | string s =>
    rcases Text.head?_quoted s with h | h <;> simp [inline, Form.ofText, h, form]

/-- **No two literals are written alike.** -/
theorem inline_inj {v w : Literal} (h : v.inline = w.inline) : v = w := by
  have hform : v.form = w.form := by rw [← form_inline, h, form_inline]
  match v, w, hform, h with
  | null, null, _, _ => rfl
  | bool true, bool true, _, _ | bool false, bool false, _, _ => rfl
  | bool true, bool false, _, h | bool false, bool true, _, h => exact absurd h (by decide)
  | number (.integer m), number (.integer n), _, h => rw [toString_int_inj h]
  | number (.double a), number (.double b), _, h => rw [Double.text_inj h]
  | string s, string s', _, h => rw [Text.quoted_inj h]

/-! ### Lines -/

/-- A literal is written on one line. -/
theorem newline_not_mem_inline (value : Literal) : '\n' ∉ value.inline.toList := by
  cases value with
  | null => decide
  | bool value => cases value <;> decide
  | number value =>
    cases value with
    | integer n =>
      obtain ⟨c, cs, hcons, hc, hcs⟩ := exists_toDigits_cons n.natAbs
      have hline : ∀ d, d.isDigit → '\n' ≠ d := by
        rintro d hd rfl
        cases hd
      show '\n' ∉ (toString n).toList
      rw [toList_toString_int, hcons, List.mem_append, List.mem_cons, not_or, not_or]
      refine ⟨?_, hline c hc, fun hmem => hline _ (hcs _ hmem) rfl⟩
      split <;> decide
    | double d => exact d.newline_not_mem_toList_text
  | string s => exact Text.newline_not_mem_quoted s

end Literal

end PageScript
