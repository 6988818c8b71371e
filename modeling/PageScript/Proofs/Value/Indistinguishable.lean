import PageScript.Proofs.Evaluation.Genuine
import PageScript.Proofs.Value.Display

/-!
Equal values are not told apart. They are of one kind, conditions hold of both or of neither, and if
their objects list their names in the same order, they have the same text or none. So an integral
double shows as the integer that it is equal to, and a negative zero as zero.
-/
namespace PageScript

/-! ### Numbers -/

namespace Double

theorem isZero_iff {d : Double} : d.isZero ↔ d.toInt? = some 0 := by
  cases d with
  | nan => exact iff_of_false nofun nofun
  | infinite negative => exact iff_of_false nofun nofun
  | finite negative rank =>
    calc rank.val == 0 ↔ magnitude rank = 0 := by rw [beq_iff_eq, magnitude_eq_zero_iff]
      _ ↔ units negative rank = 0 := by rw [← natAbs_units negative, Int.natAbs_eq_zero]
      _ ↔ (finite negative rank).toInt? = some 0 := by rw [toInt?_eq_some_iff, Int.zero_mul]

/-- Finite doubles of the same value are the same unless both are zeros. -/
theorem eq_or_isZero_of_units {s t : Bool} {r q : Fin magnitudes} (h : units s r = units t q) :
    finite s r = finite t q ∨ (finite s r).isZero ∧ (finite t q).isZero := by
  have hmagnitude : magnitude r = magnitude q := by
    rw [← natAbs_units s r, h, natAbs_units]
  obtain rfl : r = q := Fin.ext (magnitude_strictMono.injective hmagnitude)
  by_cases hzero : r.val = 0
  · exact .inr ⟨beq_iff_eq.2 hzero, beq_iff_eq.2 hzero⟩
  · have hne : magnitude r ≠ 0 := mt magnitude_eq_zero_iff.1 hzero
    refine .inl (congrArg (finite · r) ?_)
    cases s <;> cases t <;> simp [units] at h ⊢ <;> omega

end Double

namespace Number
variable {a b : Number}

/-- Equal doubles are the same unless both are zeros. -/
theorem eq_or_isZero_of_equal {x y : Double} (h : (double x).equal (double y)) :
    x = y ∨ x.isZero ∧ y.isZero := by
  obtain ⟨p, hx, hy⟩ := equal_iff.1 h
  cases x with
  | nan => cases hx
  | infinite s =>
    cases y with
    | nan => cases hy
    | infinite t =>
      cases s <;> cases t <;> cases hx
      · exact .inl rfl
      · cases hy
      · cases hy
      · exact .inl rfl
    | finite t q => cases s <;> cases hx <;> cases hy
  | finite s r =>
    cases y with
    | nan => cases hy
    | infinite t => cases hx; cases t <;> cases hy
    | finite t q =>
      have hplaces := hx.trans hy.symm
      simp only [place?, Option.some.injEq, Place.point.injEq] at hplaces
      exact Double.eq_or_isZero_of_units hplaces

theorem display?_of_toInt? {d : Double} {n : Int} (h : d.toInt? = some n) :
    (double d).display? = (integer n).display? := by
  simp only [display?, h]

theorem isZero_of_toInt? {d : Double} {n : Int} (h : d.toInt? = some n) :
    (double d).isZero = (integer n).isZero := by
  rw [isZero, isZero, Bool.eq_iff_iff, Double.isZero_iff, h, Option.some.injEq, beq_iff_eq]

/-- What is the same for an integral double and its integer is the same for all equal numbers. -/
theorem congr_of_equal {α : Type} {f : Number → α}
    (hf : ∀ d n, d.toInt? = some n → f (double d) = f (integer n)) (h : a.equal b) : f a = f b := by
  cases a with
  | integer m =>
    cases b with
    | integer n => rw [equal_integers_iff.1 h]
    | double y => exact (hf y m (equal_integer_double_iff.1 h)).symm
  | double x =>
    cases b with
    | integer n => exact hf x n (equal_integer_double_iff.1 (equal_symm h))
    | double y =>
      rcases eq_or_isZero_of_equal h with rfl | ⟨hx, hy⟩
      · rfl
      · rw [hf x 0 (Double.isZero_iff.1 hx), hf y 0 (Double.isZero_iff.1 hy)]

theorem isZero_eq_of_equal (h : a.equal b) : a.isZero = b.isZero :=
  congr_of_equal (fun _ _ => isZero_of_toInt?) h

theorem display?_eq_of_equal (h : a.equal b) : a.display? = b.display? :=
  congr_of_equal (fun _ _ => display?_of_toInt?) h

end Number

namespace Value

/-! ### Conditions -/

theorem truthy_eq_of_equal {a b : Value} (h : a.equal b) : a.truthy = b.truthy := by
  cases a with
  | null => rw [← null_equal_iff.1 h]
  | bool x => rw [← bool_equal_iff.1 h]
  | number n =>
    obtain ⟨m, rfl, hnm⟩ := number_equal_iff.1 h
    rw [truthy, truthy, Number.isZero_eq_of_equal hnm]
  | string s => rw [← string_equal_iff.1 h]
  | array items =>
    obtain ⟨others, rfl, hothers⟩ := array_equal_iff.1 h
    cases hothers <;> rfl
  | object as =>
    obtain ⟨bs, rfl, -⟩ := object_equal_iff.1 h
    rfl
  | closure f =>
    obtain ⟨g, rfl, -⟩ := closure_equal_iff.1 h
    rfl
  | builtin f => rw [← builtin_equal_iff.1 h]

/-! ### Texts -/

mutual

/-- Whether objects at corresponding places of two values list their names in the same order. -/
def sameOrder : Value → Value → Bool
  | array as, array bs => itemsSameOrder as bs
  | object as, object bs => Fields.keys as == Fields.keys bs && entriesSameOrder as bs
  | _, _ => true

def itemsSameOrder : List Value → List Value → Bool
  | a :: as, b :: bs => sameOrder a b && itemsSameOrder as bs
  | _, _ => true

def entriesSameOrder : List (String × Value) → List (String × Value) → Bool
  | (_, a) :: as, (_, b) :: bs => sameOrder a b && entriesSameOrder as bs
  | _, _ => true

end

/-- Equal objects that list their names in the same order have equal entries one by one. -/
theorem forall₂_equal {as bs : Fields Value} (hkeys : as.keys = bs.keys) (hnames : as.keys.Nodup)
    (h : ∀ entry ∈ as, ∃ b, bs.get? entry.1 = some b ∧ entry.2.equal b) :
    List.Forall₂ (fun x y => x.1 = y.1 ∧ x.2.equal y.2) as bs := by
  have hnames' : bs.keys.Nodup := hkeys ▸ hnames
  -- The entries of a part of `bs` are still looked up in all of it.
  have hparts : ∀ as' bs' : Fields Value, as'.keys = bs'.keys → (∀ entry ∈ as', entry ∈ as) →
      (∀ entry ∈ bs', entry ∈ bs) →
      List.Forall₂ (fun x y => x.1 = y.1 ∧ x.2.equal y.2) as' bs' := by
    intro as'
    induction as' with
    | nil =>
      intro bs' hkeys _ _
      rw [List.map_eq_nil_iff.1 hkeys.symm]
      exact .nil
    | cons x xs ih =>
      intro bs' hkeys hxs hys
      obtain ⟨y, ys, rfl, hkey, hrest⟩ := List.map_eq_cons_iff.1 hkeys.symm
      have hkey : x.1 = y.1 := hkey.symm
      rw [List.forall_mem_cons] at hxs hys
      refine .cons ⟨hkey, ?_⟩ (ih ys hrest.symm hxs.2 hys.2)
      obtain ⟨b, hget, hequal⟩ := h x hxs.1
      rw [hkey, (Fields.get?_eq_some_iff hnames').2 hys.1] at hget
      cases hget
      exact hequal
  exact hparts as bs hkeys (fun _ => id) fun _ => id

/-- Equal values have the same text inside of others, if objects list their names in one order. -/
theorem nested?_eq_of_equal {made : List Closure} {a b : Value} (ha : a.Genuine made)
    (hb : b.Genuine made) (horder : a.sameOrder b) (h : a.equal b) : a.nested? = b.nested? := by
  induction a using inductionOn generalizing b with
  | null => rw [← null_equal_iff.1 h]
  | bool x => rw [← bool_equal_iff.1 h]
  | number n =>
    obtain ⟨m, rfl, hnm⟩ := number_equal_iff.1 h
    rw [nested?, nested?, Number.display?_eq_of_equal hnm]
  | string s => rw [← string_equal_iff.1 h]
  | array items ih =>
    obtain ⟨others, rfl, hequal⟩ := array_equal_iff.1 h
    rw [Genuine.array_iff] at ha hb
    rw [sameOrder] at horder
    have hitems : nestedItems? items = nestedItems? others := by
      clear h
      induction hequal with
      | nil => rfl
      | cons hitem _ ihrest =>
        rw [List.forall_mem_cons] at ih ha hb
        rw [itemsSameOrder, Bool.and_eq_true] at horder
        rw [nestedItems?, nestedItems?, ih.1 ha.1 hb.1 horder.1 hitem,
          ihrest ih.2 ha.2 hb.2 horder.2]
    rw [nested?, nested?, hitems]
  | object as ih =>
    obtain ⟨bs, rfl, -, hlookups⟩ := object_equal_iff.1 h
    rw [Genuine.object_iff] at ha hb
    obtain ⟨hnames, ha⟩ := ha
    obtain ⟨-, hb⟩ := hb
    rw [sameOrder, Bool.and_eq_true, beq_iff_eq] at horder
    obtain ⟨hkeys, horder⟩ := horder
    have hentries : nestedEntries? as = nestedEntries? bs := by
      have hequal := forall₂_equal hkeys hnames hlookups
      clear h hlookups hkeys hnames
      induction hequal with
      | nil => rfl
      | cons hentry _ ihrest =>
        rw [List.forall_mem_cons] at ih ha hb
        rw [entriesSameOrder, Bool.and_eq_true] at horder
        rw [nestedEntries?, nestedEntries?, hentry.1, ih.1 ha.1 hb.1 horder.1 hentry.2,
          ihrest ih.2 ha.2 hb.2 horder.2]
    rw [nested?, nested?, hentries]
  | closure f =>
    obtain ⟨g, rfl, hid⟩ := closure_equal_iff.1 h
    have hf : f ∈ (closure f).functions := List.mem_singleton_self f
    have hg : g ∈ (closure g).functions := List.mem_singleton_self g
    rw [ha.eq_of_id_eq hb hf hg hid]
  | builtin f => rw [← builtin_equal_iff.1 h]

theorem display?_eq_of_equal {made : List Closure} {a b : Value} (ha : a.Genuine made)
    (hb : b.Genuine made) (horder : a.sameOrder b) (h : a.equal b) : a.display? = b.display? := by
  have hnested := nested?_eq_of_equal ha hb horder h
  cases a with
  | string s => rw [← string_equal_iff.1 h]
  | null | bool | number | array | object | closure | builtin =>
    cases b with
    | string t => cases kind_eq_of_equal h
    | _ => exact hnested

end Value

/-! ### What replacing a value by an equal one changes -/

open Operators (binary unary isString binary_plus_of_isString)

theorem isString_eq_of_equal {a b : Value} (h : a.equal b) : isString a = isString b := by
  have hkind := Value.kind_eq_of_equal h
  cases a <;> cases b <;> first | rfl | cases hkind

theorem display_eq_of_display? {a b : Value} (h : a.display? = b.display?) :
    Operators.display a = Operators.display b := by
  rw [Operators.display, Operators.display, h]

/-- One value among others is shown with them by its text alone. -/
theorem displayAll_congr {a b : Value} (h : a.display? = b.display?) (before after : List Value) :
    displayAll (before ++ a :: after) = displayAll (before ++ b :: after) := by
  induction before with
  | nil => rw [List.nil_append, List.nil_append, displayAll, displayAll, display_eq_of_display? h]
  | cons v before ih => rw [List.cons_append, List.cons_append, displayAll, displayAll, ih]

/-- **Equal values are not told apart.** Values of one session that are equal are of one kind and
true or false together, so no condition tells one from the other. If objects at corresponding places
in them list their names in the same order, both have the same text or none, so no concatenation, no
printed line and no text of `str` changes when one is put in the place of the other. The values that
a session comes by are genuine together (`Session.exists_genuine`, `exists_genuine_operands`). -/
theorem equal_indistinguishable {made : List Closure} {a b : Value} (ha : a.Genuine made)
    (hb : b.Genuine made) (h : a.equal b) :
    a.kind.name = b.kind.name ∧ a.truthy = b.truthy ∧
    (∀ operator ∈ ["and", "or"], ∀ c, binary operator a c = binary operator b c ∧
      binary operator c a = binary operator c b) ∧
    (∀ operator ∈ ["not", "!"], unary operator a = unary operator b) ∧
    (a.sameOrder b →
      Operators.display a = Operators.display b ∧
      (∀ c, isString a ∨ isString c → binary "+" a c = binary "+" b c ∧
        binary "+" c a = binary "+" c b) ∧
      ∀ before after line,
        Builtin.print.call (before ++ a :: after) line =
          Builtin.print.call (before ++ b :: after) line ∧
        Builtin.str.call (a :: after) line = Builtin.str.call (b :: after) line) := by
  have htruthy := Value.truthy_eq_of_equal h
  refine ⟨congrArg ValueKind.name (Value.kind_eq_of_equal h), htruthy, ?_, ?_, fun horder => ?_⟩
  · simp [binary, htruthy]
  · simp [unary, htruthy]
  have htext := Value.display?_eq_of_equal ha hb horder h
  have hdisplay := display_eq_of_display? htext
  refine ⟨hdisplay, fun c hstring => ?_, fun before after line => ⟨?_, ?_⟩⟩
  · have hstring' : isString b ∨ isString c := isString_eq_of_equal h ▸ hstring
    rw [binary_plus_of_isString hstring, binary_plus_of_isString hstring',
      binary_plus_of_isString hstring.symm, binary_plus_of_isString hstring'.symm, hdisplay]
    exact ⟨rfl, rfl⟩
  · simp only [Builtin.call, displayAll_congr htext]
  · simp only [Builtin.call, List.head?_cons, Option.getD_some, hdisplay]

/-- An object of integers with a function and the object of the doubles equal to them, one of which
is a negative zero, as two expressions of one session give them, have the same text and print the
same line. -/
theorem equal_indistinguishable_mixed :
    let f : Closure := ⟨0, "f", [], .block [] 1, 0⟩
    let a := Value.object [("n", .int 9007199254740992), ("items", .array [.int 0, .closure f])]
    let b := Value.object [("n", .number (.double (.ofInt 9007199254740992))),
      ("items", .array [.number (.double (.zero true)), .closure f])]
    let m := Session.after {} [⟨[.function "f" [] (.block [] 1) 1]⟩] (Machine.start [])
    let node (n zero : Number) : Node := .object [("n", .literal (.number n) 1),
      ("items", .array [.literal (.number zero) 1, .identifier "f" 1] 1)] 1
    evaluate {} 3 Machine.globals (node (.integer 9007199254740992) (.integer 0)) m = .ok a m ∧
      evaluate {} 3 Machine.globals
        (node (.double (.ofInt 9007199254740992)) (.double (.zero true))) m = .ok b m ∧
      (∃ made, m.Made made ∧ a.Genuine made ∧ b.Genuine made) ∧ a.equal b ∧ a.sameOrder b ∧
      Operators.display b = .ok "\x7bn: 9007199254740992, items: [0, <fn f>]\x7d" ∧
      Operators.display a = Operators.display b ∧
      Builtin.print.call [.string "a", a] 1 = Builtin.print.call [.string "a", b] 1 := by
  intro f a b m node
  have hleft : evaluate {} 3 Machine.globals (node (.integer 9007199254740992) (.integer 0)) m =
      .ok a m := by
    with_unfolding_all rfl
  have hright : evaluate {} 3 Machine.globals
      (node (.double (.ofInt 9007199254740992)) (.double (.zero true))) m = .ok b m := by
    with_unfolding_all rfl
  have hequal : a.equal b := by decide +kernel
  have horder : a.sameOrder b := by decide +kernel
  have htext : b.display? = some "\x7bn: 9007199254740992, items: [0, <fn f>]\x7d" := by
    decide +kernel
  have henv : ∀ entry ∈ ([] : List (String × Value)), entry.2.Genuine [] := nofun
  obtain ⟨made₀, hm, -⟩ := Session.exists_genuine henv {} [⟨[.function "f" [] (.block [] 1) 1]⟩]
  obtain ⟨made, -, hmade, ha, hb⟩ := exists_genuine_operands hm hleft hright
  obtain ⟨hdisplay, -, hcalls⟩ := (equal_indistinguishable ha hb hequal).2.2.2.2 horder
  exact ⟨hleft, hright, ⟨made, hmade, ha, hb⟩, hequal, horder, Operators.display_of_eq_some htext,
    hdisplay, (hcalls [.string "a"] [] 1).1⟩

end PageScript
