import Mathlib.Data.List.Forall2
import PageScript.Proofs.Fields
import PageScript.Value.Equality

/-!
Equality of values is symmetric and transitive, and every value is equal to itself unless it holds
the number that is none. Numbers are compared exactly, integers with doubles as well, and objects by
what they hold under each name, in whatever order.
-/
namespace PageScript

/-! ### Numbers -/

namespace Double

theorem one_pos : 0 < one := by decide +kernel

/-- A finite double is an integer if its units are a whole number of ones. -/
theorem toInt?_eq_some_iff {negative : Bool} {rank : Fin magnitudes} {n : Int} :
    (finite negative rank).toInt? = some n ↔ units negative rank = n * (one : Int) := by
  have hdvd : (one : Int) ∣ units negative rank ↔ magnitude rank % one = 0 := by
    rw [← Int.natAbs_dvd_natAbs, natAbs_units, Int.natAbs_natCast, Nat.dvd_iff_mod_eq_zero]
  have hne : (one : Int) ≠ 0 := Int.natCast_ne_zero.2 (Nat.ne_of_gt one_pos)
  rw [toInt?]
  by_cases h : magnitude rank % one = 0
  · rw [if_pos h, Option.some.injEq]
    exact Int.ediv_eq_iff_eq_mul_left hne (hdvd.2 h)
  · rw [if_neg h]
    constructor
    · nofun
    · intro hunits
      exact absurd (hdvd.1 (hunits ▸ Int.dvd_mul_left n one)) h

end Double

namespace Number
variable {a b c : Number}

theorem equal_iff : a.equal b ↔ ∃ p, a.place? = some p ∧ b.place? = some p := by
  unfold equal
  cases a.place? with
  | none => simp
  | some p =>
    cases b.place? with
    | none => simp
    | some q =>
      simp only [beq_iff_eq, Option.some.injEq, exists_eq_left']
      exact eq_comm

theorem equal_symm (h : a.equal b) : b.equal a := by
  obtain ⟨p, ha, hb⟩ := equal_iff.1 h
  exact equal_iff.2 ⟨p, hb, ha⟩

theorem equal_trans (hab : a.equal b) (hbc : b.equal c) : a.equal c := by
  obtain ⟨p, ha, hb⟩ := equal_iff.1 hab
  obtain ⟨q, hb', hc⟩ := equal_iff.1 hbc
  rw [hb] at hb'
  cases hb'
  exact equal_iff.2 ⟨p, ha, hc⟩

theorem equal_self_iff : a.equal a ↔ a ≠ .double .nan := by
  rw [equal_iff]
  cases a with
  | integer n => exact ⟨fun _ => nofun, fun _ => ⟨_, rfl, rfl⟩⟩
  | double d =>
    cases d with
    | nan => exact ⟨fun ⟨_, h, _⟩ => (nomatch h), fun h => absurd rfl h⟩
    | infinite negative => cases negative <;> exact ⟨fun _ => nofun, fun _ => ⟨_, rfl, rfl⟩⟩
    | finite negative rank => exact ⟨fun _ => nofun, fun _ => ⟨_, rfl, rfl⟩⟩

theorem equal_integers_iff {m n : Int} : (integer m).equal (integer n) ↔ m = n := by
  have hone : (Double.one : Int) ≠ 0 := Int.natCast_ne_zero.2 (Nat.ne_of_gt Double.one_pos)
  show (Place.point (m * (Double.one : Int)) == Place.point (n * (Double.one : Int))) = true ↔ _
  rw [beq_iff_eq, Place.point.injEq]
  exact Int.mul_eq_mul_right_iff hone

/-- An integer is equal to a double of exactly its value. -/
theorem equal_integer_double_iff {n : Int} {d : Double} :
    (integer n).equal (double d) ↔ d.toInt? = some n := by
  cases d with
  | nan => exact ⟨nofun, nofun⟩
  | infinite negative => cases negative <;> exact ⟨nofun, nofun⟩
  | finite negative rank =>
    rw [Double.toInt?_eq_some_iff]
    show (Place.point (n * (Double.one : Int)) == Place.point (Double.units negative rank)) = true ↔ _
    rw [beq_iff_eq, Place.point.injEq]
    exact eq_comm

end Number

namespace Value

/-! ### What a value holds -/

mutual

/-- Whether no object in a value has a name twice. -/
def namesApart : Value → Bool
  | null | bool _ | number _ | string _ | closure _ | builtin _ => true
  | array items => allNamesApart items
  | object entries => decide (Fields.keys entries).Nodup && entriesNamesApart entries

def allNamesApart : List Value → Bool
  | [] => true
  | item :: rest => namesApart item && allNamesApart rest

def entriesNamesApart : List (String × Value) → Bool
  | [] => true
  | (_, value) :: rest => namesApart value && entriesNamesApart rest

end

mutual

/-- Whether a value holds the number that is none. -/
def holdsNan : Value → Bool
  | number n => n == .double .nan
  | array items => anyHoldsNan items
  | object entries => entriesHoldNan entries
  | null | bool _ | string _ | closure _ | builtin _ => false

def anyHoldsNan : List Value → Bool
  | [] => false
  | item :: rest => holdsNan item || anyHoldsNan rest

def entriesHoldNan : List (String × Value) → Bool
  | [] => false
  | (_, value) :: rest => holdsNan value || entriesHoldNan rest

end

theorem namesApart_array {items : List Value} :
    (array items).namesApart ↔ ∀ item ∈ items, item.namesApart := by
  rw [namesApart]
  induction items with
  | nil => simp [allNamesApart]
  | cons item rest ih => simp [allNamesApart, ih]

theorem entriesNamesApart_iff {entries : Fields Value} :
    entriesNamesApart entries ↔ ∀ entry ∈ entries, entry.2.namesApart := by
  induction entries with
  | nil => simp [entriesNamesApart]
  | cons entry rest ih =>
    rw [entriesNamesApart, Bool.and_eq_true, ih, List.forall_mem_cons]

theorem namesApart_object {entries : Fields Value} :
    (object entries).namesApart ↔
      entries.keys.Nodup ∧ ∀ entry ∈ entries, entry.2.namesApart := by
  rw [namesApart, Bool.and_eq_true, decide_eq_true_eq, entriesNamesApart_iff]

theorem holdsNan_array {items : List Value} :
    (array items).holdsNan ↔ ∃ item ∈ items, item.holdsNan := by
  rw [holdsNan]
  induction items with
  | nil => simp [anyHoldsNan]
  | cons item rest ih => simp [anyHoldsNan, ih]

theorem holdsNan_object {entries : Fields Value} :
    (object entries).holdsNan ↔ ∃ entry ∈ entries, entry.2.holdsNan := by
  rw [holdsNan]
  induction entries with
  | nil => simp [entriesHoldNan]
  | cons entry rest ih => rw [entriesHoldNan, Bool.or_eq_true, ih, List.exists_mem_cons_iff]

/-- **Induction on what a value is made of.** -/
@[elab_as_elim]
theorem inductionOn {motive : Value → Prop} (null : motive null) (bool : ∀ b, motive (bool b))
    (number : ∀ n, motive (number n)) (string : ∀ s, motive (string s))
    (array : ∀ items, (∀ item ∈ items, motive item) → motive (array items))
    (object : ∀ entries, (∀ entry ∈ entries, motive entry.2) → motive (object entries))
    (closure : ∀ f, motive (closure f)) (builtin : ∀ b, motive (builtin b)) : ∀ v, motive v
  | .null => null
  | .bool b => bool b
  | .number n => number n
  | .string s => string s
  | .array items => array items fun item _ =>
      inductionOn null bool number string array object closure builtin item
  | .object entries => object entries fun entry _ =>
      inductionOn null bool number string array object closure builtin entry.2
  | .closure f => closure f
  | .builtin b => builtin b
decreasing_by
  · have := List.sizeOf_lt_of_mem ‹item ∈ items›
    simp
    omega
  · have := List.sizeOf_lt_of_mem ‹entry ∈ entries›
    cases entry
    simp at this ⊢
    omega

/-! ### Equality by kind -/

variable {a b c : Value} {as bs : Fields Value}

theorem itemsEqual_iff {as bs : List Value} :
    itemsEqual as bs ↔ List.Forall₂ (fun a b => a.equal b) as bs := by
  induction as generalizing bs with
  | nil => cases bs <;> simp [itemsEqual]
  | cons a as ih =>
    cases bs with
    | nil => simp [itemsEqual]
    | cons b bs => rw [itemsEqual, Bool.and_eq_true, ih, List.forall₂_cons]

theorem entriesEqual_iff :
    entriesEqual as bs ↔ ∀ entry ∈ as, ∃ b, bs.get? entry.1 = some b ∧ entry.2.equal b := by
  induction as with
  | nil => simp [entriesEqual]
  | cons entry rest ih =>
    rw [entriesEqual, Bool.and_eq_true, ih, List.forall_mem_cons]
    cases bs.get? entry.1 <;> simp

theorem null_equal_iff : null.equal b ↔ null = b := by
  cases b <;> simp [equal]

theorem bool_equal_iff {x : Bool} : (bool x).equal b ↔ bool x = b := by
  cases b <;> simp [equal]

theorem number_equal_iff {n : Number} : (number n).equal b ↔ ∃ m, b = number m ∧ n.equal m := by
  cases b <;> simp [equal]

theorem string_equal_iff {s : String} : (string s).equal b ↔ string s = b := by
  cases b <;> simp [equal]

theorem array_equal_iff {items : List Value} :
    (array items).equal b ↔
      ∃ others, b = array others ∧ List.Forall₂ (fun a b => a.equal b) items others := by
  cases b <;> simp [equal, itemsEqual_iff]

theorem object_equal_iff :
    (object as).equal b ↔ ∃ bs, b = object bs ∧ as.length = bs.length ∧
      ∀ entry ∈ as, ∃ b, Fields.get? bs entry.1 = some b ∧ entry.2.equal b := by
  cases b <;> simp [equal, entriesEqual_iff]

theorem closure_equal_iff {f : Closure} :
    (closure f).equal b ↔ ∃ g, b = closure g ∧ f.id = g.id := by
  cases b <;> simp [equal]

theorem builtin_equal_iff {f : Builtin} : (builtin f).equal b ↔ builtin f = b := by
  cases b <;> simp [equal]

theorem kind_eq_of_equal (h : a.equal b) : a.kind = b.kind := by
  cases a with
  | null => rw [← null_equal_iff.1 h]
  | bool x => rw [← bool_equal_iff.1 h]
  | number n =>
    obtain ⟨m, rfl, -⟩ := number_equal_iff.1 h
    rfl
  | string s => rw [← string_equal_iff.1 h]
  | array items =>
    obtain ⟨others, rfl, -⟩ := array_equal_iff.1 h
    rfl
  | object as =>
    obtain ⟨bs, rfl, -⟩ := object_equal_iff.1 h
    rfl
  | closure f =>
    obtain ⟨g, rfl, -⟩ := closure_equal_iff.1 h
    rfl
  | builtin f => rw [← builtin_equal_iff.1 h]

/-! ### Equality of objects -/

/-- Objects of as many entries have the same names if one of them has all names of the other. -/
theorem keys_perm (hnames : as.keys.Nodup) (hlength : as.length = bs.length)
    (h : ∀ entry ∈ as, ∃ b, bs.get? entry.1 = some b ∧ entry.2.equal b) :
    as.keys.Perm bs.keys := by
  have hsubset : as.keys ⊆ bs.keys := by
    intro name hname
    obtain ⟨entry, hentry, rfl⟩ := List.mem_map.1 hname
    obtain ⟨b, hget, -⟩ := h entry hentry
    exact Fields.mem_keys_of_mem (Fields.mem_of_get? hget)
  refine (hnames.subperm hsubset).perm_of_length_le (Nat.le_of_eq ?_)
  rw [Fields.keys, Fields.keys, List.length_map, List.length_map, hlength]

/-- **Objects are equal if they have the same names and equal values under each**, in whatever
order their entries stand. -/
theorem equal_objects_iff (ha : as.keys.Nodup) (hb : bs.keys.Nodup) :
    (object as).equal (object bs) ↔
      (∀ name, name ∈ as.keys ↔ name ∈ bs.keys) ∧
        ∀ name a b, as.get? name = some a → bs.get? name = some b → a.equal b := by
  rw [object_equal_iff]
  constructor
  · rintro ⟨_, ⟨⟩, hlength, hequal⟩
    refine ⟨fun name => (keys_perm ha hlength hequal).mem_iff, fun name a b hgeta hgetb => ?_⟩
    obtain ⟨found, hfound, hab⟩ := hequal _ (Fields.mem_of_get? hgeta)
    rw [hgetb] at hfound
    cases hfound
    exact hab
  · rintro ⟨hnames, hvalues⟩
    have hkeys : as.keys.Perm bs.keys := (List.perm_ext_iff_of_nodup ha hb).2 hnames
    refine ⟨bs, rfl, by simpa [Fields.keys] using hkeys.length_eq, fun entry hentry => ?_⟩
    obtain ⟨b, hget⟩ := Fields.exists_get?_of_mem_keys <|
      (hnames entry.1).1 (Fields.mem_keys_of_mem hentry)
    exact ⟨b, hget, hvalues _ _ _ ((Fields.get?_eq_some_iff ha).2 hentry) hget⟩

/-! ### The laws of an equivalence -/

theorem equal_symm (ha : a.namesApart) (hb : b.namesApart) (h : a.equal b) : b.equal a := by
  induction a using inductionOn generalizing b with
  | null => rw [← null_equal_iff.1 h]; rfl
  | bool x => rw [← bool_equal_iff.1 h]; exact bool_equal_iff.2 rfl
  | number n =>
    obtain ⟨m, rfl, hequal⟩ := number_equal_iff.1 h
    exact number_equal_iff.2 ⟨n, rfl, Number.equal_symm hequal⟩
  | string s => rw [← string_equal_iff.1 h]; exact string_equal_iff.2 rfl
  | array items ih =>
    obtain ⟨others, rfl, hequal⟩ := array_equal_iff.1 h
    rw [namesApart_array] at ha hb
    refine array_equal_iff.2 ⟨items, rfl, ?_⟩
    clear h
    induction hequal with
    | nil => exact .nil
    | cons hitem _ ihrest =>
      rw [List.forall_mem_cons] at ih ha hb
      exact .cons (ih.1 ha.1 hb.1 hitem) (ihrest ih.2 ha.2 hb.2)
  | object as ih =>
    obtain ⟨bs, rfl, -, -⟩ := object_equal_iff.1 h
    rw [namesApart_object] at ha hb
    obtain ⟨hnames, hvalues⟩ := (equal_objects_iff ha.1 hb.1).1 h
    refine (equal_objects_iff hb.1 ha.1).2 ⟨fun name => (hnames name).symm, ?_⟩
    intro name b a hgetb hgeta
    have hmema := Fields.mem_of_get? hgeta
    have hmemb := Fields.mem_of_get? hgetb
    exact ih _ hmema (ha.2 _ hmema) (hb.2 _ hmemb) (hvalues name a b hgeta hgetb)
  | closure f =>
    obtain ⟨g, rfl, hid⟩ := closure_equal_iff.1 h
    exact closure_equal_iff.2 ⟨f, rfl, hid.symm⟩
  | builtin f => rw [← builtin_equal_iff.1 h]; exact builtin_equal_iff.2 rfl

theorem equal_trans (hab : a.equal b) (hbc : b.equal c) : a.equal c := by
  induction a using inductionOn generalizing b c with
  | null => rwa [null_equal_iff.1 hab]
  | bool x => rwa [bool_equal_iff.1 hab]
  | number n =>
    obtain ⟨m, rfl, hnm⟩ := number_equal_iff.1 hab
    obtain ⟨l, rfl, hml⟩ := number_equal_iff.1 hbc
    exact number_equal_iff.2 ⟨l, rfl, Number.equal_trans hnm hml⟩
  | string s => rwa [string_equal_iff.1 hab]
  | array items ih =>
    obtain ⟨others, rfl, hothers⟩ := array_equal_iff.1 hab
    obtain ⟨more, rfl, hmore⟩ := array_equal_iff.1 hbc
    refine array_equal_iff.2 ⟨more, rfl, ?_⟩
    clear hab hbc
    induction hothers generalizing more with
    | nil => exact hmore
    | cons hitem _ ihrest =>
      rw [List.forall_mem_cons] at ih
      obtain _ | ⟨hitem', hrest'⟩ := hmore
      exact .cons (ih.1 hitem hitem') (ihrest ih.2 _ hrest')
  | object as ih =>
    obtain ⟨bs, rfl, hlength, hbs⟩ := object_equal_iff.1 hab
    obtain ⟨cs, rfl, hlength', hcs⟩ := object_equal_iff.1 hbc
    refine object_equal_iff.2 ⟨cs, rfl, hlength.trans hlength', fun entry hentry => ?_⟩
    -- The entry of `b` that is found under the name is one of those that are found in `c`.
    obtain ⟨b, hgetb, heqb⟩ := hbs entry hentry
    obtain ⟨c, hgetc, heqc⟩ := hcs _ (Fields.mem_of_get? hgetb)
    exact ⟨c, hgetc, ih entry hentry heqb heqc⟩
  | closure f =>
    obtain ⟨g, rfl, hfg⟩ := closure_equal_iff.1 hab
    obtain ⟨h, rfl, hgh⟩ := closure_equal_iff.1 hbc
    exact closure_equal_iff.2 ⟨h, rfl, hfg.trans hgh⟩
  | builtin f => rwa [builtin_equal_iff.1 hab]

/-- A value is equal to itself unless it holds the number that is none. -/
theorem equal_itself_iff (ha : a.namesApart) : a.equal a ↔ ¬ a.holdsNan := by
  induction a using inductionOn with
  | null => simp [equal, holdsNan]
  | bool x => simp [equal, holdsNan]
  | number n => simp [equal, holdsNan, Number.equal_self_iff]
  | string s => simp [equal, holdsNan]
  | array items ih =>
    rw [namesApart_array] at ha
    simp only [equal, itemsEqual_iff, List.forall₂_same, holdsNan_array, not_exists, not_and]
    exact forall₂_congr fun item hitem => ih item hitem (ha item hitem)
  | object entries ih =>
    rw [namesApart_object] at ha
    simp only [equal, beq_self_eq_true, Bool.true_and, entriesEqual_iff, holdsNan_object,
      not_exists, not_and]
    refine forall₂_congr fun entry hentry => ?_
    rw [(Fields.get?_eq_some_iff ha.1).2 hentry]
    simp only [Option.some.injEq, exists_eq_left']
    exact ih entry hentry (ha.2 entry hentry)
  | closure f => simp [equal, holdsNan]
  | builtin f => simp [equal, holdsNan]

/-- **Equality is an equivalence on the values that do not hold the number that is none.** Where no
object has a name twice, it is symmetric and transitive and holds of every such value and itself.
It keeps apart what is not the same: values of different kinds, any two integers, an integer and
every double that is not exactly it, and objects that do not have the same names and equal values
under each. -/
theorem equal_equivalence (ha : a.namesApart) (hb : b.namesApart) :
    a.equal b = b.equal a ∧
    (a.equal a ↔ ¬ a.holdsNan) ∧
    (∀ c, a.equal b → b.equal c → a.equal c) ∧
    (a.equal b → a.kind = b.kind) ∧
    (∀ m n, (int m).equal (int n) ↔ m = n) ∧
    (∀ m d, (int m).equal (number (.double d)) ↔ d.toInt? = some m) ∧
    ∀ as bs, a = object as → b = object bs →
      (a.equal b ↔ (∀ name, name ∈ Fields.keys as ↔ name ∈ Fields.keys bs) ∧
        ∀ name x y, Fields.get? as name = some x → Fields.get? bs name = some y → x.equal y) := by
  refine ⟨Bool.eq_iff_iff.2 ⟨equal_symm ha hb, equal_symm hb ha⟩, equal_itself_iff ha,
    fun c => equal_trans, kind_eq_of_equal, fun m n => ?_, fun m d => ?_, ?_⟩
  · rw [int, int, number_equal_iff]
    simpa using Number.equal_integers_iff
  · rw [int, number_equal_iff]
    simpa using Number.equal_integer_double_iff
  · rintro as bs rfl rfl
    exact equal_objects_iff (namesApart_object.1 ha).1 (namesApart_object.1 hb).1

/-- An object of integers is equal to one of doubles with its entries in another order, and so to
whatever that one is equal to; the double `2 ^ 53` is not equal to the next integer. -/
theorem equal_equivalence_mixed :
    let f : Value := closure ⟨7, "f", [], .block [] 1, 0⟩
    let large : Double := .ofInt 9007199254740992
    let a := object [("n", int 9007199254740992), ("items", array [int 0, f])]
    let b := object [("items", array [number (.double (.zero true)), f]),
      ("n", number (.double large))]
    a.namesApart ∧ b.namesApart ∧ a.equal b = b.equal a ∧ a.equal b ∧ a.equal a ∧
      (∀ c, b.equal c → a.equal c) ∧ ¬ (int 9007199254740993).equal (number (.double large)) := by
  intro f large a b
  have ha : a.namesApart := by decide +kernel
  have hb : b.namesApart := by decide +kernel
  have hab : a.equal b := by decide +kernel
  obtain ⟨hsymm, hself, htrans, -, -, hexact, -⟩ := equal_equivalence ha hb
  refine ⟨ha, hb, hsymm, hab, hself.2 (by decide +kernel), fun c => htrans c hab, ?_⟩
  rw [hexact]
  decide +kernel

end Value
end PageScript
