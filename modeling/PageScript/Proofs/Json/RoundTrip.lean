import PageScript.Proofs.Fields
import PageScript.Proofs.Json.Strings
import PageScript.Proofs.Number.Decimal

/-!
Compact JSON text stands for the data that it was written for. Whatever comma or bracket follows it,
the text of a value is read to the state in which that value has just been read; so the induction is
on the data, and the arrays and objects around it stay on the stack as they are.
-/
namespace PageScript

namespace Json

/-! ### Data without doubles -/

mutual

/-- Whether data holds no doubles and no integers that are too long to write, and no object in it
has a name twice. -/
def isExact : Json → Bool
  | .null | .bool _ | .string _ => true
  | .number (.integer n) => Number.fitsText n
  | .number (.double _) => false
  | .array items => allExact items
  | .object entries => decide (Fields.keys entries).Nodup && entriesExact entries

def allExact : List Json → Bool
  | [] => true
  | item :: rest => isExact item && allExact rest

def entriesExact : List (String × Json) → Bool
  | [] => true
  | (_, value) :: rest => isExact value && entriesExact rest

end

mutual

/-- Such data can be written. -/
theorem fitsText_of_isExact : ∀ data : Json, data.isExact → data.fitsText
  | .null | .bool _ | .string _ => by simp [fitsText]
  | .number (.double _) => by simp [isExact]
  | .number (.integer n) => by
    rw [isExact, fitsText]
    exact id
  | .array items => by
    rw [isExact, fitsText]
    exact allFitText_of_allExact items
  | .object entries => by
    rw [isExact, fitsText, Bool.and_eq_true]
    intro h
    exact entriesFitText_of_entriesExact entries h.2

theorem allFitText_of_allExact : ∀ items : List Json, allExact items → allFitText items
  | [] => by simp [allFitText]
  | item :: rest => by
    rw [allExact, allFitText, Bool.and_eq_true, Bool.and_eq_true]
    intro h
    exact ⟨fitsText_of_isExact item h.1, allFitText_of_allExact rest h.2⟩

theorem entriesFitText_of_entriesExact : ∀ entries : List (String × Json),
    entriesExact entries → entriesFitText entries
  | [] => by simp [entriesFitText]
  | (_, value) :: rest => by
    rw [entriesExact, entriesFitText, Bool.and_eq_true, Bool.and_eq_true]
    intro h
    exact ⟨fitsText_of_isExact value h.1, entriesFitText_of_entriesExact rest h.2⟩

end

/-! ### Lexemes -/

/-- What may follow a value: the end, a comma or a closing bracket. -/
def Ends (rest : List Char) : Prop := ∀ c ∈ rest.head?, c = ',' ∨ c = ']' ∨ c = '\x7d'

theorem ends_nil : Ends [] := by simp [Ends]

theorem ends_cons {c : Char} {rest : List Char} (h : c = ',' ∨ c = ']' ∨ c = '\x7d') :
    Ends (c :: rest) := by simpa [Ends] using h

namespace Lexeme

/-- Digits end where a value ends. -/
theorem digitCount_append {ds rest : List Char} (hds : ∀ c ∈ ds, c.isDigit) (hrest : Ends rest) :
    digitCount (ds ++ rest) = ds.length := by
  rw [digitCount, List.takeWhile_append_of_pos hds]
  cases rest with
  | nil => simp
  | cons c rest =>
    have hc : c.isDigit = false := by
      rcases hrest c rfl with rfl | rfl | rfl <;> rfl
    simp [hc]

theorem fractionLength_ends {rest : List Char} (h : Ends rest) : fractionLength rest = 0 := by
  cases rest with
  | nil => rfl
  | cons c rest => rcases h c rfl with rfl | rfl | rfl <;> rfl

theorem exponentLength_ends {rest : List Char} (h : Ends rest) : exponentLength rest = 0 := by
  cases rest with
  | nil => rfl
  | cons c rest => rcases h c rfl with rfl | rfl | rfl <;> rfl

/-- Only zero is written with a zero in front. -/
theorem eq_nil_of_toDigits {n : Nat} {ds : List Char} (h : Nat.toDigits 10 n = '0' :: ds) :
    ds = [] := by
  induction n using Nat.strongRecOn generalizing ds with
  | ind n ih =>
    by_cases hn : n < 10
    · rw [Nat.toDigits_of_lt_base hn] at h
      exact (List.cons.inj h).2.symm
    · rw [Nat.toDigits_of_base_le (by omega) (by omega)] at h
      obtain ⟨front, hfront⟩ : ∃ front, Nat.toDigits 10 (n / 10) = '0' :: front := by
        cases hd : Nat.toDigits 10 (n / 10) with
        | nil => exact absurd hd Nat.toDigits_ne_nil
        | cons d front =>
          rw [hd, List.cons_append] at h
          exact ⟨front, by rw [(List.cons.inj h).1]⟩
      have hzero : n / 10 = 0 := by
        rw [← Nat.ofDigitChars_ten_toDigits (n := n / 10), hfront, ih _ (by omega) hfront]
        rfl
      omega

/-- The digits of an integer are one lexeme. -/
theorem number_toDigits {negative : Bool} {n : Nat} {first : Char} {more rest : List Char}
    {value : Int} (hdigits : Nat.toDigits 10 n = first :: more) (hrest : Ends rest)
    (hvalue : Numeral.integer?
      (String.ofList ((if negative then ['-'] else []) ++ first :: more)) = some value) :
    number negative first (more ++ rest) = (.scalar (.int value), more.length) := by
  have hmore : ∀ c ∈ more, c.isDigit := by
    intro c hc
    apply Nat.isDigit_of_mem_toDigits (b := 10) (n := n) (by omega) (by omega)
    rw [hdigits]
    exact List.mem_cons_of_mem _ hc
  have hwhole : (if first = '0' then 0 else digitCount (more ++ rest)) = more.length := by
    split
    · next h =>
      subst h
      rw [eq_nil_of_toDigits hdigits]
      rfl
    · exact digitCount_append hmore hrest
  have htext : (if negative then ['-', first] else [first]) ++ more =
      (if negative then ['-'] else []) ++ first :: more := by cases negative <;> rfl
  simp only [number, hwhole, List.drop_left, fractionLength_ends hrest, Nat.add_zero,
    exponentLength_ends hrest, List.take_left, if_true, htext, hvalue]

theorem scan_of_isDigit {c : Char} (h : c.isDigit) (cs : List Char) :
    scan c cs = number false c cs := by
  unfold scan
  split
  case h_12 => rw [if_pos h]
  all_goals exact absurd h (by decide)

theorem scan_minus {d : Char} (h : d.isDigit) (cs : List Char) :
    scan '-' (d :: cs) = (number true d cs).map id (· + 1) := by
  have hname : name? ('-' :: d :: cs) = none := by
    have : d ≠ 'I' := by
      rintro rfl
      revert h
      decide
    simp [name?, names, this.symm]
  simp only [scan, hname]
  rw [if_neg (by decide), if_pos h]
  rfl

/-- **An integer** is read as that integer wherever a value may end. -/
theorem all_integer {n : Int} (h : n.natAbs < 10 ^ Numeral.maxDigits) {rest : List Char}
    (hrest : Ends rest) : all ((toString n).toList ++ rest) = .scalar (.int n) :: all rest := by
  have hread := Numeral.integer?_toString h
  have hdigit : ∀ {n : Nat} {first : Char} {more : List Char},
      Nat.toDigits 10 n = first :: more → first.isDigit := by
    intro n first more hdigits
    apply Nat.isDigit_of_mem_toDigits (b := 10) (n := n) (by omega) (by omega)
    simp [hdigits]
  cases n with
  | ofNat n =>
    have htext : (toString (Int.ofNat n)).toList = Nat.toDigits 10 n := Nat.toList_repr
    obtain ⟨first, more, hdigits⟩ :=
      List.exists_cons_of_ne_nil (Nat.toDigits_ne_nil (b := 10) (n := n))
    have hnumber : number false first (more ++ rest) =
        (.scalar (.int (Int.ofNat n)), more.length) :=
      number_toDigits hdigits hrest (by simpa [← hdigits, ← htext] using hread)
    rw [htext, hdigits, List.cons_append, all_cons, scan_of_isDigit (hdigit hdigits), hnumber,
      List.drop_left]
  | negSucc n =>
    have htext : (toString (Int.negSucc n)).toList = '-' :: Nat.toDigits 10 (n + 1) := by
      simp [Int.repr_eq_if]
    obtain ⟨first, more, hdigits⟩ :=
      List.exists_cons_of_ne_nil (Nat.toDigits_ne_nil (b := 10) (n := n + 1))
    have hnumber : number true first (more ++ rest) =
        (.scalar (.int (Int.negSucc n)), more.length) :=
      number_toDigits hdigits hrest (by simpa [← hdigits, ← htext] using hread)
    rw [htext, hdigits, List.cons_append, List.cons_append, all_cons,
      scan_minus (hdigit hdigits), hnumber]
    simp

theorem all_null (rest : List Char) : all ("null".toList ++ rest) = .scalar .null :: all rest := by
  have hscan : scan 'n' ("ull".toList ++ rest) = (.scalar .null, 3) := rfl
  have htext : "null".toList ++ rest = 'n' :: ("ull".toList ++ rest) := rfl
  rw [htext, all_cons, hscan]
  rfl

theorem all_bool (value : Bool) (rest : List Char) :
    all ((if value then "true" else "false").toList ++ rest) =
      .scalar (.bool value) :: all rest := by
  cases value with
  | false =>
    have hscan : scan 'f' ("alse".toList ++ rest) = (.scalar (.bool false), 4) := rfl
    have htext : "false".toList ++ rest = 'f' :: ("alse".toList ++ rest) := rfl
    rw [if_neg (by decide), htext, all_cons, hscan]
    rfl
  | true =>
    have hscan : scan 't' ("rue".toList ++ rest) = (.scalar (.bool true), 3) := rfl
    have htext : "true".toList ++ rest = 't' :: ("rue".toList ++ rest) := rfl
    rw [if_pos rfl, htext, all_cons, hscan]
    rfl

/-- A mark of one character is a lexeme by itself. -/
theorem all_mark {c : Char} {mark : Lexeme} (h : ∀ cs, scan c cs = (mark, 0)) (rest : List Char) :
    all (c :: rest) = mark :: all rest := by
  rw [all_cons, h]
  rfl

end Lexeme

/-! ### Reading -/

/-- A value may come next. -/
def Expecting.Awaits : Expecting → Prop
  | .value | .valueOrEnd => True
  | _ => False

/-- A key may come next, after the entries `done`, latest first. -/
def Expecting.AwaitsKey (done : List (String × Json)) : Expecting → Prop
  | .keyOrEnd => done = []
  | .key entries => entries = done
  | _ => False

variable {expecting : Expecting} {stack : List Open} {lexemes : List Lexeme}

theorem run_scalar (h : expecting.Awaits) (value : Json) :
    run expecting stack (.scalar value :: lexemes) = run (.after value) stack lexemes := by
  cases expecting <;> first | rfl | exact h.elim

theorem run_text (h : expecting.Awaits) (s : String) :
    run expecting stack (.text s :: lexemes) = run (.after (.string s)) stack lexemes := by
  cases expecting <;> first | rfl | exact h.elim

theorem run_beginArray (h : expecting.Awaits) :
    run expecting stack (.beginArray :: lexemes) =
      run .valueOrEnd (.array [] :: stack) lexemes := by
  cases expecting <;> first | rfl | exact h.elim

theorem run_beginObject (h : expecting.Awaits) :
    run expecting stack (.beginObject :: lexemes) = run .keyOrEnd stack lexemes := by
  cases expecting <;> first | rfl | exact h.elim

theorem run_key {done : List (String × Json)} (h : expecting.AwaitsKey done) (key : String) :
    run expecting stack (.text key :: .colon :: lexemes) =
      run .value (.object done key :: stack) lexemes := by
  cases expecting with
  | keyOrEnd => cases h; rfl
  | key entries => cases h; rfl
  | _ => exact h.elim

mutual

/-- **The text of a value** is read to that value, in whatever it stands and whatever follows. -/
theorem run_compactOnto : ∀ data : Json, data.isExact → ∀ {expecting : Expecting},
    expecting.Awaits → ∀ (stack : List Open) {rest : List Char}, Ends rest →
      run expecting stack (Lexeme.all (compactOnto rest data)) =
        run (.after data) stack (Lexeme.all rest)
  | .null => by
    intro _ _ hawaits stack rest _
    rw [compactOnto, Lexeme.all_null, run_scalar hawaits]
  | .bool value => by
    intro _ _ hawaits stack rest _
    rw [compactOnto, Lexeme.all_bool, run_scalar hawaits]
  | .number (.integer n) => by
    intro hexact _ hawaits stack rest hrest
    rw [isExact] at hexact
    rw [compactOnto, numberText, Lexeme.all_integer (Number.natAbs_lt_of_fitsText hexact) hrest,
      run_scalar hawaits]
    rfl
  | .number (.double _) => by simp [isExact]
  | .string s => by
    intro _ _ hawaits stack rest _
    rw [compactOnto, all_quote, run_text hawaits]
  | .array [] => by
    intro _ _ hawaits stack rest _
    rw [compactOnto, itemsOnto, Lexeme.all_mark (fun _ => rfl), Lexeme.all_mark (fun _ => rfl),
      run_beginArray hawaits]
    rfl
  | .array (item :: items) => by
    intro hexact _ hawaits stack rest _
    rw [isExact] at hexact
    have hitem : Expecting.valueOrEnd.Awaits := trivial
    rw [compactOnto, Lexeme.all_mark (fun _ => rfl), run_beginArray hawaits,
      run_itemsOnto (item :: items) (by simp) hexact hitem [] stack]
    rfl
  | .object [] => by
    intro _ _ hawaits stack rest _
    rw [compactOnto, entriesOnto, Lexeme.all_mark (fun _ => rfl), Lexeme.all_mark (fun _ => rfl),
      run_beginObject hawaits]
    rfl
  | .object (entry :: entries) => by
    intro hexact _ hawaits stack rest _
    rw [isExact, Bool.and_eq_true, decide_eq_true_eq] at hexact
    have hkey : Expecting.keyOrEnd.AwaitsKey [] := rfl
    rw [compactOnto, Lexeme.all_mark (fun _ => rfl), run_beginObject hawaits,
      run_entriesOnto (entry :: entries) (by simp) hexact.2 hkey stack,
      List.reverse_nil, List.nil_append, Fields.ofList_eq_self hexact.1]

theorem run_itemsOnto : ∀ items : List Json, items ≠ [] → allExact items →
    ∀ {expecting : Expecting}, expecting.Awaits →
      ∀ (done : List Json) (stack : List Open) {rest : List Char},
        run expecting (.array done :: stack) (Lexeme.all (itemsOnto (']' :: rest) items)) =
          run (.after (.array (done.reverse ++ items))) stack (Lexeme.all rest)
  | [] => by simp
  | [item] => by
    intro _ hexact _ hawaits done stack rest
    rw [allExact, Bool.and_eq_true] at hexact
    rw [itemsOnto, run_compactOnto item hexact.1 hawaits _ (ends_cons (by simp)),
      Lexeme.all_mark (fun _ => rfl), ← List.reverse_cons]
    rfl
  | item :: next :: items => by
    intro _ hexact _ hawaits done stack rest
    rw [allExact, Bool.and_eq_true] at hexact
    have hnext : Expecting.value.Awaits := trivial
    have htext : itemsOnto (']' :: rest) (item :: next :: items) =
        compactOnto (',' :: itemsOnto (']' :: rest) (next :: items)) item := by
      rw [itemsOnto]
      simp
    rw [htext, run_compactOnto item hexact.1 hawaits _ (ends_cons (by simp)),
      Lexeme.all_mark (fun _ => rfl)]
    calc run .value (.array (item :: done) :: stack)
          (Lexeme.all (itemsOnto (']' :: rest) (next :: items)))
      _ = run (.after (.array ((item :: done).reverse ++ next :: items))) stack
            (Lexeme.all rest) :=
          run_itemsOnto (next :: items) (by simp) hexact.2 hnext (item :: done) stack
      _ = _ := by rw [List.reverse_cons, List.append_assoc, List.singleton_append]

theorem run_entriesOnto : ∀ entries : List (String × Json), entries ≠ [] →
    entriesExact entries → ∀ {expecting : Expecting} {done : List (String × Json)},
      expecting.AwaitsKey done → ∀ (stack : List Open) {rest : List Char},
        run expecting stack (Lexeme.all (entriesOnto ('\x7d' :: rest) entries)) =
          run (.after (.object (Fields.ofList (done.reverse ++ entries)))) stack (Lexeme.all rest)
  | [] => by simp
  | [(key, value)] => by
    intro _ hexact _ done hawaits stack rest
    rw [entriesExact, Bool.and_eq_true] at hexact
    have hvalue : Expecting.value.Awaits := trivial
    rw [entriesOnto, all_quote, Lexeme.all_mark (fun _ => rfl), run_key hawaits,
      run_compactOnto value hexact.1 hvalue _ (ends_cons (by simp)),
      Lexeme.all_mark (fun _ => rfl), ← List.reverse_cons]
    rfl
  | (key, value) :: next :: entries => by
    intro _ hexact _ done hawaits stack rest
    rw [entriesExact, Bool.and_eq_true] at hexact
    have hvalue : Expecting.value.Awaits := trivial
    have hnext : (Expecting.key ((key, value) :: done)).AwaitsKey ((key, value) :: done) := rfl
    have htext : entriesOnto ('\x7d' :: rest) ((key, value) :: next :: entries) =
        quote key ++ ':' :: compactOnto (',' :: entriesOnto ('\x7d' :: rest) (next :: entries))
          value := by
      rw [entriesOnto]
      simp
    rw [htext, all_quote, Lexeme.all_mark (fun _ => rfl), run_key hawaits,
      run_compactOnto value hexact.1 hvalue _ (ends_cons (by simp)), Lexeme.all_mark (fun _ => rfl)]
    calc run (.key ((key, value) :: done)) stack
          (Lexeme.all (entriesOnto ('\x7d' :: rest) (next :: entries)))
      _ = run (.after (.object (Fields.ofList
            (((key, value) :: done).reverse ++ next :: entries)))) stack (Lexeme.all rest) :=
          run_entriesOnto (next :: entries) (by simp) hexact.2 hnext stack
      _ = _ := by rw [List.reverse_cons, List.append_assoc, List.singleton_append]

end

/-! ### Characters -/

theorem isGraphic_toDigits {n : Nat} {c : Char} (h : c ∈ Nat.toDigits 10 n) :
    Text.IsGraphic c := by
  have := Numeral.toNat_of_isDigit (Nat.isDigit_of_mem_toDigits (by omega) (by omega) h)
  simp only [Text.IsGraphic]
  omega

theorem isGraphic_toString {n : Int} {c : Char} (h : c ∈ (toString n).toList) :
    Text.IsGraphic c := by
  rw [Int.toString_eq_repr, Int.repr_eq_if] at h
  split at h
  · exact isGraphic_toDigits (by simpa using h)
  · rw [String.toList_append, List.mem_append, Nat.toList_repr] at h
    rcases h with h | h
    · rw [List.mem_singleton.1 h]
      decide
    · exact isGraphic_toDigits h

mutual

/-- Compact text has no line breaks and no other characters than graphic ones. -/
theorem isGraphic_compactOnto : ∀ data : Json, data.isExact → ∀ {rest : List Char},
    (∀ c ∈ rest, Text.IsGraphic c) → ∀ c ∈ compactOnto rest data, Text.IsGraphic c
  | .null => by
    intro _ rest hrest
    rw [compactOnto, List.forall_mem_append]
    exact ⟨Text.isGraphic_of_all (by decide), hrest⟩
  | .bool value => by
    intro _ rest hrest
    rw [compactOnto, List.forall_mem_append]
    exact ⟨Text.isGraphic_of_all (by cases value <;> decide), hrest⟩
  | .number (.integer n) => by
    intro _ rest hrest
    rw [compactOnto, List.forall_mem_append]
    exact ⟨fun c => isGraphic_toString, hrest⟩
  | .number (.double _) => by simp [isExact]
  | .string s => by
    intro _ rest hrest
    rw [compactOnto, List.forall_mem_append]
    exact ⟨fun c => isGraphic_of_mem_quote, hrest⟩
  | .array items => by
    intro hexact rest hrest
    rw [isExact] at hexact
    rw [compactOnto, List.forall_mem_cons]
    have hclosed : ∀ c ∈ ']' :: rest, Text.IsGraphic c := List.forall_mem_cons.2 ⟨by decide, hrest⟩
    exact ⟨by decide, isGraphic_itemsOnto items hexact hclosed⟩
  | .object entries => by
    intro hexact rest hrest
    rw [isExact, Bool.and_eq_true] at hexact
    rw [compactOnto, List.forall_mem_cons]
    have hclosed : ∀ c ∈ '\x7d' :: rest, Text.IsGraphic c :=
      List.forall_mem_cons.2 ⟨by decide, hrest⟩
    exact ⟨by decide, isGraphic_entriesOnto entries hexact.2 hclosed⟩

theorem isGraphic_itemsOnto : ∀ items : List Json, allExact items → ∀ {rest : List Char},
    (∀ c ∈ rest, Text.IsGraphic c) → ∀ c ∈ itemsOnto rest items, Text.IsGraphic c
  | [] => by
    intro _ rest hrest
    rwa [itemsOnto]
  | [item] => by
    intro hexact rest hrest
    rw [allExact, Bool.and_eq_true] at hexact
    rw [itemsOnto]
    exact isGraphic_compactOnto item hexact.1 hrest
  | item :: next :: items => by
    intro hexact rest hrest
    rw [allExact, Bool.and_eq_true] at hexact
    have hnext := isGraphic_itemsOnto (next :: items) hexact.2 hrest
    rw [itemsOnto]
    · exact isGraphic_compactOnto item hexact.1 (List.forall_mem_cons.2 ⟨by decide, hnext⟩)
    · simp

theorem isGraphic_entriesOnto : ∀ entries : List (String × Json), entriesExact entries →
    ∀ {rest : List Char}, (∀ c ∈ rest, Text.IsGraphic c) →
      ∀ c ∈ entriesOnto rest entries, Text.IsGraphic c
  | [] => by
    intro _ rest hrest
    rwa [entriesOnto]
  | [(key, value)] => by
    intro hexact rest hrest
    rw [entriesExact, Bool.and_eq_true] at hexact
    rw [entriesOnto, List.forall_mem_append, List.forall_mem_cons]
    exact ⟨fun c => isGraphic_of_mem_quote, by decide, isGraphic_compactOnto value hexact.1 hrest⟩
  | (key, value) :: next :: entries => by
    intro hexact rest hrest
    rw [entriesExact, Bool.and_eq_true] at hexact
    have hnext := isGraphic_entriesOnto (next :: entries) hexact.2 hrest
    rw [entriesOnto, List.forall_mem_append, List.forall_mem_cons]
    · exact ⟨fun c => isGraphic_of_mem_quote, by decide,
        isGraphic_compactOnto value hexact.1 (List.forall_mem_cons.2 ⟨by decide, hnext⟩)⟩
    · simp

end

/-- **Compact text** is read as the data that it was written for. -/
theorem read_compact {data : Json} (h : data.isExact) : read data.compact.toList = .ok data := by
  have hvalue : Expecting.value.Awaits := trivial
  rw [read, compact, String.toList_ofList, run_compactOnto data h hvalue [] ends_nil, Lexeme.all]
  rfl

end Json
end PageScript
