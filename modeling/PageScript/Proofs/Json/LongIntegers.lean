import Mathlib.Data.List.TakeWhile
import PageScript.Proofs.Json.RoundTrip

/-!
Integers with too many digits. Reading data fails because of one exactly if everything in front of
it can be read, a value may stand where it begins, and it has more than `Numeral.maxDigits` digits
and is no double. Doubles and strings may be as long as they like.
-/
namespace PageScript

namespace Numeral

/-- ASCII digits, perhaps behind a minus, are refused only if there are too many of them. -/
theorem integer?_eq_none_iff (negative : Bool) {first : Char} {more : List Char}
    (hfirst : first.isDigit) (hmore : ∀ c ∈ more, c.isDigit) :
    integer? (String.ofList ((if negative then ['-', first] else [first]) ++ more)) = none ↔
      maxDigits < (first :: more).length := by
  have hdigits : ∀ c ∈ first :: more, c.isDigit := List.forall_mem_cons.2 ⟨hfirst, hmore⟩
  have hmargin : ∀ c ∈ first :: more, isMargin c = false :=
    fun c hc => isMargin_of_isDigit (hdigits c hc)
  have hread : digits? (first :: more) = some ((first :: more).map fun c => c.toNat - 48) :=
    digitsAfter_of_isDigit hdigits (by decide)
  have hsign : sign (trim ((if negative then ['-', first] else [first]) ++ more)) =
      (negative, first :: more) := by
    cases negative with
    | false => exact (congrArg sign (trim_eq_self hmargin)).trans (sign_of_isDigit hdigits)
    | true =>
      have hmargin : ∀ c ∈ '-' :: first :: more, isMargin c = false :=
        List.forall_mem_cons.2 ⟨by decide, hmargin⟩
      exact congrArg sign (trim_eq_self hmargin)
  simp only [integer?, String.toList_ofList, hsign, hread, Option.bind_eq_bind, Option.bind_some,
    List.map_cons, List.isEmpty_cons, Bool.false_or, List.length_cons, List.length_map,
    decide_eq_true_eq]
  split
  · next hmany => exact iff_of_true rfl hmany
  · next hfew => exact iff_of_false (Option.some_ne_none _) hfew

end Numeral

namespace Json

/-! ### Where a long integer begins -/

namespace Lexeme

/-- Whether digits in front of a text go on as a double: with a fraction or an exponent. -/
inductive ContinuesNumber : List Char → Prop where
  | fraction {d : Char} {rest : List Char} (hd : d.isDigit) : ContinuesNumber ('.' :: d :: rest)
  | exponent {e d : Char} {sign rest : List Char} (he : e = 'e' ∨ e = 'E')
    (hsign : sign = [] ∨ sign = ['+'] ∨ sign = ['-']) (hd : d.isDigit) :
    ContinuesNumber (e :: (sign ++ d :: rest))

/-- Whether a text begins with an integer of too many digits, without a sign. -/
inductive BeginsLongDigits : List Char → Prop where
  | mk {digits rest : List Char} (hdigits : ∀ c ∈ digits, c.isDigit) (hzero : digits.head? ≠ some '0')
    (hlong : Numeral.maxDigits < digits.length) (hend : ∀ c ∈ rest.head?, ¬ c.isDigit)
    (hinteger : ¬ ContinuesNumber rest) : BeginsLongDigits (digits ++ rest)

/-- Whether a text begins with an integer of too many digits. -/
inductive BeginsLongInteger : List Char → Prop where
  | natural {text : List Char} (h : BeginsLongDigits text) : BeginsLongInteger text
  | negative {text : List Char} (h : BeginsLongDigits text) : BeginsLongInteger ('-' :: text)

theorem digitCount_pos_iff {cs : List Char} :
    0 < digitCount cs ↔ ∃ d rest, cs = d :: rest ∧ d.isDigit := by
  cases cs with
  | nil => simp [digitCount]
  | cons d rest => by_cases hd : d.isDigit <;> simp [digitCount, hd]

theorem fractionLength_pos_iff {cs : List Char} :
    0 < fractionLength cs ↔ ∃ d rest, cs = '.' :: d :: rest ∧ d.isDigit := by
  have hpoint (rest : List Char) : 0 < fractionLength ('.' :: rest) ↔ 0 < digitCount rest := by
    simp only [fractionLength]
    cases digitCount rest <;> simp
  constructor
  · intro h
    unfold fractionLength at h
    split at h
    · next rest =>
      obtain ⟨d, rest, rfl, hd⟩ := digitCount_pos_iff.1 ((hpoint rest).1 h)
      exact ⟨d, rest, rfl, hd⟩
    · cases h
  · rintro ⟨d, rest, rfl, hd⟩
    exact (hpoint _).2 (digitCount_pos_iff.2 ⟨d, rest, rfl, hd⟩)

/-- The length of the sign in front of the digits of an exponent. -/
def signLength : List Char → Nat
  | '+' :: _ | '-' :: _ => 1
  | _ => 0

theorem signLength_of_isDigit {d : Char} (h : d.isDigit) (rest : List Char) :
    signLength (d :: rest) = 0 := by
  unfold signLength
  split
  · next heq => cases heq; exact absurd h (by decide)
  · next heq => cases heq; exact absurd h (by decide)
  · rfl

/-- A text is its sign and the rest. -/
theorem exists_sign (cs : List Char) : ∃ sign rest, cs = sign ++ rest ∧
    cs.drop (signLength cs) = rest ∧ (sign = [] ∨ sign = ['+'] ∨ sign = ['-']) := by
  unfold signLength
  split
  · next rest => exact ⟨['+'], rest, rfl, rfl, .inr (.inl rfl)⟩
  · next rest => exact ⟨['-'], rest, rfl, rfl, .inr (.inr rfl)⟩
  · exact ⟨[], cs, rfl, rfl, .inl rfl⟩

theorem exponentLength_cons (e : Char) (cs : List Char) :
    exponentLength (e :: cs) =
      if e = 'e' ∨ e = 'E' then
        match digitCount (cs.drop (signLength cs)) with
        | 0 => 0
        | n => n + signLength cs + 1
      else 0 := rfl

/-- A letter begins an exponent if there are digits behind it, perhaps with a sign. -/
theorem exponentLength_pos_iff {e : Char} {cs : List Char} :
    0 < exponentLength (e :: cs) ↔
      (e = 'e' ∨ e = 'E') ∧ 0 < digitCount (cs.drop (signLength cs)) := by
  rw [exponentLength_cons]
  by_cases he : e = 'e' ∨ e = 'E'
  · cases digitCount (cs.drop (signLength cs)) <;> simp [he]
  · simp [he]

theorem continuesNumber_iff {cs : List Char} :
    ContinuesNumber cs ↔ 0 < fractionLength cs + exponentLength cs := by
  rw [Nat.add_pos_iff_pos_or_pos, fractionLength_pos_iff]
  constructor
  · intro h
    cases h with
    | fraction hd => exact .inl ⟨_, _, rfl, hd⟩
    | @exponent e d sign rest he hsign hd =>
      refine .inr (exponentLength_pos_iff.2 ⟨he, digitCount_pos_iff.2 ⟨d, rest, ?_, hd⟩⟩)
      rcases hsign with rfl | rfl | rfl
      · rw [List.nil_append, signLength_of_isDigit hd, List.drop_zero]
      · rfl
      · rfl
  · rintro (⟨d, rest, rfl, hd⟩ | h)
    · exact .fraction hd
    · cases cs with
      | nil => cases h
      | cons e cs =>
        obtain ⟨he, hdigits⟩ := exponentLength_pos_iff.1 h
        obtain ⟨sign, rest, rfl, hrest, hsign⟩ := exists_sign cs
        rw [hrest] at hdigits
        obtain ⟨d, rest, rfl, hd⟩ := digitCount_pos_iff.1 hdigits
        exact .exponent he hsign hd

/-! ### Numbers that are too long -/

theorem digitCount_le_length (cs : List Char) : digitCount cs ≤ cs.length :=
  (List.takeWhile_prefix _).length_le

theorem take_digitCount (cs : List Char) : cs.take (digitCount cs) = cs.takeWhile Char.isDigit :=
  calc cs.take (digitCount cs)
      = (cs.takeWhile Char.isDigit ++ cs.dropWhile Char.isDigit).take (digitCount cs) := by
        rw [List.takeWhile_append_dropWhile]
    _ = cs.takeWhile Char.isDigit := List.take_left' rfl

theorem drop_digitCount (cs : List Char) : cs.drop (digitCount cs) = cs.dropWhile Char.isDigit :=
  calc cs.drop (digitCount cs)
      = (cs.takeWhile Char.isDigit ++ cs.dropWhile Char.isDigit).drop (digitCount cs) := by
        rw [List.takeWhile_append_dropWhile]
    _ = cs.dropWhile Char.isDigit := List.drop_left' rfl

theorem beginsLongDigits_iff {text : List Char} :
    BeginsLongDigits text ↔ text.head? ≠ some '0' ∧ Numeral.maxDigits < digitCount text ∧
      ¬ ContinuesNumber (text.dropWhile Char.isDigit) := by
  constructor
  · rintro @⟨digits, rest, hdigits, hzero, hlong, hend, hinteger⟩
    have hrest : rest.takeWhile Char.isDigit = [] ∧ rest.dropWhile Char.isDigit = rest := by
      cases rest with
      | nil => exact ⟨rfl, rfl⟩
      | cons c rest =>
        have hc := hend c rfl
        exact ⟨List.takeWhile_cons_of_neg hc, List.dropWhile_cons_of_neg hc⟩
    rw [digitCount, List.takeWhile_append_of_pos hdigits, List.dropWhile_append_of_pos hdigits,
      hrest.1, hrest.2, List.append_nil]
    refine ⟨?_, hlong, hinteger⟩
    obtain ⟨d, ds, rfl⟩ : ∃ d ds, digits = d :: ds := by
      apply List.exists_cons_of_ne_nil
      rintro rfl
      cases hlong
    exact hzero
  · rintro ⟨hzero, hlong, hinteger⟩
    rw [← List.takeWhile_append_dropWhile (p := Char.isDigit) (l := text)]
    refine .mk (fun c => List.mem_takeWhile_imp) ?_ hlong ?_ hinteger
    · cases text with
      | nil => simp
      | cons c text => by_cases hc : c.isDigit <;> simp_all
    · intro c hc
      have := List.head?_dropWhile_not Char.isDigit text
      rw [hc] at this
      simpa using this

/-- A number with so many digits behind the first fails to be read exactly if these are too many
and it does not go on as a double. -/
theorem number_eq_wrong_iff_of_whole {negative : Bool} {first : Char} {cs : List Char} {whole : Nat}
    (hwhole : (if first = '0' then 0 else digitCount cs) = whole) (hfirst : first.isDigit) :
    (number negative first cs).1 = .wrong .oversizedInteger ↔
      Numeral.maxDigits < whole + 1 ∧ ¬ ContinuesNumber (cs.drop whole) := by
  have hle : whole ≤ digitCount cs := by
    rw [← hwhole]
    split <;> omega
  have htaken : ∀ c ∈ cs.take whole, c.isDigit := by
    intro c hc
    have htake : cs.take whole <+: cs.takeWhile Char.isDigit := by
      rw [← take_digitCount]
      exact List.take_prefix_take_left hle
    exact List.mem_takeWhile_imp (htake.subset hc)
  have hlength : (first :: cs.take whole).length = whole + 1 := by
    rw [List.length_cons, List.length_take, Nat.min_eq_left (hle.trans (digitCount_le_length cs))]
  rw [continuesNumber_iff, ← hlength, ← Numeral.integer?_eq_none_iff negative hfirst htaken]
  simp only [number, hwhole]
  by_cases hfraction : fractionLength (cs.drop whole) = 0
  · simp only [hfraction, Nat.zero_add, Nat.add_zero]
    by_cases hexponent : exponentLength (cs.drop whole) = 0
    · simp only [hexponent, Nat.add_zero, if_true]
      split <;> simp_all
    · rw [if_neg hexponent]
      split <;> simp [Nat.pos_of_ne_zero hexponent]
  · rw [if_neg (by omega)]
    have : 0 < fractionLength (cs.drop whole) + exponentLength (cs.drop whole) := by omega
    split <;> simp [this]

/-- A number fails to be read exactly if it is an integer of too many digits. -/
theorem number_eq_wrong_iff {negative : Bool} {first : Char} {cs : List Char}
    (hfirst : first.isDigit) :
    (number negative first cs).1 = .wrong .oversizedInteger ↔ BeginsLongDigits (first :: cs) := by
  have hcount : digitCount (first :: cs) = digitCount cs + 1 := by simp [digitCount, hfirst]
  rw [beginsLongDigits_iff, List.dropWhile_cons_of_pos hfirst, hcount, List.head?_cons,
    number_eq_wrong_iff_of_whole rfl hfirst, ← drop_digitCount]
  by_cases hzero : first = '0'
  · simp [hzero, Numeral.maxDigits]
  · simp [hzero]

theorem BeginsLongDigits.exists_cons {text : List Char} (h : BeginsLongDigits text) :
    ∃ d rest, text = d :: rest ∧ d.isDigit := by
  obtain ⟨-, hlong, -⟩ := beginsLongDigits_iff.1 h
  exact digitCount_pos_iff.1 (Nat.zero_lt_of_lt hlong)

theorem BeginsLongInteger.exists_cons {text : List Char} (h : BeginsLongInteger text) :
    ∃ c cs, text = c :: cs := by
  cases h with
  | natural h =>
    obtain ⟨d, rest, rfl, -⟩ := h.exists_cons
    exact ⟨d, rest, rfl⟩
  | negative h => exact ⟨_, _, rfl⟩

/-- Only what begins with a digit, perhaps behind a minus, can be too long. -/
theorem scan_ne_wrong {c : Char} {cs : List Char} (hc : ¬ c.isDigit)
    (hminus : ∀ d ds, c = '-' → cs = d :: ds → ¬ d.isDigit) :
    (scan c cs).1 ≠ .wrong .oversizedInteger := by
  unfold scan
  split
  case h_11 =>
    split
    · nofun
    · split <;> nofun
  case h_12 =>
    rw [if_neg hc]
    split
    · next found hname =>
      obtain ⟨entry, -, rfl⟩ := Option.map_eq_some_iff.1 hname
      nofun
    · split
      · rw [if_neg (hminus _ _ rfl rfl)]
        nofun
      · nofun
  all_goals nofun

/-- **A lexeme is a long integer** exactly where one begins. -/
theorem scan_eq_wrong_iff {c : Char} {cs : List Char} :
    (scan c cs).1 = .wrong .oversizedInteger ↔ BeginsLongInteger (c :: cs) := by
  by_cases hc : c.isDigit
  · rw [scan_of_isDigit hc, number_eq_wrong_iff hc]
    constructor
    · exact .natural
    · rintro (h | h)
      · exact h
      · exact absurd hc (by decide)
  · by_cases hminus : ∃ d ds, c = '-' ∧ cs = d :: ds ∧ d.isDigit
    · obtain ⟨d, ds, rfl, rfl, hd⟩ := hminus
      have hnumber : (scan '-' (d :: ds)).1 = (number true d ds).1 := by rw [scan_minus hd]; rfl
      rw [hnumber, number_eq_wrong_iff hd]
      constructor
      · exact .negative
      · rintro (h | h)
        · obtain ⟨e, es, heq, he⟩ := h.exists_cons
          cases heq
          exact absurd he hc
        · exact h
    · constructor
      · intro h
        exact absurd h (scan_ne_wrong hc fun d ds hc hcs hd => hminus ⟨d, ds, hc, hcs, hd⟩)
      · rintro (h | h)
        · obtain ⟨d, ds, heq, hd⟩ := h.exists_cons
          cases heq
          exact absurd hd hc
        · obtain ⟨d, ds, rfl, hd⟩ := h.exists_cons
          exact absurd ⟨d, ds, rfl, rfl, hd⟩ hminus

end Lexeme

/-! ### Where reading stops -/

variable {expecting : Expecting} {stack : List Open}

/-- Of all steps only one fails for a long integer: that on one in the place of a value. -/
theorem step_eq_oversized_iff {lexeme : Lexeme} :
    step expecting stack lexeme = .error .oversizedInteger ↔
      expecting.Awaits ∧ lexeme = .wrong .oversizedInteger := by
  constructor
  · intro h
    unfold step at h
    split at h
    all_goals first | (cases h; exact ⟨trivial, rfl⟩) | cases h
  · rintro ⟨hawaits, rfl⟩
    cases expecting <;> first | rfl | exact hawaits.elim

/-- What has been read of a text leads to a state of the reader and leaves a rest. -/
inductive Reaches (text : List Char) : Expecting → List Open → List Char → Prop where
  | start : Reaches text .value [] text
  | step {expecting next : Expecting} {stack above : List Open} {c : Char} {cs : List Char}
    (h : Reaches text expecting stack (c :: cs))
    (hstep : Json.step expecting stack (Lexeme.scan c cs).1 = .ok (next, above)) :
    Reaches text next above (cs.drop (Lexeme.scan c cs).2)

/-- Whether reading a text comes to an integer of too many digits in the place of a value. -/
def MeetsLongInteger (text : List Char) : Prop :=
  ∃ expecting stack rest, Reaches text expecting stack rest ∧ expecting.Awaits ∧
    Lexeme.BeginsLongInteger rest

theorem Reaches.read_eq {text rest : List Char} (h : Reaches text expecting stack rest) :
    read text = run expecting stack (Lexeme.all rest) := by
  induction h with
  | start => rfl
  | step h hstep ih => rw [ih, Lexeme.all_cons, run, hstep]

theorem Reaches.meetsLongInteger {text : List Char} {expecting : Expecting} {stack : List Open}
    {rest : List Char} (h : Reaches text expecting stack rest)
    (herror : run expecting stack (Lexeme.all rest) = .error .oversizedInteger) :
    MeetsLongInteger text := by
  match rest with
  | [] =>
    rw [Lexeme.all] at herror
    unfold run at herror
    split at herror <;> cases herror
  | c :: cs =>
    rw [Lexeme.all_cons, run] at herror
    split at herror
    · next next above hstep => exact (h.step hstep).meetsLongInteger herror
    · next hstep =>
      cases herror
      obtain ⟨hawaits, hlexeme⟩ := step_eq_oversized_iff.1 hstep
      exact ⟨expecting, stack, c :: cs, h, hawaits, Lexeme.scan_eq_wrong_iff.1 hlexeme⟩
termination_by rest.length

/-- **Reading fails for a long integer** exactly if it comes to one in the place of a value. -/
theorem read_eq_oversized_iff {text : List Char} :
    read text = .error .oversizedInteger ↔ MeetsLongInteger text := by
  constructor
  · exact Reaches.start.meetsLongInteger
  · rintro ⟨expecting, stack, rest, hreaches, hawaits, hlong⟩
    obtain ⟨c, cs, rfl⟩ := hlong.exists_cons
    have hstep : step expecting stack (Lexeme.scan c cs).1 = .error .oversizedInteger :=
      step_eq_oversized_iff.2 ⟨hawaits, Lexeme.scan_eq_wrong_iff.2 hlong⟩
    rw [hreaches.read_eq, Lexeme.all_cons, run, hstep]

/-- Whether bytes are text in which reading comes to an integer of too many digits. -/
def HoldsLongInteger (bytes : List UInt8) : Prop :=
  ∃ text, Text.detect? bytes = some text ∧ MeetsLongInteger text

theorem ofBytes_eq_oversized_iff {bytes : List UInt8} :
    ofBytes bytes = .error .oversizedInteger ↔ HoldsLongInteger bytes := by
  unfold ofBytes HoldsLongInteger
  cases Text.detect? bytes with
  | some text => simpa using read_eq_oversized_iff
  | none => simp

instance : DecidablePred HoldsLongInteger := fun bytes =>
  match h : ofBytes bytes with
  | .error .oversizedInteger => isTrue (ofBytes_eq_oversized_iff.1 h)
  | .error .malformed | .ok _ => isFalse (mt ofBytes_eq_oversized_iff.2 (by simp [h]))

end Json
end PageScript
