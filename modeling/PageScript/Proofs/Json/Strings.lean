import PageScript.Json.Reader
import PageScript.Json.Writer
import PageScript.Proofs.Text.Encoding

/-!
Strings in JSON text. A string is written with short escapes, escapes of code units and other
ASCII characters; whatever follows the closing quote, it is read as one lexeme, and its escapes
stand for the characters that they were written for.
-/
namespace PageScript

namespace Json
open Lexeme

/-! ### Escapes -/

/-- The four digits of a unit are read as the unit. -/
theorem hexDigits?_digitChar {unit : Nat} (h : unit < 0x10000) :
    hexDigits? (unit / 4096 % 16).digitChar (unit / 256 % 16).digitChar
      (unit / 16 % 16).digitChar (unit % 16).digitChar = some unit := by
  have hdigit : ∀ n < 16, (if n.digitChar.isDigit then some (n.digitChar.toNat - 0x30)
      else if 'a' ≤ n.digitChar ∧ n.digitChar ≤ 'f' then some (n.digitChar.toNat - 0x61 + 10)
      else if 'A' ≤ n.digitChar ∧ n.digitChar ≤ 'F' then some (n.digitChar.toNat - 0x41 + 10)
      else none) = some n := by decide
  simp only [hexDigits?]
  rw [hdigit _ (by omega), hdigit _ (by omega), hdigit _ (by omega), hdigit _ (by omega)]
  simp only [Option.bind_eq_bind, Option.bind_some, Option.pure_def, Option.some.injEq]
  omega

/-- A part of the inside of a string that stands for code units: it neither ends the string nor is
cut by what follows it. -/
structure Inside (part : List Char) (units : List Nat) : Prop where
  stringLength : ∀ rest,
    stringLength? (part ++ rest) = (stringLength? rest).map (· + part.length)
  unescape : ∀ rest, unescape? (part ++ rest) = (unescape? rest).map (units ++ ·)
  graphic : ∀ c ∈ part, Text.IsGraphic c

namespace Inside

theorem nil : Inside [] [] where
  stringLength rest := by simp
  unescape rest := by simp
  graphic := by simp

theorem append {part more : List Char} {units moreUnits : List Nat} (h : Inside part units)
    (hmore : Inside more moreUnits) : Inside (part ++ more) (units ++ moreUnits) where
  stringLength rest := by
    rw [List.append_assoc, h.stringLength, hmore.stringLength, Option.map_map]
    congr 1
    funext n
    simp only [Function.comp, List.length_append]
    omega
  unescape rest := by
    rw [List.append_assoc, h.unescape, hmore.unescape, Option.map_map]
    congr 1
    funext n
    simp
  graphic c hc := by
    rcases List.mem_append.1 hc with hc | hc
    · exact h.graphic c hc
    · exact hmore.graphic c hc

theorem flatMap {α : Type} {part : α → List Char} {units : α → List Nat} {items : List α}
    (h : ∀ a ∈ items, Inside (part a) (units a)) :
    Inside (items.flatMap part) (items.flatMap units) := by
  induction items with
  | nil => exact nil
  | cons a items ih =>
    simp only [List.flatMap_cons]
    exact (h a (by simp)).append (ih fun b hb => h b (by simp [hb]))

/-- A character that stands for itself. -/
theorem plain {c : Char} (hc : Text.IsGraphic c) (hquote : c ≠ '"') (hslash : c ≠ '\\') :
    Inside [c] [c.toNat] where
  stringLength rest := by
    rw [List.singleton_append, stringLength?]
    · rfl
    · exact hquote
    · intro _ _ h
      exact absurd h hslash
  unescape rest := by
    rw [List.singleton_append, unescape?]
    · have : ¬ (c.toNat < 0x20 ∨ c = '\\') := by
        have := hc.1
        simp only [hslash, or_false]
        omega
      rw [if_neg this]
      cases unescape? rest <;> rfl
    · intro _ _ _ _ _ h
      exact absurd h hslash
    · intro _ _ h
      exact absurd h hslash
  graphic := by simpa using hc

/-- The escape of a code unit. -/
theorem unitEscape {unit : Nat} (h : unit < 0x10000) : Inside (unitEscape unit) [unit] where
  stringLength rest := by
    -- No digit ends the string or begins another escape.
    have hdigit : ∀ n < 16, ∀ cs,
        stringLength? (n.digitChar :: cs) = (stringLength? cs).map (· + 1) := by
      intro n hn cs
      have : n.digitChar ≠ '"' ∧ n.digitChar ≠ '\\' := by
        revert n
        decide
      rw [stringLength?]
      · exact this.1
      · intro _ _ h
        exact absurd h this.2
    simp only [Json.unitEscape, List.map_cons, List.map_nil, List.cons_append, List.nil_append,
      stringLength?]
    rw [hdigit _ (by omega), hdigit _ (by omega), hdigit _ (by omega), hdigit _ (by omega)]
    simp only [Option.map_map]
    rfl
  unescape rest := by
    simp only [Json.unitEscape, List.map_cons, List.map_nil, List.cons_append, List.nil_append]
    rw [unescape?, hexDigits?_digitChar h]
    cases unescape? rest <;> rfl
  graphic c hc := by
    have hdigit : ∀ n < 16, Text.IsGraphic n.digitChar := by decide
    simp only [Json.unitEscape, List.map_cons, List.map_nil, List.mem_cons, List.not_mem_nil,
      or_false] at hc
    rcases hc with rfl | rfl | rfl | rfl | rfl | rfl
    · decide
    · decide
    all_goals exact hdigit _ (by omega)

/-- A short escape. -/
theorem short {e : Char} {code : Nat} (he : Text.IsGraphic e)
    (h : ∀ rest, unescape? ('\\' :: e :: rest) = (unescape? rest).map (code :: ·)) :
    Inside ['\\', e] [code] where
  stringLength rest := by rw [List.cons_append, List.singleton_append, stringLength?]; rfl
  unescape := h
  graphic := by
    intro c hc
    rcases List.mem_cons.1 hc with rfl | hc
    · decide
    · rwa [List.mem_singleton.1 hc]

/-- What is written for a character stands for its units. -/
theorem escape (c : Char) : Inside (escape c) (Text.units c) := by
  unfold Json.escape
  -- First the seven characters with a short escape.
  iterate 7
    split
    · next h =>
      subst h
      apply short (by decide)
      intro rest
      rw [unescape?]
      cases unescape? rest <;> rfl
  next hquote hslash _ _ _ _ _ =>
  split
  · next hgraphic =>
    have hunits : Text.units c = [c.toNat] := if_pos (by omega)
    rw [hunits]
    exact plain hgraphic hquote hslash
  · have := flatMap (fun unit hunit => unitEscape (Text.lt_of_mem_units (c := c) hunit))
    rwa [List.flatMap_singleton'] at this

end Inside

/-! ### Whole strings -/

theorem Inside.stringLength_closed {part : List Char} {units : List Nat} (h : Inside part units)
    (rest : List Char) : stringLength? (part ++ '"' :: rest) = some (part.length + 1) := by
  rw [h.stringLength, stringLength?, Option.map_some, Nat.add_comm]

theorem Inside.unescape_whole {part : List Char} {units : List Nat} (h : Inside part units) :
    unescape? part = some units := by
  have := h.unescape []
  simpa [unescape?] using this

/-- The first lexeme of a text, and the lexemes behind it. -/
theorem Lexeme.all_cons (c : Char) (cs : List Char) :
    all (c :: cs) = (scan c cs).1 :: all (cs.drop (scan c cs).2) := by
  rw [all]

/-- **A string in quotes** is read as that string, whatever follows it. -/
theorem all_quote (s : String) (rest : List Char) :
    all (quote s ++ rest) = .text s :: all rest := by
  have hinside : Inside (s.toList.flatMap Json.escape) (s.toList.flatMap Text.units) :=
    Inside.flatMap fun c _ => Inside.escape c
  have hscan : scan '"' (s.toList.flatMap Json.escape ++ '"' :: rest) =
      (.text s, (s.toList.flatMap Json.escape).length + 1) := by
    simp only [scan, hinside.stringLength_closed, Nat.add_sub_cancel]
    rw [List.take_left, hinside.unescape_whole]
    simp only [Text.ofUnits_flatMap_units, String.ofList_toList]
  simp only [quote, List.cons_append, List.append_assoc, List.nil_append]
  rw [all_cons, hscan, List.drop_length_add_append]
  rfl

/-- A string is written with graphic characters only. -/
theorem isGraphic_of_mem_quote {s : String} {c : Char} (h : c ∈ quote s) : Text.IsGraphic c := by
  rw [quote] at h
  rcases List.mem_cons.1 h with rfl | h
  · decide
  · rcases List.mem_append.1 h with h | h
    · exact (Inside.flatMap fun c _ => Inside.escape c).graphic c h
    · rw [List.mem_singleton.1 h]
      decide

end Json
end PageScript
