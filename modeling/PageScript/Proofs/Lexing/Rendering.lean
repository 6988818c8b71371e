import Mathlib.Data.List.Forall2
import PageScript.Proofs.Lexing.LongestMatch

/-!
Rendering: tokens that are written with single blanks between them are read back as they are.
-/
namespace PageScript

/-- What a token is apart from its place: its kind and its text. -/
abbrev Token.Content := TokenKind × String

def Token.content (t : Token) : Token.Content := (t.kind, t.text)

namespace Lexeme

/-! ### Strings -/

/-- A text as it is written between two quotes: with a backslash before each such quote. -/
def escape (quote : Char) : List Char → List Char
  | [] => []
  | c :: cs => if c = quote then '\\' :: quote :: escape quote cs else c :: escape quote cs

theorem head_escape {quote : Char} (hquote : quote ≠ '\\') (cs : List Char) :
    (escape quote cs).head? ≠ some quote := by
  cases cs with
  | nil => simp [escape]
  | cons c cs =>
    by_cases hc : c = quote
    · simp [escape, hc, Ne.symm hquote]
    · simp [escape, hc]

/-- An escaped text may stand between quotes, unless a backslash would take the last of them in. -/
theorem isQuotable_escape {quote : Char} (hquote : quote ≠ '\\') {cs : List Char}
    (hlast : cs.getLast? ≠ some '\\') : isQuotable quote (escape quote cs) := by
  induction cs with
  | nil => rfl
  | cons c cs ih =>
    have htail : isQuotable quote (escape quote cs) := by
      cases cs with
      | nil => rfl
      | cons d ds => exact ih (by simpa [List.getLast?_cons_cons] using hlast)
    by_cases hc : c = quote
    · simpa [escape, hc, isQuotable] using htail
    · have hhead := head_escape hquote cs
      simp only [escape, if_neg hc]
      cases hcs : escape quote cs with
      | nil =>
        have hnil : cs = [] := by
          cases cs with
          | nil => rfl
          | cons d ds => simp only [escape] at hcs; split at hcs <;> cases hcs
        subst hnil
        simpa [isQuotable, hc] using hlast
      | cons d ds =>
        rw [hcs] at htail hhead
        have hd : d ≠ quote := by simpa using hhead
        simpa [isQuotable, hc, hd] using htail

theorem unescape_escape {quote : Char} (hquote : quote ≠ '\\') (cs : List Char) :
    unescape quote (escape quote cs) = cs := by
  induction cs with
  | nil => rfl
  | cons c cs ih =>
    by_cases hc : c = quote
    · simp [escape, hc, unescape, ih]
    · have hhead := head_escape hquote cs
      simp only [escape, if_neg hc]
      cases hcs : escape quote cs with
      | nil =>
        rw [hcs] at ih
        simp [unescape, ← ih]
      | cons d ds =>
        rw [hcs] at ih hhead
        have hd : d ≠ quote := by simpa using hhead
        simp [unescape, hd, ih]

/-- A token as it is written down: a string between quotes, anything else as it is. -/
def written (quote : String → Char) : Token.Content → String
  | (.string, text) =>
    String.ofList (quote text :: (escape (quote text) text.toList ++ [quote text]))
  | (_, text) => text

theorem written_of_ne {kind : TokenKind} (h : kind ≠ .string) (quote : String → Char)
    (text : String) : written quote (kind, text) = text := by
  unfold written
  split
  · next heq => exact absurd (Prod.mk.inj heq).1 h
  · next heq => exact (Prod.mk.inj heq).2.symm

/-- Every text that does not end in a backslash can be written as a string. -/
theorem spells_escape {quote : Char} (hq : isQuote quote) {cs : List Char}
    (hlast : cs.getLast? ≠ some '\\') :
    Spells .string cs (quote :: (escape quote cs ++ [quote])) := by
  have hquote : quote ≠ '\\' := by rintro rfl; revert hq; decide
  have h := Spells.string hq (isQuotable_escape hquote hlast)
  rwa [unescape_escape hquote] at h

theorem spells_written_string {quote : String → Char} {text : String} (hq : isQuote (quote text))
    (hlast : text.toList.getLast? ≠ some '\\') :
    Spells .string text.toList (written quote (.string, text)).toList := by
  rw [written, String.toList_ofList]
  exact spells_escape hq hlast

/-! ### Tokens of one text -/

/-- The signs and the reserved words: the tokens of a kind that has one text, or one of two. -/
def fixedContents : List Token.Content :=
  singleSigns.map (fun p => (p.2, String.singleton p.1)) ++
    doubleSigns.map (fun p => (p.2, String.ofList [p.1.1, p.1.2])) ++
    keywords.map fun p => (p.2, p.1)

theorem mem_fixedContents_iff {content : Token.Content} :
    content ∈ fixedContents ↔
      (∃ p ∈ singleSigns, (p.2, String.singleton p.1) = content) ∨
        (∃ p ∈ doubleSigns, (p.2, String.ofList [p.1.1, p.1.2]) = content) ∨
          ∃ p ∈ keywords, (p.2, p.1) = content := by
  simp only [fixedContents, List.mem_append, List.mem_map, or_assoc]

/-- A kind that leaves the text open is none of them. -/
theorem kind_of_mem_fixedContents {content : Token.Content} (h : content ∈ fixedContents) :
    content.1 ≠ .string ∧ content.1 ≠ .number ∧ content.1 ≠ .identifier := by
  have hall : ∀ c ∈ fixedContents, c.1 ≠ .string ∧ c.1 ≠ .number ∧ c.1 ≠ .identifier := by decide
  exact hall content h

theorem spells_word {word : String} {c : Char} {cs : List Char} (h : word.toList = c :: cs)
    (hc : isIdentStart c) (hcs : ∀ d ∈ cs, isIdentChar d) :
    Spells (.ofWord word) word.toList word.toList := by
  have hword := Spells.word hc hcs
  rwa [← h, String.ofList_toList] at hword

theorem spells_keyword : ∀ p ∈ keywords, Spells p.2 p.1.toList p.1.toList := by
  have hall : ∀ p ∈ keywords, TokenKind.ofWord p.1 = p.2 ∧
      p.1.toList.head?.any isIdentStart ∧ p.1.toList.tail.all isIdentChar := by
    decide
  intro p hp
  obtain ⟨hkind, hstart, hrest⟩ := hall p hp
  cases hword : p.1.toList with
  | nil => simp [hword] at hstart
  | cons c cs =>
    rw [hword] at hstart hrest
    rw [← hkind, ← hword]
    exact spells_word hword hstart (List.all_eq_true.1 hrest)

theorem spells_fixed {content : Token.Content} (h : content ∈ fixedContents) :
    Spells content.1 content.2.toList content.2.toList := by
  rcases mem_fixedContents_iff.1 h with ⟨p, hp, rfl⟩ | ⟨p, hp, rfl⟩ | ⟨p, hp, rfl⟩
  · simpa using Spells.sign hp
  · simpa using Spells.pair hp
  · exact spells_keyword p hp

/-! ### Tokens and blanks -/

theorem numberLength_of_stop {front rest : List Char} (h : ∀ c ∈ front, isDigit c)
    (hstop : ∀ d, rest.head? = some d → isDigit d = false)
    (hpoint : ∀ d, rest.head? = some d → d ≠ '.') :
    numberLength (front ++ rest) = front.length := by
  simp only [numberLength, takeWhile_append_of_stop h hstop, List.drop_left]
  split
  · exact absurd rfl (hpoint '.' rfl)
  · rfl

/-- Whether a character ends whatever token is before it: a blank does, and so does a sign that is
never the second part of another. -/
def isBreak (c : Char) : Bool := isSpace c || c == ',' || c == ')' || c == ']'

theorem isBreak_iff {c : Char} : isBreak c ↔ isSpace c ∨ c = ',' ∨ c = ')' ∨ c = ']' := by
  simp [isBreak, or_assoc]

theorem isIdentChar_of_isBreak {c : Char} (h : isBreak c) : isIdentChar c = false := by
  rcases isBreak_iff.1 h with hspace | rfl | rfl | rfl
  · rw [← Bool.not_eq_true, isIdentChar, Bool.or_eq_true, isIdentStart_iff, isDigit_iff]
    rw [isSpace_iff] at hspace
    omega
  · decide
  · decide
  · decide

theorem isDigit_of_isBreak {c : Char} (h : isBreak c) : isDigit c = false := by
  have hident := isIdentChar_of_isBreak h
  rw [isIdentChar, Bool.or_eq_false_iff] at hident
  exact hident.2

/-- No sign of two characters is made when a break follows. -/
theorem doubleSign?_of_isBreak {rest : List Char} (h : ∀ d, rest.head? = some d → isBreak d)
    (c : Char) : doubleSign? c rest = none := by
  cases hdouble : doubleSign? c rest with
  | none => rfl
  | some kind =>
    obtain ⟨d, ds, rfl, hmem⟩ := mem_of_doubleSign? hdouble
    have hall : ∀ p ∈ doubleSigns, isBreak p.1.2 = false := by decide
    have := hall _ hmem
    simp [h d rfl] at this

/-- A sign is scanned as it is, if it begins neither a longer one nor a comment. -/
theorem scan_sign {c : Char} {kind : TokenKind} (h : (c, kind) ∈ singleSigns) {rest : List Char}
    (hdouble : doubleSign? c rest = none) (hcomment : ¬ (c = '/' ∧ rest.head? = some '/')) :
    scan c rest = (some (kind, String.singleton c), 0) := by
  have hall : ∀ p ∈ singleSigns, isSpace p.1 = false ∧ singleSigns.lookup p.1 = some p.2 := by
    decide
  obtain ⟨hspace, hlookup⟩ := hall _ h
  simp only at hspace hlookup
  simp [scan, hspace, hcomment, hdouble, hlookup]

/-- A token with a break or nothing behind it is scanned as it is. -/
theorem scan_of_spells {kind : TokenKind} {text front rest : List Char} {c : Char}
    (h : Spells kind text (c :: front)) (hrest : ∀ d, rest.head? = some d → isBreak d) :
    scan c (front ++ rest) = (some (kind, String.ofList text), front.length) := by
  -- A break ends every run of digits or letters, and it makes no longer sign with what is before it.
  have hstop {f : Char → Bool} (hf : ∀ d, isBreak d → f d = false) :
      ∀ d, rest.head? = some d → f d = false := fun d hd => hf d (hrest d hd)
  have hpoint : ∀ d, rest.head? = some d → d ≠ '.' := by
    rintro d hd rfl
    exact absurd (hrest _ hd) (by decide)
  generalize hraw : c :: front = raw at h
  cases h with
  | @sign c' kind hmem =>
    obtain ⟨rfl, rfl⟩ := by simpa using hraw
    have hcomment : ¬ (c = '/' ∧ rest.head? = some '/') := by
      rintro ⟨-, hd⟩
      exact absurd (hrest _ hd) (by decide)
    exact scan_sign hmem (doubleSign?_of_isBreak hrest c) hcomment
  | @pair c' d kind hmem =>
    obtain ⟨rfl, rfl⟩ := by simpa using hraw
    exact scan_pair hmem rest
  | whole hne hd =>
    subst hraw
    have hrun : ∀ d ∈ front, isDigit d := fun d hmem => hd d (by simp [hmem])
    rw [scan_digit (hd c (by simp)), numberLength_of_stop hrun (hstop fun _ => isDigit_of_isBreak) hpoint]
    simp
  | @decimal whole fraction hwne hw hfne hf =>
    cases whole with
    | nil => exact absurd rfl hwne
    | cons first whole =>
      obtain ⟨rfl, rfl⟩ := by simpa using hraw
      have hrun := takeWhile_append_of_stop hf (hstop fun _ => isDigit_of_isBreak)
      have hlength : numberLength (whole ++ '.' :: fraction ++ rest) =
          (whole ++ '.' :: fraction).length := by
        rw [List.append_assoc, List.cons_append,
          numberLength_point (fun d hmem => hw d (by simp [hmem])) (by rwa [hrun]), hrun]
        simp [Nat.add_assoc, Nat.add_comm 1]
      rw [scan_digit (hw _ (by simp)), hlength, List.take_left, List.cons_append]
  | word hc hcs =>
    obtain ⟨rfl, rfl⟩ := by simpa using hraw
    have hrun := takeWhile_append_of_stop hcs (hstop fun _ => isIdentChar_of_isBreak)
    simp [scan_letter hc, hrun]
  | @string quote inside hq hi =>
    obtain ⟨rfl, rfl⟩ := by simpa using hraw
    have hback : c ≠ '\\' := by rintro rfl; revert hq; decide
    rw [scan_quote hq, List.append_assoc, List.singleton_append, stringBody?_append hback hi]
    simp

/-- A token with a break or nothing behind it is the first of the tokens. -/
theorem tokens_all_append {kind : TokenKind} {text : String} {raw rest : List Char}
    (h : Spells kind text.toList raw) (hrest : ∀ d, rest.head? = some d → isBreak d)
    (p : Position) :
    tokens p (all (raw ++ rest)) =
      ⟨kind, text, p.line, p.column⟩ :: tokens (p.afterAll raw) (all rest) := by
  cases raw with
  | nil => exact absurd rfl h.ne_nil
  | cons c front =>
    have hscan := scan_of_spells h hrest
    rw [List.cons_append, all, hscan, String.ofList_toList]
    simp only [tokens, List.take_left, List.drop_left]

/-- Blanks before the first token only move it. -/
theorem tokens_all_blank {c : Char} (hc : isSpace c) (cs : List Char) (p : Position) :
    tokens p (all (c :: cs)) = tokens (p.after c) (all cs) := by
  have hscan : scan c cs = (none, 0) := by simp [scan, hc]
  rw [all, hscan]
  rfl

/-- **Rendering.** Tokens that are written with single blanks between them are read back. -/
theorem content_tokens_intercalate {contents : List Token.Content} {raws : List String}
    (h : List.Forall₂ (fun c raw => Spells c.1 c.2.toList raw.toList) contents raws)
    (p : Position) :
    (tokens p (all (" ".intercalate raws).toList)).map Token.content =
      contents ++ [(.endOfInput, "")] := by
  induction h generalizing p with
  | nil => simp [all, tokens, Token.content]
  | @cons content raw contents raws hraw hraws ih =>
    cases hraws with
    | nil =>
      have hstop : ∀ d, ([] : List Char).head? = some d → isBreak d := by simp
      have htokens := tokens_all_append hraw hstop p
      rw [List.append_nil] at htokens
      simp [htokens, all, tokens, Token.content]
    | cons hnext hraws =>
      have ih := ih ((p.afterAll raw.toList).after ' ')
      rw [String.intercalate_cons_cons, String.append_assoc, String.toList_append,
        tokens_all_append hraw (by simp [isBreak, isSpace]), String.toList_append]
      have hblank : " ".toList = [' '] := rfl
      rw [hblank, List.singleton_append, tokens_all_blank (by rfl), List.map_cons, ih]
      rfl

theorem content_ofSource_written {quote : String → Char} {contents : List Token.Content}
    (h : ∀ c ∈ contents, Spells c.1 c.2.toList (written quote c).toList) :
    (Token.ofSource (" ".intercalate (contents.map (written quote)))).map Token.content =
      contents ++ [(.endOfInput, "")] := by
  refine content_tokens_intercalate ?_ .start
  rw [List.forall₂_map_right_iff, List.forall₂_same]
  exact h

end Lexeme
end PageScript
