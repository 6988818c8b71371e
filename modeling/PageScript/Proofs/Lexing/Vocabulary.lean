import PageScript.Proofs.Lexing.Rendering
import PageScript.Proofs.Lexing.Spans

/-!
The vocabulary: signs, reserved words, names, numbers, and strings that do not end in a backslash.
These are the tokens that sources have apart from errors, and any list of them is read back from
where it is written with single blanks.
-/
namespace PageScript
namespace Lexeme

/-! ### Ends of strings -/

theorem unescape_ne_nil (quote c : Char) (cs : List Char) : unescape quote (c :: cs) ≠ [] := by
  cases cs with
  | nil => simp [unescape]
  | cons d ds =>
    rw [unescape]
    split <;> simp

/-- A string cannot end in a backslash, which would take its closing quote in. -/
theorem getLast?_unescape_ne {quote : Char} (hquote : quote ≠ '\\') {inside : List Char}
    (h : isQuotable quote inside) : (unescape quote inside).getLast? ≠ some '\\' := by
  fun_induction unescape quote inside with
  | case1 => simp
  | case2 c =>
    simp only [isQuotable, Bool.and_eq_true, bne_iff_ne] at h
    simpa using h.2
  | case3 c d ds hesc ih =>
    simp only [isQuotable, if_pos hesc] at h
    rw [List.getLast?_cons]
    cases hlast : (unescape quote ds).getLast? with
    | none => simpa using hquote
    | some last => simpa [hlast] using ih h
  | case4 c d ds hesc ih =>
    simp only [isQuotable, if_neg hesc, Bool.and_eq_true] at h
    rw [List.getLast?_cons]
    cases hlast : (unescape quote (d :: ds)).getLast? with
    | none => exact absurd (List.getLast?_eq_none_iff.1 hlast) (unescape_ne_nil quote d ds)
    | some last => simpa [hlast] using ih h.2

theorem quote_ne_backslash {quote : Char} (h : isQuote quote) : quote ≠ '\\' := by
  rintro rfl
  revert h
  decide

/-! ### Words of the vocabulary -/

/-- What may be a token, apart from its place: a sign or a reserved word, a name, a number, or a
string. -/
inductive Word : Token.Content → Prop where
  | fixed {content : Token.Content} (h : content ∈ fixedContents) : Word content
  | name {text : String} {c : Char} {cs : List Char} (htext : text.toList = c :: cs)
    (hc : isIdentStart c) (hcs : ∀ d ∈ cs, isIdentChar d) (hfree : text ∉ keywords.map Prod.fst) :
    Word (.identifier, text)
  | whole {text : String} (hne : text.toList ≠ []) (h : ∀ c ∈ text.toList, isDigit c) :
    Word (.number, text)
  | decimal {text : String} {whole fraction : List Char}
    (htext : text.toList = whole ++ '.' :: fraction) (hwne : whole ≠ [])
    (hw : ∀ c ∈ whole, isDigit c) (hfne : fraction ≠ []) (hf : ∀ c ∈ fraction, isDigit c) :
    Word (.number, text)
  | string {text : String} (hlast : text.toList.getLast? ≠ some '\\') : Word (.string, text)

/-- How a token may be written: a string between quotes of either kind with a backslash before each
such quote, and anything else as it is. -/
def Renders (content : Token.Content) (raw : String) : Prop :=
  ∃ quote : Char, isQuote quote ∧ raw = written (fun _ => quote) content

theorem lookup_keywords_eq_none {word : String} :
    keywords.lookup word = none ↔ word ∉ keywords.map Prod.fst := by
  rw [List.lookup_eq_none_iff, List.mem_map]
  constructor
  · rintro h ⟨p, hp, rfl⟩
    simpa using h p hp
  · intro h p hp
    exact bne_iff_ne.2 fun hword => h ⟨p, hp, hword.symm⟩

/-- Whatever the grammar has is a word. -/
theorem Spells.word_of {kind : TokenKind} {text : String} {raw : List Char}
    (h : Spells kind text.toList raw) : Word (kind, text) := by
  generalize htext : text.toList = cs at h
  cases h with
  | @sign c kind hmem =>
    obtain rfl := String.toList_inj.1 (htext.trans (String.toList_singleton c).symm)
    exact .fixed (mem_fixedContents_iff.2 (.inl ⟨_, hmem, rfl⟩))
  | @pair c d kind hmem =>
    obtain rfl := String.toList_inj.1 (htext.trans String.toList_ofList.symm)
    exact .fixed (mem_fixedContents_iff.2 (.inr (.inl ⟨_, hmem, rfl⟩)))
  | whole hne hd => exact .whole (by rwa [htext]) (by rwa [htext])
  | decimal hwne hw hfne hf => exact .decimal htext hwne hw hfne hf
  | @word c cs hc hcs =>
    obtain rfl : text = String.ofList (c :: cs) := by rw [← htext, String.ofList_toList]
    cases hkeyword : keywords.lookup (String.ofList (c :: cs)) with
    | none =>
      rw [TokenKind.ofWord, hkeyword]
      exact .name htext hc hcs (lookup_keywords_eq_none.1 hkeyword)
    | some kind =>
      rw [TokenKind.ofWord, hkeyword]
      exact .fixed (mem_fixedContents_iff.2 (.inr (.inr ⟨_, mem_of_lookup hkeyword, rfl⟩)))
  | @string quote inside hq hi =>
    refine .string ?_
    rw [htext]
    exact getLast?_unescape_ne (quote_ne_backslash hq) hi

/-- However a word is written, the grammar has it so. -/
theorem Word.spells {content : Token.Content} (h : Word content) {raw : String}
    (hraw : Renders content raw) : Spells content.1 content.2.toList raw.toList := by
  obtain ⟨quote, hq, rfl⟩ := hraw
  cases h with
  | @fixed content hmem =>
    rw [written_of_ne (kind_of_mem_fixedContents hmem).1]
    exact spells_fixed hmem
  | @name text c cs htext hc hcs hfree =>
    have hword := spells_word htext hc hcs
    rw [TokenKind.ofWord, lookup_keywords_eq_none.2 hfree] at hword
    rw [written_of_ne (by decide)]
    exact hword
  | whole hne hd =>
    rw [written_of_ne (by decide)]
    exact .whole hne hd
  | decimal htext hwne hw hfne hf =>
    rw [written_of_ne (by decide), htext]
    exact .decimal hwne hw hfne hf
  | string hlast => exact spells_written_string hq hlast

/-- No name and no string ends in a backslash. -/
theorem Word.getLast?_ne {kind : TokenKind} {text : String} (h : Word (kind, text))
    (hkind : kind = .identifier ∨ kind = .string) : text.toList.getLast? ≠ some '\\' := by
  cases h with
  | fixed hmem =>
    obtain ⟨hstring, -, hname⟩ := kind_of_mem_fixedContents hmem
    exact absurd hkind (not_or_intro hname hstring)
  | @name text c cs htext hc hcs hfree =>
    intro hlast
    have hmem := List.mem_of_getLast? hlast
    rw [htext, List.mem_cons] at hmem
    have hident : isIdentChar '\\' := by
      rcases hmem with rfl | hmem
      · rw [isIdentChar, hc, Bool.true_or]
      · exact hcs _ hmem
    revert hident
    decide
  | whole | decimal => simp at hkind
  | string hlast => exact hlast

end Lexeme

/-! ### Tokens of sources -/

/-- Some piece of source is a token of this kind with this text. -/
def Token.Lexed (t : Token) : Prop := ∃ raw, Lexeme.Spells t.kind t.text.toList raw

/-- The tokens of a source are such, except for errors. -/
theorem Lexeme.Tokenized.lexed {cs : List Char} {ts : List Token} (h : Tokenized cs ts) :
    ∀ t ∈ ts, t.kind ≠ .endOfInput ∧ (t.kind ≠ .error → t.Lexed) := by
  induction h with
  | done => simp
  | @token gap raw rest t ts hgap ht hts ih =>
    intro u hu
    rcases List.mem_cons.1 hu with rfl | hu
    · exact ⟨ht.ordinary.2, fun hk => ⟨raw, ht.spells hk⟩⟩
    · exact ih u hu

namespace Token
open Lexeme

variable {source : String} {t : Token}

theorem lexed_of_mem (ht : t ∈ ofSource source) (hend : t.kind ≠ .endOfInput)
    (herror : t.kind ≠ .error) : t.Lexed := by
  obtain ⟨ts, eof, hts, heof, -, htokenized⟩ := exists_tokenized .start source.toList
  rw [show ofSource source = ts ++ [eof] from hts, List.mem_append, List.mem_singleton] at ht
  rcases ht with ht | rfl
  · exact (htokenized.lexed t ht).2 herror
  · exact absurd heof hend

theorem Lexed.word (h : t.Lexed) : Word t.content := by
  obtain ⟨raw, hraw⟩ := h
  exact hraw.word_of

/-- Only strings, numbers and identifiers have a text that their kind leaves open. -/
theorem Lexed.mem_fixedContents (h : t.Lexed) (hstring : t.kind ≠ .string)
    (hnumber : t.kind ≠ .number) (hname : t.kind ≠ .identifier) : t.content ∈ fixedContents := by
  have hword := h.word
  obtain ⟨kind, text, line, column⟩ := t
  cases hword with
  | fixed hmem => exact hmem
  | name => exact absurd rfl hname
  | whole | decimal => exact absurd rfl hnumber
  | string => exact absurd rfl hstring

/-- **Rendering and lexing are inverse on the whole vocabulary.** Words that are written with single
blanks between them, strings in quotes of either kind, are read back with an end of input behind
them. And apart from errors and one end of input behind all, every token of a source is a word; so
no string ends in a backslash. -/
theorem ofSource_words :
    (∀ (contents : List Token.Content) (raws : List String), (∀ c ∈ contents, Word c) →
      List.Forall₂ Renders contents raws →
      (ofSource (" ".intercalate raws)).map content = contents ++ [(.endOfInput, "")]) ∧
    ∀ source, ∃ ts eof, ofSource source = ts ++ [eof] ∧ eof.content = (.endOfInput, "") ∧
      ∀ t ∈ ts, t.kind ≠ .error →
        Word t.content ∧ (t.kind = .string → t.text.toList.getLast? ≠ some '\\') := by
  constructor
  · intro contents raws hwords hraws
    have hboth := (List.forall₂_and_left contents raws).2 ⟨hwords, hraws⟩
    exact content_tokens_intercalate (hboth.imp fun c raw h => h.1.spells h.2) .start
  · intro source
    obtain ⟨ts, eof, hts, hkind, htext, h⟩ := exists_tokenized .start source.toList
    refine ⟨ts, eof, hts, Prod.ext hkind htext, fun t ht herror => ?_⟩
    have hword := ((h.lexed t ht).2 herror).word
    exact ⟨hword, fun hstring => hword.getLast?_ne (.inr hstring)⟩

/-- A backslash before a quote, both quotes in one text, and words that begin like others. -/
theorem ofSource_words_quotes :
    let contents : List Token.Content := [(.string, "\\\""), (.string, "'\\\"'"),
      (.identifier, "lets"), (.letWord, "let"), (.number, "007.50"), (.notOp, "!"), (.arrow, "->")]
    let raws := ["\"\\\\\"\"", "'\\'\\\"\\''", "lets", "let", "007.50", "!", "->"]
    (∀ c ∈ contents, Word c) ∧ List.Forall₂ Renders contents raws ∧
      (ofSource (" ".intercalate raws)).map content = contents ++ [(.endOfInput, "")] := by
  intro contents raws
  have hfixed : ∀ c ∈ [(TokenKind.letWord, "let"), (.notOp, "!"), (.arrow, "->")],
      c ∈ fixedContents := by decide
  have hwords : ∀ c ∈ contents, Word c := by
    simp only [contents, List.forall_mem_cons]
    exact ⟨.string (by decide), .string (by decide),
      .name rfl (by decide) (List.all_eq_true.1 rfl) (by decide), .fixed (hfixed _ (by simp)),
      @Word.decimal "007.50" "007".toList "50".toList rfl (by decide) (List.all_eq_true.1 rfl)
        (by decide) (List.all_eq_true.1 rfl),
      .fixed (hfixed _ (by simp)), .fixed (hfixed _ (by simp)), by simp⟩
  have hraws : List.Forall₂ Renders contents raws :=
    .cons ⟨'"', rfl, rfl⟩ (.cons ⟨'\'', rfl, rfl⟩ (.cons ⟨'"', rfl, rfl⟩ (.cons ⟨'"', rfl, rfl⟩
      (.cons ⟨'"', rfl, rfl⟩ (.cons ⟨'"', rfl, rfl⟩ (.cons ⟨'"', rfl, rfl⟩ .nil))))))
  exact ⟨hwords, hraws, ofSource_words.1 contents raws hwords hraws⟩

end Token
end PageScript
