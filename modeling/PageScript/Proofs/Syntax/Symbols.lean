import Mathlib.Data.List.Forall2
import PageScript.Proofs.Lexing.Vocabulary
import PageScript.Proofs.Syntax.RoundTrip
import PageScript.Proofs.Syntax.Soundness

/-!
Writing programs down, and what the tokens of a source have in common with the program that is read
from it: all of them, in order, up to parentheses.
-/
namespace PageScript
open Reader

/-- What a program is written with. A number stands for every way to write it, and the key of an
object may be a name or a string. -/
inductive Symbol where
  | plain (kind : TokenKind) (text : String)
  | number (value : Number)
  | key (text : String)

namespace Symbol

def kind : Symbol → TokenKind
  | plain kind _ => kind
  | number _ => .number
  | key _ => .identifier

def parentheses : List Symbol := [.plain .leftParen "(", .plain .rightParen ")"]

/-- Whether a token is one that a symbol may be written as. -/
def Fits : Symbol → Token → Prop
  | plain kind text, t => t.kind = kind ∧ t.text = text
  | number value, t => t.kind = .number ∧ numberValue? t.text = some value
  | key text, t => (t.kind = .identifier ∨ t.kind = .string) ∧ t.text = text

end Symbol

def TokenKind.isParenthesis (kind : TokenKind) : Bool := kind == .leftParen || kind == .rightParen

namespace Node

/-- Symbols in parentheses, where that is needed. -/
def parenthesized (needed : Bool) (symbols : List Symbol) : List Symbol :=
  if needed then .plain .leftParen "(" :: (symbols ++ [.plain .rightParen ")"]) else symbols

def literalSymbol : Literal → Symbol
  | .number value => .number value
  | value => .plain (literalContent value).1 (literalContent value).2

/-- Names with commas between them. -/
def nameSymbols (names : List String) : List Symbol :=
  (names.map (.plain .identifier)).intersperse (.plain .comma ",")

mutual

/-- A statement, or an expression where only what binds at least as tightly as `level` may stand
without parentheses. With `head`, an object that would stand first is put in parentheses, since a
statement cannot begin with it. With `nested`, so is an operator under one before an operand. -/
def symbols (nested head : Bool) (level : Nat) : Node → List Symbol
  | .program body _ => symbolsEach nested body
  | .binding name value _ =>
    .plain .letWord "let" :: .plain .identifier name :: .plain .assign "=" ::
      symbols nested false 1 value
  | .function name params body _ =>
    .plain .fnWord "fn" :: .plain .identifier name :: .plain .leftParen "(" ::
      (nameSymbols params ++ .plain .rightParen ")" :: symbols nested false 1 body)
  | .branch condition thenPart elsePart _ =>
    .plain .ifWord "if" :: (symbols nested false 1 condition ++
      (symbols nested false 1 thenPart ++ symbolsElse nested elsePart))
  | .forEach item source body _ =>
    .plain .forWord "for" :: .plain .identifier item :: .plain .identifier "in" ::
      (symbols nested false 1 source ++ symbols nested false 1 body)
  | .whileLoop condition body _ =>
    .plain .whileWord "while" ::
      (symbols nested false 1 condition ++ symbols nested false 1 body)
  | .returning value _ => .plain .returnWord "return" :: symbolsValue nested value
  | .block statements _ =>
    .plain .leftBrace "\x7b" :: (symbolsEach nested statements ++ [.plain .rightBrace "\x7d"])
  | .binary operator left right _ =>
    parenthesized (binaryLevel operator < level)
      (symbols nested (head && !(binaryLevel operator < level)) (binaryLevel operator) left ++
        .plain (binaryKind operator) operator ::
          symbols nested false (binaryLevel operator + 1) right)
  | .unary operator operand _ =>
    parenthesized (7 < level)
      (.plain (unaryKind operator) operator ::
        symbols nested false (if nested then 8 else 7) operand)
  | .call callee args _ =>
    symbols nested head 8 callee ++
      .plain .leftParen "(" :: (symbolsItems nested args ++ [.plain .rightParen ")"])
  | .identifier name _ => [.plain .identifier name]
  | .literal value _ => [literalSymbol value]
  | .array elements _ =>
    .plain .leftBracket "[" :: (symbolsItems nested elements ++ [.plain .rightBracket "]"])
  | .object properties _ =>
    parenthesized head
      (.plain .leftBrace "\x7b" ::
        (symbolsProperties nested properties ++ [.plain .rightBrace "\x7d"]))
  | .template name _ =>
    [.plain .templateStart "\x7b\x7b", .plain .identifier name, .plain .templateEnd "\x7d\x7d"]

/-- The `else` of an `if`. -/
def symbolsElse (nested : Bool) : Option Node → List Symbol
  | none => []
  | some node => .plain .elseWord "else" :: symbols nested false 1 node

def symbolsValue (nested : Bool) : Option Node → List Symbol
  | none => []
  | some node => symbols nested false 1 node

/-- Statements one after another. -/
def symbolsEach (nested : Bool) : List Node → List Symbol
  | [] => []
  | node :: rest => symbols nested true 1 node ++ symbolsEach nested rest

/-- Expressions with commas between them. -/
def symbolsItems (nested : Bool) : List Node → List Symbol
  | [] => []
  | [node] => symbols nested false 1 node
  | node :: next :: rest =>
    symbols nested false 1 node ++ .plain .comma "," :: symbolsItems nested (next :: rest)

/-- Properties with commas between them. -/
def symbolsProperties (nested : Bool) : List (String × Node) → List Symbol
  | [] => []
  | [(key, value)] => .key key :: .plain .colon ":" :: symbols nested false 1 value
  | (key, value) :: next :: rest =>
    .key key :: .plain .colon ":" :: (symbols nested false 1 value ++
      .plain .comma "," :: symbolsProperties nested (next :: rest))

end

end Node

/-- A program as it is written down. -/
def Program.symbols (nested : Bool) (program : Program) : List Symbol :=
  Node.symbolsEach nested program.body

/-! ### The signs of operators -/

namespace Token.Lexed
variable {t : Token}

/-- The sign of an operator between two operands is in the table of these. -/
theorem binaryKind (h : t.Lexed) {held : Nat} (hlevel : level? t.kind = some held) :
    Node.binaryKind t.text = t.kind ∧ Node.binaryLevel t.text = held := by
  have hall : ∀ c ∈ Lexeme.fixedContents, (level? c.1).isSome → Node.binaryKind c.2 = c.1 := by
    decide
  have hkind : Node.binaryKind t.text = t.kind := by
    refine hall (t.kind, t.text) (h.mem_fixedContents ?_ ?_ ?_) (by simp [hlevel])
    all_goals
      intro hk
      rw [hk] at hlevel
      cases hlevel
  exact ⟨hkind, by rw [Node.binaryLevel, hkind, hlevel]; rfl⟩

/-- The sign of an operator before its operand is in the table of these. -/
theorem unaryKind (h : t.Lexed) (hsign : t.kind = .notOp ∨ t.kind = .minus) :
    Node.unaryKind t.text = t.kind := by
  have hall : ∀ c ∈ Lexeme.fixedContents, c.1 = .notOp ∨ c.1 = .minus →
      Node.unaryKind c.2 = c.1 := by
    decide
  refine hall (t.kind, t.text) (h.mem_fixedContents ?_ ?_ ?_) hsign
  all_goals
    rcases hsign with hk | hk <;> simp [hk]

end Token.Lexed

/-- Signs and keywords whose kind leaves no choice of the text. -/
def Symbol.isFixed (symbol : Token.Content) : Bool :=
  symbol ∈ Lexeme.fixedContents && symbol.1 != .notOp

theorem Symbol.fits_fixed {t : Token} {kind : TokenKind} {text : String} (h : t.Lexed)
    (hk : t.kind = kind) (hfixed : isFixed (kind, text)) : (plain kind text).Fits t := by
  have hall : ∀ c ∈ Lexeme.fixedContents, c.1 ≠ .notOp → ∀ d ∈ Lexeme.fixedContents,
      d.1 = c.1 → d.2 = c.2 := by
    decide
  simp only [isFixed, Bool.and_eq_true, decide_eq_true_eq, bne_iff_ne] at hfixed
  obtain ⟨hmem, hnot⟩ := hfixed
  obtain ⟨hstring, hnumber, hname⟩ := Lexeme.kind_of_mem_fixedContents hmem
  subst hk
  exact ⟨rfl, hall _ hmem hnot _ (h.mem_fixedContents hstring hnumber hname) rfl⟩

/-! ### Agreement up to parentheses -/

/-- Symbols and tokens that are the same in order, but for parentheses. -/
inductive Agrees : List Symbol → List Token → Prop where
  | nil : Agrees [] []
  | cons {symbol : Symbol} {symbols : List Symbol} {t : Token} {ts : List Token}
    (ht : symbol.Fits t) (h : Agrees symbols ts) : Agrees (symbol :: symbols) (t :: ts)
  | symbol {symbol : Symbol} {symbols : List Symbol} {ts : List Token}
    (hparen : symbol ∈ Symbol.parentheses) (h : Agrees symbols ts) : Agrees (symbol :: symbols) ts
  | token {symbols : List Symbol} {t : Token} {ts : List Token} (hparen : t.kind.isParenthesis)
    (h : Agrees symbols ts) : Agrees symbols (t :: ts)

namespace Agrees
variable {symbols symbols' : List Symbol} {ts us : List Token}

theorem append (h : Agrees symbols ts) (h' : Agrees symbols' us) :
    Agrees (symbols ++ symbols') (ts ++ us) := by
  induction h with
  | nil => exact h'
  | cons ht h ih => exact .cons ht ih
  | symbol hparen h ih => exact .symbol hparen ih
  | token hparen h ih => exact .token hparen ih

/-- Parentheses around tokens make no difference. -/
theorem parenthesized_tokens {opening closing : Token} (ho : opening.kind = .leftParen)
    (hc : closing.kind = .rightParen) (h : Agrees symbols ts) :
    Agrees symbols (opening :: (ts ++ [closing])) := by
  have hts := h.append (.token (by rw [hc]; rfl) .nil)
  rw [List.append_nil] at hts
  exact .token (by rw [ho]; rfl) hts

/-- Parentheses around symbols make no difference. -/
theorem parenthesized (needed : Bool) (h : Agrees symbols ts) :
    Agrees (Node.parenthesized needed symbols) ts := by
  cases needed with
  | false => exact h
  | true =>
    have hsymbols := h.append (.symbol (.tail _ (.head _)) .nil)
    rw [List.append_nil] at hsymbols
    exact .symbol (.head _) hsymbols

/-- A symbol is that of a token, or a parenthesis. -/
theorem mem (h : Agrees symbols ts) :
    ∀ symbol ∈ symbols, (∃ t ∈ ts, symbol.Fits t) ∨ symbol ∈ Symbol.parentheses := by
  induction h with
  | nil => simp
  | @cons symbol symbols t ts ht h ih =>
    intro other hother
    rcases List.mem_cons.1 hother with rfl | hother
    · exact .inl ⟨t, List.mem_cons_self, ht⟩
    · refine (ih other hother).imp_left ?_
      rintro ⟨u, hu, hfits⟩
      exact ⟨u, List.mem_cons_of_mem t hu, hfits⟩
  | symbol hparen h ih =>
    intro other hother
    rcases List.mem_cons.1 hother with rfl | hother
    · exact .inr hparen
    · exact ih other hother
  | @token symbols t ts hparen h ih =>
    intro other hother
    refine (ih other hother).imp_left ?_
    rintro ⟨u, hu, hfits⟩
    exact ⟨u, List.mem_cons_of_mem t hu, hfits⟩

/-- Without the parentheses, both are the same. -/
theorem forall₂ (h : Agrees symbols ts) :
    List.Forall₂ Symbol.Fits (symbols.filter (!·.kind.isParenthesis))
      (ts.filter (!·.kind.isParenthesis)) := by
  induction h with
  | nil => exact .nil
  | @cons symbol symbols t ts ht h ih =>
    have hkind : t.kind.isParenthesis = symbol.kind.isParenthesis := by
      cases symbol with
      | plain kind text => rw [ht.1]; rfl
      | number value => rw [ht.1]; rfl
      | key text => rcases ht.1 with hk | hk <;> rw [hk] <;> rfl
    cases hparen : symbol.kind.isParenthesis with
    | true => simpa [hkind, hparen] using ih
    | false => simpa [hkind, hparen] using ⟨ht, ih⟩
  | @symbol symbol symbols ts hparen h ih =>
    have hall : ∀ symbol ∈ Symbol.parentheses, symbol.kind.isParenthesis := by
      simp [Symbol.parentheses, Symbol.kind, TokenKind.isParenthesis]
    simpa [hall symbol hparen] using ih
  | token hparen h ih => simpa [hparen] using ih

end Agrees

namespace Reader
open Node

/-- How a phrase is written down. -/
def Phrase.symbols (nested head : Bool) (level : Nat) : Phrase → List Symbol
  | .expr _ node => node.symbols nested head level
  | .items nodes => symbolsItems nested nodes
  | .properties entries => symbolsProperties nested entries

theorem leaf?_fits {t : Token} {node : Node} (h : leaf? t = some node) (ht : t.Lexed)
    (nested head : Bool) (level : Nat) :
    ∃ symbol, node.symbols nested head level = [symbol] ∧ symbol.Fits t ∧ symbol.kind = t.kind := by
  unfold leaf? at h
  split at h
  · next hk =>
    cases h
    exact ⟨_, rfl, Symbol.fits_fixed ht hk (by decide), hk.symm⟩
  · next hk =>
    cases h
    exact ⟨_, rfl, Symbol.fits_fixed ht hk (by decide), hk.symm⟩
  · next hk =>
    obtain ⟨n, hn, rfl⟩ := Option.map_eq_some_iff.1 h
    exact ⟨_, rfl, ⟨hk, hn⟩, hk.symm⟩
  · next hk =>
    cases h
    exact ⟨_, rfl, ⟨hk, rfl⟩, hk.symm⟩
  · next hk =>
    cases h
    exact ⟨_, rfl, ⟨hk, rfl⟩, hk.symm⟩
  · cases h

/-- An expression is written down as the tokens that it was read from, up to parentheses. -/
theorem Derives.agrees {phrase : Phrase} {ts : List Token} (h : Derives phrase ts)
    (hts : ∀ t ∈ ts, t.Lexed) (nested head : Bool) (level : Nat) :
    Agrees (phrase.symbols nested head level) ts := by
  -- `head` and `level` decide about parentheses only, so any of them will do for the parts.
  induction h generalizing head level with
  | @leaf level' t node h =>
    obtain ⟨symbol, hsymbols, hfits, -⟩ := leaf?_fits h (hts t (by simp)) nested head level
    rw [Phrase.symbols, hsymbols]
    exact .cons hfits .nil
  | @template level' opening name closing ho hn hc =>
    exact .cons (Symbol.fits_fixed (hts opening (by simp)) ho (by decide)) (.cons ⟨hn, rfl⟩
      (.cons (Symbol.fits_fixed (hts closing (by simp)) hc (by decide)) .nil))
  | @group level' node opening closing ts ho h hc ih =>
    exact .parenthesized_tokens ho hc (ih (fun t ht => hts t (by simp [ht])) head level)
  | @array level' nodes opening closing ts ho h hc ih =>
    exact .cons (Symbol.fits_fixed (hts opening (by simp)) ho (by decide))
      ((ih (fun t ht => hts t (by simp [ht])) head level).append
        (.cons (Symbol.fits_fixed (hts closing (by simp)) hc (by decide)) .nil))
  | @object level' entries opening closing ts ho h hc ih =>
    exact .parenthesized head (.cons (Symbol.fits_fixed (hts opening (by simp)) ho (by decide))
      ((ih (fun t ht => hts t (by simp [ht])) head level).append
        (.cons (Symbol.fits_fixed (hts closing (by simp)) hc (by decide)) .nil)))
  | @call level' callee args opening closing ts us hlevel hcallee ho hargs hc ihcallee ihargs =>
    exact (ihcallee (fun t ht => hts t (by simp [ht])) head 8).append
      (.cons (Symbol.fits_fixed (hts opening (by simp)) ho (by decide))
        ((ihargs (fun t ht => hts t (by simp [ht])) head level).append
          (.cons (Symbol.fits_fixed (hts closing (by simp)) hc (by decide)) .nil)))
  | @unary level' operand sign ts hlevel hsign h ih =>
    have hkind := (hts sign (by simp)).unaryKind hsign
    exact .parenthesized _ (.cons ⟨hkind.symm, rfl⟩ (ih (fun t ht => hts t (by simp [ht])) _ _))
  | @binary level' held left right sign ts us hlevel hleft hsign hright ihleft ihright =>
    obtain ⟨hkind, -⟩ := (hts sign (by simp)).binaryKind hsign
    exact .parenthesized _ ((ihleft (fun t ht => hts t (by simp [ht])) _ _).append
      (.cons ⟨hkind.symm, rfl⟩ (ihright (fun t ht => hts t (by simp [ht])) _ _)))
  | noItems => exact .nil
  | lastItem h ih => exact ih hts false 1
  | @moreItems node next nodes comma ts us h hcomma hmore ih ihmore =>
    exact (ih (fun t ht => hts t (by simp [ht])) false 1).append
      (.cons (Symbol.fits_fixed (hts comma (by simp)) hcomma (by decide))
        (ihmore (fun t ht => hts t (by simp [ht])) head level))
  | noProperties => exact .nil
  | @lastProperty node key colon ts hkey hcolon h ih =>
    exact .cons ⟨hkey, rfl⟩ (.cons (Symbol.fits_fixed (hts colon (by simp)) hcolon (by decide))
      (ih (fun t ht => hts t (by simp [ht])) false 1))
  | @moreProperties node next entries key colon comma ts us hkey hcolon h hcomma hmore ih ihmore =>
    exact .cons ⟨hkey, rfl⟩ (.cons (Symbol.fits_fixed (hts colon (by simp)) hcolon (by decide))
      ((ih (fun t ht => hts t (by simp [ht])) false 1).append
        (.cons (Symbol.fits_fixed (hts comma (by simp)) hcomma (by decide))
          (ihmore (fun t ht => hts t (by simp [ht])) head level))))

/-- How a passage is written down. -/
def Passage.symbols (nested head : Bool) (level : Nat) : Passage → List Symbol
  | .statement node | .conditional node | .elsePart node | .block node =>
    node.symbols nested head level
  | .statements nodes => symbolsEach nested nodes

theorem symbolsEach_append (nested : Bool) (nodes nodes' : List Node) :
    symbolsEach nested (nodes ++ nodes') =
      symbolsEach nested nodes ++ symbolsEach nested nodes' := by
  induction nodes with
  | nil => rfl
  | cons node nodes ih => simp only [List.cons_append, symbolsEach, ih, List.append_assoc]

theorem Parameters.agrees {names : List String} {ts : List Token} (h : Parameters names ts)
    (hts : ∀ t ∈ ts, t.Lexed) : Agrees (nameSymbols names) ts := by
  induction h with
  | none => exact .nil
  | last h => exact .cons ⟨h, rfl⟩ .nil
  | @more t comma next names ts h hcomma hmore ih =>
    exact .cons ⟨h, rfl⟩ (.cons (Symbol.fits_fixed (hts comma (by simp)) hcomma (by decide))
      (ih fun t ht => hts t (by simp [ht])))

/-- Statements are written down as the tokens that they were read from, up to parentheses. -/
theorem Stands.agrees {passage : Passage} {ts : List Token} (h : Stands passage ts)
    (hts : ∀ t ∈ ts, t.Lexed) (nested head : Bool) (level : Nat) :
    Agrees (passage.symbols nested head level) ts := by
  induction h generalizing head level with
  | expression h hfirst => exact h.agrees hts nested head level
  | @binding value word name sign ts hword hname hsign h =>
    exact .cons (Symbol.fits_fixed (hts word (by simp)) hword (by decide)) (.cons ⟨hname, rfl⟩
      (.cons (Symbol.fits_fixed (hts sign (by simp)) hsign (by decide))
        (h.agrees (fun t ht => hts t (by simp [ht])) nested false 1)))
  | @returning value word ts hword h =>
    exact .cons (Symbol.fits_fixed (hts word (by simp)) hword (by decide))
      (h.agrees (fun t ht => hts t (by simp [ht])) nested false 1)
  | @returningNothing word hword =>
    exact .cons (Symbol.fits_fixed (hts word (by simp)) hword (by decide)) .nil
  | @function params body word name opening closing ps ts hword hname ho hparams hc hbody ih =>
    exact .cons (Symbol.fits_fixed (hts word (by simp)) hword (by decide)) (.cons ⟨hname, rfl⟩
      (.cons (Symbol.fits_fixed (hts opening (by simp)) ho (by decide))
        ((hparams.agrees fun t ht => hts t (by simp [ht])).append
          (.cons (Symbol.fits_fixed (hts closing (by simp)) hc (by decide))
            (ih (fun t ht => hts t (by simp [ht])) false 1)))))
  | @whileLoop condition body word cs ts hword hcondition hbody ih =>
    exact .cons (Symbol.fits_fixed (hts word (by simp)) hword (by decide))
      ((hcondition.agrees (fun t ht => hts t (by simp [ht])) nested false 1).append
        (ih (fun t ht => hts t (by simp [ht])) false 1))
  | @forEach source body word item inWord cs ts hword hitem hin hsource hbody ih =>
    exact .cons (Symbol.fits_fixed (hts word (by simp)) hword (by decide)) (.cons ⟨hitem, rfl⟩
      (.cons hin ((hsource.agrees (fun t ht => hts t (by simp [ht])) nested false 1).append
        (ih (fun t ht => hts t (by simp [ht])) false 1))))
  | plain h ih | conditional h ih | elseBlock h ih | elseIf h ih => exact ih hts head level
  | @branch condition thenPart word cs ts hword hcondition hthen ih =>
    refine .cons (Symbol.fits_fixed (hts word (by simp)) hword (by decide))
      ((hcondition.agrees (fun t ht => hts t (by simp [ht])) nested false 1).append ?_)
    rw [symbolsElse, List.append_nil]
    exact ih (fun t ht => hts t (by simp [ht])) false 1
  | @branchElse condition thenPart elsePart word elseWord cs ts us hword hcondition hthen helseWord
      helse ih ihelse =>
    exact .cons (Symbol.fits_fixed (hts word (by simp)) hword (by decide))
      ((hcondition.agrees (fun t ht => hts t (by simp [ht])) nested false 1).append
        ((ih (fun t ht => hts t (by simp [ht])) false 1).append
          (.cons (Symbol.fits_fixed (hts elseWord (by simp)) helseWord (by decide))
            (ihelse (fun t ht => hts t (by simp [ht])) false 1))))
  | @block nodes opening closing ts ho h hc ih =>
    exact .cons (Symbol.fits_fixed (hts opening (by simp)) ho (by decide))
      ((ih (fun t ht => hts t (by simp [ht])) head level).append
        (.cons (Symbol.fits_fixed (hts closing (by simp)) hc (by decide)) .nil))
  | noStatements => exact .nil
  | @moreStatements nodes node ts us h hnext hfollows ih ihnext =>
    rw [Passage.symbols, symbolsEach_append]
    refine (ih (fun t ht => hts t (by simp [ht])) head level).append ?_
    rw [symbolsEach, symbolsEach, List.append_nil]
    exact ihnext (fun t ht => hts t (by simp [ht])) true 1

end Reader

theorem Program.run_of_ofSource {source : String} {program : Program}
    (h : ofSource source = .ok program) :
    run nestingLimit start (Token.ofSource source) = .program program := by
  unfold ofSource at h
  split at h
  · next program' hrun =>
    cases h
    exact hrun
  · cases h
  · next hrun => exact absurd hrun (run_ne_unended _ _ _ (Token.exists_endOfInput source))

/-- The tokens of a source that is read as a program stand for that program. -/
theorem Program.exists_stands {source : String} {program : Program}
    (h : ofSource source = .ok program) :
    ∃ ts eof, Token.ofSource source = ts ++ [eof] ∧ eof.kind = .endOfInput ∧
      (∀ t ∈ ts, t.kind ≠ .endOfInput ∧ t.Lexed) ∧ Stands (.statements program.body) ts := by
  obtain ⟨ts, eof, hts, heof, -, htokenized⟩ := Lexeme.exists_tokenized .start source.toList
  have hsource : Token.ofSource source = ts ++ [eof] := hts
  obtain ⟨front, last, back, hfront, hlast, hstands⟩ := stands_of_run (run_of_ofSource h)
  -- The end of the input is the last of the tokens, so nothing is left unread.
  rcases List.eq_nil_or_concat' back with rfl | ⟨back, final, rfl⟩
  · obtain ⟨rfl, -⟩ := List.append_inj' (hsource.symm.trans hfront) rfl
    have hlexed (t : Token) (ht : t ∈ ts) : t.kind ≠ .endOfInput ∧ t.Lexed :=
      (htokenized.lexed t ht).imp_right (· (hstands.ne_error t ht))
    exact ⟨ts, eof, hsource, heof, hlexed, hstands⟩
  · have htokens : ts ++ [eof] = (front ++ last :: back) ++ [final] := by
      rw [← hsource, hfront, List.append_assoc, List.cons_append]
    obtain ⟨rfl, -⟩ := List.append_inj' htokens rfl
    exact absurd hlast (htokenized.lexed last (by simp)).1

/-- **No token is lost.** The tokens of a source that is read as a program are, in order and but for
parentheses and the end of the input, what the program is written down with. -/
theorem Program.tokens_ofSource_agree (nested : Bool) {source : String} {program : Program}
    (h : ofSource source = .ok program) :
    List.Forall₂ Symbol.Fits ((program.symbols nested).filter (!·.kind.isParenthesis))
      ((Token.ofSource source).filter
        fun t => !t.kind.isParenthesis && t.kind != .endOfInput) := by
  obtain ⟨ts, eof, hsource, heof, hts, hstands⟩ := exists_stands h
  have hagrees := hstands.agrees (fun t ht => (hts t ht).2) nested true 1
  have hfilter : ts.filter (fun t => !t.kind.isParenthesis && t.kind != .endOfInput) =
      ts.filter (!·.kind.isParenthesis) := by
    refine List.filter_congr fun t ht => ?_
    simp [(hts t ht).1]
  rw [hsource, List.filter_append, hfilter, List.filter_cons_of_neg (by simp [heof]),
    List.filter_nil, List.append_nil]
  exact hagrees.forall₂

/-- Whatever parentheses a source has, the rest of it is the rest of its program. -/
theorem Program.tokens_ofSource_agree_call :
    let source := "if (a) \x7b f((-1), \x7bb: (2)\x7d) \x7d"
    let number (n : Nat) : Node := .literal (.number (.integer n)) 1
    let call : Node := .call (.identifier "f" 1)
      [.unary "-" (number 1) 1, .object [("b", number 2)] 1] 1
    let program : Program := ⟨[.branch (.identifier "a" 1) (.block [call] 1) none 1]⟩
    ofSource source = .ok program ∧
      List.Forall₂ Symbol.Fits ((program.symbols false).filter (!·.kind.isParenthesis))
        ((Token.ofSource source).filter
          fun t => !t.kind.isParenthesis && t.kind != .endOfInput) := by
  intro source number call program
  have h : ofSource source = .ok program := by
    revert program call number source
    with_unfolding_all rfl
  exact ⟨h, tokens_ofSource_agree false h⟩

end PageScript
