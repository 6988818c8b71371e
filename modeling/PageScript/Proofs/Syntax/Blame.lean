import PageScript.Proofs.Errors
import PageScript.Proofs.Lexing.Places
import PageScript.Proofs.Syntax.Symbols

/-!
At which token the reading of a program fails. An error token cannot follow anything, so the reading
fails at the first of them or before it. A fault that quotes a text quotes its token, which is then
an error or has a text that its kind decides. The lines of a source that fits into a memory are short
enough to be written, so its error is raised.
-/
namespace PageScript

/-- Whether a fault may be found at a token: what it quotes is the text of the token. -/
def SyntaxFault.Concerns (t : Token) : SyntaxFault → Prop
  | lexical text => text = t.text ∧ t.kind = .error
  | unexpected text => text = t.text ∧ t.kind ∉ [.string, .number, .identifier, .endOfInput, .error]
  | _ => True

namespace Reader

/-- No error token leads on, and a fault is one of its token. -/
def Move.Blames (t : Token) : Move → Prop
  | next _ | done _ => t.kind ≠ .error
  | fail fault => fault.Concerns t

@[simp] theorem Move.blames_next (t : Token) (s : State) :
    (next s).Blames t ↔ t.kind ≠ .error := Iff.rfl

@[simp] theorem Move.blames_done (t : Token) (program : Program) :
    (done program).Blames t ↔ t.kind ≠ .error := Iff.rfl

@[simp] theorem Move.blames_expected (t : Token) (what : Expectation) :
    (fail (.expected what)).Blames t := trivial

@[simp] theorem State.blames_goto (t : Token) (s : State) (phase : Phase) :
    (s.goto phase).Blames t ↔ t.kind ≠ .error := Iff.rfl

@[simp] theorem State.blames_read (t : Token) (s : State) (purpose : Purpose) :
    (s.read purpose).Blames t ↔ t.kind ≠ .error := Iff.rfl

@[simp] theorem State.blames_enter (t : Token) (s : State) (use : BlockUse) (line : Int) :
    (s.enter use line).Blames t ↔ t.kind ≠ .error := Iff.rfl

@[simp] theorem Move.blames_ite (t : Token) {p : Prop} [Decidable p] {m m' : Move} :
    (if p then m else m').Blames t ↔ (p → m.Blames t) ∧ (¬ p → m'.Blames t) := by
  split <;> simp [*]

variable (s : State) (t : Token)

theorem operandMove_blames (context : Context) : (operandMove s context t).Blames t := by
  unfold operandMove
  split
  case h_5 hk =>
    split
    · simp [hk]
    · trivial
  case h_12 hk => exact ⟨rfl, hk⟩
  case h_13 => trivial
  case h_14 => exact ⟨rfl, by simp_all⟩
  all_goals simp [*]

theorem statementMove_blames : (statementMove s t).Blames t := by
  unfold statementMove
  split
  case h_11 => exact operandMove_blames s t _
  all_goals simp [*]

theorem blockMove_blames (use : BlockUse) : (blockMove s use t).Blames t := by
  simp +contextual [blockMove]

theorem purposeMove_blames (value : Node) (purpose : Purpose) :
    (purposeMove s value t purpose).Blames t := by
  cases purpose <;> simp [purposeMove, statementMove_blames, blockMove_blames]

theorem closeMove_blames (value : Node) (context : Context) :
    (closeMove s value context t).Blames t := by
  unfold closeMove
  split <;> simp +contextual [purposeMove_blames]

theorem afterOperandMove_blames (operand : Node) (context : Context) :
    (afterOperandMove s operand context t).Blames t := by
  unfold afterOperandMove
  split
  · simp [*]
  · split
    · next level hlevel =>
      have hk : t.kind ≠ .error := by
        intro hk
        rw [hk] at hlevel
        cases hlevel
      simp [hk]
    · exact closeMove_blames s t _ _

/-- **One token.** Reading a token leads on only if it is no error token, and a fault that comes of
it is one of this token. -/
theorem step_blames : (step s t).Blames t := by
  unfold step
  split <;>
    simp +contextual [nameMove, signMove, or_imp, operandMove_blames, statementMove_blames,
      blockMove_blames, afterOperandMove_blames]

variable {s t}

theorem kind_ne_error_of_next {s' : State} (h : step s t = .next s') : t.kind ≠ .error := by
  have hblames := step_blames s t
  rwa [h] at hblames

/-- **All tokens.** A syntax error stands at a token before which there is no error token, and its
fault is one of this token. -/
theorem run_error {limit : Nat} {tokens : List Token} {e : SyntaxError}
    (h : run limit s tokens = .error e) (hlimit : s.weight ≤ limit) :
    ∃ before t after, tokens = before ++ t :: after ∧ (∀ u ∈ before, u.kind ≠ .error) ∧
      e.line = t.line ∧ e.column = t.column ∧ e.fault.Concerns t := by
  obtain ⟨before, t, after, s', rfl, hsteps, -, -, hline, hcolumn, hfault⟩ := exists_fault h hlimit
  refine ⟨before, t, after, rfl, forall_mem_of_steps kind_ne_error_of_next hsteps, hline, hcolumn,
    ?_⟩
  rcases hfault with hstep | ⟨hdeep, -⟩
  · have hblames := step_blames s' t
    rwa [hstep] at hblames
  · rw [hdeep]
    trivial

end Reader

/-- The lines of a source are short enough to be written, if its length is. -/
theorem Token.not_isLong_line {source : String} {t : Token} (ht : t ∈ ofSource source)
    (hlength : source.toList.length + 1 < 10 ^ Numeral.maxDigits) : ¬ Number.IsLong t.line := by
  obtain ⟨hfirst, hlast⟩ := line_bounds ht
  have hcount : source.toList.count '\n' ≤ source.toList.length := List.count_le_length
  rw [Number.isLong_iff]
  generalize Numeral.maxDigits = digits at hlength ⊢
  omega

namespace Program
open Reader

variable {source : String}

/-- What is known of the token at which a source fails to be a program. -/
theorem exists_blamed {e : SyntaxError} (h : ofSource source = .error e) :
    ∃ before t after, Token.ofSource source = before ++ t :: after ∧
      (∀ u ∈ before, u.kind ≠ .error) ∧ e.line = t.line ∧ e.column = t.column ∧
      e.fault.Concerns t := by
  unfold ofSource at h
  split at h
  · cases h
  · next hrun =>
    cases h
    exact run_error hrun (Nat.zero_le _)
  · next hrun => exact absurd hrun (run_ne_unended _ _ _ (Token.exists_endOfInput source))

/-- The error of a source that is not a program is raised. -/
theorem raised_of_ofSource (hlength : source.toList.length + 1 < 10 ^ Numeral.maxDigits)
    {e : SyntaxError} (h : ofSource source = .error e) :
    e.raised? source = some (e.report source) := by
  obtain ⟨before, t, after, hsource, -, hline, -⟩ := exists_blamed h
  have ht : t ∈ Token.ofSource source := by simp [hsource]
  exact e.raisedUnless.raised (hline ▸ Token.not_isLong_line ht hlength) source

/-- A source with an error token is not a program. -/
theorem exists_error_of_mem {t : Token} (ht : t ∈ Token.ofSource source) (hk : t.kind = .error) :
    ∃ e, ofSource source = .error e := by
  cases h : ofSource source with
  | error e => exact ⟨e, rfl⟩
  | ok program =>
    obtain ⟨ts, eof, hsource, heof, -, hstands⟩ := exists_stands h
    rw [hsource, List.mem_append, List.mem_singleton] at ht
    rcases ht with ht | rfl
    · exact absurd hk (hstands.ne_error t ht)
    · rw [heof] at hk
      cases hk

end Program
end PageScript
