import PageScript.Proofs.Lexing.Places

/-!
Ways to count. The places of a text have lines and columns, whichever characters end a line and
however many columns the others take. Positions grow from each place to the next, so a position is
that of one place at most, and no two tokens of a source stand at the same position.
-/
namespace PageScript

/-! ### The order of positions -/

attribute [ext] Position

namespace Position

instance : LT Position :=
  ⟨fun p q => p.line < q.line ∨ p.line = q.line ∧ p.column < q.column⟩

instance : LE Position :=
  ⟨fun p q => p.line < q.line ∨ p.line = q.line ∧ p.column ≤ q.column⟩

theorem lt_iff {p q : Position} :
    p < q ↔ p.line < q.line ∨ p.line = q.line ∧ p.column < q.column := Iff.rfl

theorem le_iff {p q : Position} :
    p ≤ q ↔ p.line < q.line ∨ p.line = q.line ∧ p.column ≤ q.column := Iff.rfl

theorem lt_trans {p q r : Position} (h : p < q) (h' : q < r) : p < r := by
  rw [lt_iff] at *
  omega

theorem le_of_lt {p q : Position} (h : p < q) : p ≤ q := by
  rw [lt_iff] at h
  rw [le_iff]
  omega

theorem ne_of_lt {p q : Position} (h : p < q) : p ≠ q := by
  rintro rfl
  rw [lt_iff] at h
  omega

end Position

/-! ### Places and their positions -/

/-- A way to count the places of a text: whether a character with some others behind it ends a line,
and how many columns it takes if it does not. -/
structure Counting where
  endsLine : Char → List Char → Bool
  width : Char → Nat
  width_pos : ∀ c, 0 < width c

namespace Counting

/-- The position behind one character. -/
def after (k : Counting) (p : Position) (c : Char) (behind : List Char) : Position :=
  if k.endsLine c behind then ⟨p.line + 1, 1⟩ else ⟨p.line, p.column + k.width c⟩

/-- The position of a place in a text that begins at `p`. -/
def position (k : Counting) (p : Position) : List Char → (place : Nat) → Position
  | c :: cs, place + 1 => k.position (k.after p c cs) cs place
  | _, _ => p

/-- The place of a position in a text that begins at `p`, if it is the position of a place. -/
def place? (k : Counting) (target p : Position) : List Char → Option Nat
  | [] => if p = target then some 0 else none
  | c :: cs => if p = target then some 0 else (k.place? target (k.after p c cs) cs).map (· + 1)

variable (k : Counting) (p : Position)

@[simp] theorem position_zero (cs : List Char) : k.position p cs 0 = p := by
  cases cs <;> rfl

@[simp] theorem position_succ (c : Char) (cs : List Char) (place : Nat) :
    k.position p (c :: cs) (place + 1) = k.position (k.after p c cs) cs place := rfl

theorem lt_after (c : Char) (behind : List Char) : p < k.after p c behind := by
  have hwidth := k.width_pos c
  unfold after
  split
  · exact .inl (by simp only; omega)
  · exact .inr ⟨rfl, by simp only; omega⟩

theorem position_add (cs : List Char) (m n : Nat) (h : m ≤ cs.length) :
    k.position p cs (m + n) = k.position (k.position p cs m) (cs.drop m) n := by
  induction cs generalizing p m with
  | nil =>
    obtain rfl : m = 0 := by simpa using h
    simp
  | cons c cs ih =>
    cases m with
    | zero => simp
    | succ m =>
      rw [Nat.add_right_comm, position_succ, position_succ, List.drop_succ_cons,
        ih _ m (by simpa using h)]

/-- The position of the next place. -/
theorem position_next {cs rest : List Char} {place : Nat} {c : Char}
    (h : cs.drop place = c :: rest) :
    k.position p cs (place + 1) = k.after (k.position p cs place) c rest := by
  have hle : place ≤ cs.length := by
    by_contra hlt
    rw [List.drop_eq_nil_of_le (by omega)] at h
    cases h
  rw [position_add k p cs place 1 hle, h, position_succ, position_zero]

theorem lt_position {cs : List Char} {place : Nat} (hpos : 0 < place) (h : place ≤ cs.length) :
    p < k.position p cs place := by
  induction cs generalizing p place with
  | nil => simp at h; omega
  | cons c cs ih =>
    obtain ⟨place, rfl⟩ := Nat.exists_eq_succ_of_ne_zero (Nat.ne_of_gt hpos)
    have hafter : p < k.after p c cs := k.lt_after p c cs
    rw [Nat.succ_eq_add_one, position_succ]
    rcases Nat.eq_zero_or_pos place with rfl | hplace
    · simpa using hafter
    · exact Position.lt_trans hafter (ih _ hplace (by simpa using h))

/-- **Positions grow.** A place farther on in the text has a later position. -/
theorem position_lt {cs : List Char} {m n : Nat} (h : m < n) (hn : n ≤ cs.length) :
    k.position p cs m < k.position p cs n := by
  obtain ⟨d, rfl⟩ := Nat.exists_eq_add_of_lt h
  rw [Nat.add_assoc, position_add k p cs m _ (by omega)]
  exact k.lt_position _ (Nat.succ_pos d) (by rw [List.length_drop]; omega)

theorem position_le {cs : List Char} {m n : Nat} (h : m ≤ n) (hn : n ≤ cs.length) :
    k.position p cs m ≤ k.position p cs n := by
  rcases Nat.eq_or_lt_of_le h with rfl | h
  · exact .inr ⟨rfl, Int.le_refl _⟩
  · exact Position.le_of_lt (k.position_lt p h hn)

/-- A position names the one place that has it. -/
theorem place?_eq_some_iff {target : Position} {cs : List Char} {place : Nat} :
    k.place? target p cs = some place ↔ place ≤ cs.length ∧ k.position p cs place = target := by
  induction cs generalizing p place with
  | nil =>
    cases place <;> simp [place?, position]
  | cons c cs ih =>
    rw [place?]
    split
    · next heq =>
      constructor
      · rintro ⟨⟩
        exact ⟨Nat.zero_le _, by simpa using heq⟩
      · rintro ⟨hle, hplace⟩
        rcases Nat.eq_zero_or_pos place with rfl | hpos
        · rfl
        · exact absurd (heq.trans hplace.symm) (Position.ne_of_lt (k.lt_position p hpos hle))
    · next hne =>
      cases place with
      | zero => simp [hne]
      | succ place =>
        simp [ih]

end Counting

/-! ### The positions of tokens -/

/-- The way in which the positions of tokens are counted: only a line feed ends a line, and every
other character takes one column. -/
def Counting.source : Counting where
  endsLine c _ := c == '\n'
  width _ := 1
  width_pos _ := Nat.one_pos

@[simp] theorem Counting.source_after (p : Position) (c : Char) (behind : List Char) :
    source.after p c behind = p.after c := by
  simp [after, source, Position.after]

theorem Counting.source_position (p : Position) (cs : List Char) (place : Nat) :
    source.position p cs place = p.afterAll (cs.take place) := by
  induction cs generalizing p place with
  | nil => simp [position]
  | cons c cs ih =>
    cases place with
    | zero => simp
    | succ place => simp [ih]

/-- In two lists that are related one by one, each item of the second has its partner. -/
theorem exists_of_forall₂ {α β : Type} {R : α → β → Prop} {as : List α} {bs : List β}
    (h : List.Forall₂ R as bs) {b : β} (hb : b ∈ bs) : ∃ a, R a b := by
  induction h with
  | nil => cases hb
  | @cons a b' as bs hab h ih =>
    rcases List.mem_cons.1 hb with rfl | hb
    · exact ⟨a, hab⟩
    · exact ih hb

namespace Token

def position (t : Token) : Position := ⟨t.line, t.column⟩

theorem StandsAt.position_eq {source : List Char} {place : Nat} {t : Token}
    (h : t.StandsAt source place) : t.position = Counting.source.position .start source place := by
  rw [Counting.source_position, Position.afterAll_start, position, h.line_eq, h.column_eq]

theorem exists_standsAt {source : String} {t : Token} (ht : t ∈ ofSource source) :
    ∃ place, t.StandsAt source.toList place := by
  obtain ⟨places, -, hstands⟩ := ofSource_places source
  exact exists_of_forall₂ hstands ht

/-- All tokens but the end of the input are taken for stretches of the source. -/
theorem exists_carries {source : String} {t : Token} (ht : t ∈ ofSource source)
    (hend : t.kind ≠ .endOfInput) : ∃ s : Lexeme.Span, s.Carries source.toList t := by
  obtain ⟨ts, eof, spans, hsource, heof, -, -, hcarries, -⟩ := ofSource_spans source
  rw [hsource, List.mem_append, List.mem_singleton] at ht
  rcases ht with ht | rfl
  · exact exists_of_forall₂ hcarries ht
  · exact absurd heof hend

/-- Of two tokens of a source the later one stands farther on. -/
theorem ofSource_inOrder (source : String) :
    (ofSource source).Pairwise fun t u => ∃ place place', place < place' ∧
      t.StandsAt source.toList place ∧ u.StandsAt source.toList place' := by
  obtain ⟨places, hplaces, hstands⟩ := ofSource_places source
  rw [List.pairwise_iff_getElem] at hplaces ⊢
  intro i j hi hj hij
  have hlength := hstands.length_eq
  have hi' : i < places.length := by omega
  have hj' : j < places.length := by omega
  exact ⟨places[i], places[j], hplaces i j hi' hj' hij, hstands.get hi' hi, hstands.get hj' hj⟩

/-- No two tokens of a source stand at the same position. -/
theorem positions_increase (source : String) :
    (ofSource source).Pairwise fun t u => t.position < u.position := by
  refine (ofSource_inOrder source).imp ?_
  rintro t u ⟨place, place', hlt, ht, hu⟩
  rw [ht.position_eq, hu.position_eq]
  exact Counting.source.position_lt .start hlt hu.le_length

/-- A source has one token at most at a position, and the same tokens always stand before it. -/
theorem split_unique {source : String} {t u : Token} {before after before' after' : List Token}
    (h : ofSource source = before ++ t :: after) (h' : ofSource source = before' ++ u :: after')
    (hline : t.line = u.line) (hcolumn : t.column = u.column) :
    before = before' ∧ t = u ∧ after = after' := by
  have hsame : t.position = u.position := by rw [position, position, hline, hcolumn]
  have hincrease := positions_increase source
  have hnot {v w : Token} {front middle behind : List Token}
      (hs : ofSource source = front ++ v :: (middle ++ w :: behind)) : v.position < w.position := by
    rw [hs, List.pairwise_append, List.pairwise_cons] at hincrease
    exact hincrease.2.1.1 w (by simp)
  rw [h] at h'
  rcases List.append_eq_append_iff.1 h' with ⟨middle, rfl, hrest⟩ | ⟨middle, rfl, hrest⟩
  · cases middle with
    | nil => simpa using hrest
    | cons v middle =>
      obtain ⟨rfl, rfl⟩ := by simpa using hrest
      exact absurd hsame (Position.ne_of_lt (hnot h))
  · cases middle with
    | nil =>
      obtain ⟨rfl, rfl⟩ := by simpa using hrest
      simp
    | cons v middle =>
      obtain ⟨rfl, rfl⟩ := by simpa using hrest
      rw [List.append_assoc, List.cons_append] at h
      exact absurd hsame.symm (Position.ne_of_lt (hnot h))

end Token
end PageScript
