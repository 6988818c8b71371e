import Mathlib.Data.List.Infix
import PageScript.Proofs.Framing.Headers
import PageScript.Proofs.Text.Encoding

/-!
Headers of many fields, one on each line. The length that is taken from such a header is looked for
anywhere in it, not only where a field begins. So the field of the length is heeded whatever stands
behind it, but only if nothing that stands before it, name or value, reads like a length.
-/
namespace PageScript.Frame
open Text

/-! ### Fields -/

/-- What ends a line of a header. -/
def lineEnd : List UInt8 := [0x0d, 0x0a]

/-- What stands between the name and the value of a field. -/
def separator : List UInt8 := [0x3a, 0x20]

/-- A field of a header: a name without a colon, and a value, on one line. -/
structure HeaderField where
  name : List UInt8
  value : List UInt8
  colonless : 0x3a ∉ name
  unbroken : ¬ lineEnd <:+: name ++ separator ++ value

namespace HeaderField

def text (field : HeaderField) : List UInt8 := field.name ++ separator ++ field.value

/-- Whether a field has the name of the one that gives the length, in capital or small letters. -/
def IsLength (field : HeaderField) : Prop := (field.name ++ [0x3a]).map lower = lengthField

instance (field : HeaderField) : Decidable field.IsLength :=
  inferInstanceAs (Decidable (_ = _))

/-- Whether a field gives a length in these digits. -/
structure GivesLength (field : HeaderField) (digits : List UInt8) : Prop where
  isLength : field.IsLength
  value_eq : field.value = digits
  ne_nil : digits ≠ []
  isDigit : ∀ b ∈ digits, isDigit b

end HeaderField

/-- The header of some fields, with line ends between them. -/
def headerOf (fields : List HeaderField) : List UInt8 :=
  lineEnd.intercalate (fields.map HeaderField.text)

/-- The lines of some fields, each with its end. -/
def linesOf (fields : List HeaderField) : List UInt8 := fields.flatMap fun f => f.text ++ lineEnd

/-- Whether a header makes a stream be read with a payload of so many bytes, as soon as these have
arrived. -/
def Declares (header : List UInt8) (size : Nat) : Prop :=
  ∀ after, front (header ++ emptyLine ++ after) =
    if after.length < size then .incomplete
    else payloadFront (after.take size) (after.drop size)

/-! ### The end of a header of fields -/

/-- No line end comes before the one that is behind a line. -/
theorem length_le_of_lineEnd {line rest before after : List UInt8} (h : ¬ lineEnd <:+: line)
    (hsplit : line ++ (lineEnd ++ rest) = before ++ (lineEnd ++ after)) :
    line.length ≤ before.length := by
  rcases List.append_eq_append_iff.1 hsplit with ⟨more, rfl, -⟩ | ⟨more, rfl, hmore⟩
  · simp
  · match more with
    | [] => simp
    | [b] =>
      -- The line would end in a carriage return, and be followed by a line feed.
      simp [lineEnd] at hmore
    | b :: c :: more =>
      refine absurd ?_ h
      obtain ⟨rfl, rfl, -⟩ : 0x0d = b ∧ 0x0a = c ∧ after = more ++ (lineEnd ++ rest) := by
        simpa [lineEnd] using hmore
      exact ⟨before, more, by simp [lineEnd]⟩

theorem HeaderField.not_infix_text (field : HeaderField) : ¬ lineEnd <:+: field.text :=
  field.unbroken

theorem HeaderField.length_text_pos (field : HeaderField) : 0 < field.text.length := by
  simp only [text, separator, List.length_append, List.length_cons]
  omega

theorem emptyLine_eq : emptyLine = lineEnd ++ lineEnd := rfl

@[simp] theorem headerOf_singleton (field : HeaderField) : headerOf [field] = field.text := by
  simp [headerOf]

theorem headerOf_cons_cons (field next : HeaderField) (fields : List HeaderField) :
    headerOf (field :: next :: fields) = field.text ++ (lineEnd ++ headerOf (next :: fields)) := by
  simp [headerOf, List.intercalate_cons_cons]

/-- A header of fields does not begin with a line end. -/
theorem not_prefix_headerOf (field : HeaderField) (fields : List HeaderField) (rest : List UInt8) :
    ¬ lineEnd <+: headerOf (field :: fields) ++ (lineEnd ++ rest) := by
  rintro ⟨after, hafter⟩
  obtain ⟨more, hmore⟩ : ∃ more, headerOf (field :: fields) ++ (lineEnd ++ rest) =
      field.text ++ (lineEnd ++ more) := by
    cases fields with
    | nil => exact ⟨rest, by rw [headerOf_singleton]⟩
    | cons next fields =>
      exact ⟨_, by rw [headerOf_cons_cons, List.append_assoc, List.append_assoc]⟩
  have hle : field.text.length ≤ ([] : List UInt8).length :=
    length_le_of_lineEnd field.not_infix_text (hmore.symm.trans hafter.symm)
  exact Nat.not_lt.2 hle field.length_text_pos

/-- Between fields there is no empty line. -/
theorem isHeader_headerOf (fields : List HeaderField) : IsHeader (headerOf fields) := by
  induction fields with
  | nil => exact isHeader_of_not_mem (List.not_mem_nil (a := 0x0d))
  | cons field fields ih =>
    intro before after hsplit
    rw [emptyLine_eq] at hsplit
    simp only [List.append_assoc] at hsplit
    cases fields with
    | nil =>
      rw [headerOf_singleton] at hsplit
      have hle := length_le_of_lineEnd field.not_infix_text hsplit
      have hlengths := congrArg List.length hsplit
      simp only [List.length_append] at hlengths
      exact List.length_eq_zero_iff.1 (by omega)
    | cons next fields =>
      rw [headerOf_cons_cons, List.append_assoc, List.append_assoc] at hsplit
      have hle := length_le_of_lineEnd field.not_infix_text hsplit
      obtain ⟨behind, rfl⟩ : field.text <+: before :=
        List.prefix_of_prefix_length_le ⟨_, hsplit⟩ (List.prefix_append _ _) hle
      rw [List.append_assoc, List.append_cancel_left_eq] at hsplit
      match behind with
      | [] => exact absurd ⟨_, (List.append_cancel_left hsplit).symm⟩ (not_prefix_headerOf _ _ _)
      | [b] => simp [lineEnd] at hsplit
      | b :: c :: behind =>
        refine ih behind after ?_
        rw [emptyLine_eq]
        simpa [lineEnd] using (List.cons.inj (List.cons.inj hsplit).2).2

/-! ### Lengths in lines -/

/-- Of one text cut in two ways, the first part of one cut is in the first part of the other if the
character behind that is not in it. -/
theorem exists_of_append_eq {left right front more : List UInt8}
    (h : left ++ right = front ++ more) (hnot : ∀ b ∈ right.head?, b ∉ front) :
    ∃ middle, left = front ++ middle ∧ more = middle ++ right := by
  rcases List.append_eq_append_iff.1 h with ⟨middle, rfl, hright⟩ | hmiddle
  · cases middle with
    | nil => exact ⟨[], by simp, by simpa using hright.symm⟩
    | cons b middle =>
      refine absurd ?_ (hnot b (by rw [hright]; rfl))
      exact List.mem_append_right _ List.mem_cons_self
  · exact hmiddle

/-- Whether no length that begins before a text could go on in it. -/
def StopsLength (text : List UInt8) : Prop := ∀ b ∈ text.head?, ¬ isBlank b ∧ ¬ isDigit b

theorem feed_not_mem {name : List UInt8} (h : name.map lower = lengthField) : 0x0a ∉ name := by
  intro hmem
  have hlower : lower 0x0a ∈ lengthField := h ▸ List.mem_map_of_mem hmem
  revert hlower
  decide

/-- A length that begins in a line is read there, whatever is behind the line. -/
theorem beginsWithLength_append {line rest digits : List UInt8} (hrest : StopsLength rest) :
    BeginsWithLength (line ++ 0x0a :: rest) digits ↔ BeginsWithLength (line ++ [0x0a]) digits := by
  constructor
  · rintro ⟨⟨name, blanks, more, hsplit, hname, hblanks, hmore⟩, hne, hdigits⟩
    simp only [List.append_assoc] at hsplit
    obtain ⟨behind, rfl, hbehind⟩ := exists_of_append_eq hsplit (by simpa using feed_not_mem hname)
    have hstop : ∀ b ∈ rest.head?, b ∉ blanks ++ digits := by
      intro b hb hmem
      obtain ⟨hblank, hdigit⟩ := hrest b hb
      rcases List.mem_append.1 hmem with hmem | hmem
      · exact hblank (hblanks b hmem)
      · exact hdigit (hdigits b hmem)
    have hbehind : (behind ++ [0x0a]) ++ rest = (blanks ++ digits) ++ more := by
      simpa using hbehind.symm
    obtain ⟨last, hlast, rfl⟩ := exists_of_append_eq hbehind hstop
    refine ⟨⟨name, blanks, last, ?_, hname, hblanks, ?_⟩, hne, hdigits⟩
    · simp only [List.append_assoc, hlast]
    · intro b hb
      exact hmore b (List.mem_head?_append_of_mem_head? hb)
  · rintro ⟨⟨name, blanks, more, hsplit, hname, hblanks, hmore⟩, hne, hdigits⟩
    refine ⟨⟨name, blanks, more ++ rest, ?_, hname, hblanks, ?_⟩, hne, hdigits⟩
    · rw [← List.append_assoc, ← hsplit]
      simp
    · intro b hb
      cases more with
      | nil => exact (hrest b hb).2
      | cons c more => exact hmore b hb

/-- The first length in some lines and in what is behind them. -/
theorem lengthDigits?_append {lines rest : List UInt8} (hlines : ∀ b ∈ lines.getLast?, b = 0x0a)
    (hrest : StopsLength rest) :
    lengthDigits? (lines ++ rest) = (lengthDigits? lines).or (lengthDigits? rest) := by
  induction lines with
  | nil => rfl
  | cons b lines ih =>
    -- The line feed at the end of the lines is a blank, so a length could go on behind it, but only
    -- with a blank or a digit.
    have hhere : lengthHere? (b :: lines ++ rest) = lengthHere? (b :: lines) := by
      have hlast : (b :: lines).getLast? = some 0x0a := by
        rw [List.getLast?_cons, hlines _ List.getLast?_cons]
      obtain ⟨line, hline⟩ := List.getLast?_eq_some_iff.1 hlast
      rw [hline, List.append_assoc]
      ext digits
      simp only [lengthHere?_eq_some_iff]
      exact beginsWithLength_append hrest
    have hbehind : ∀ c ∈ lines.getLast?, c = 0x0a := by
      intro c hc
      refine hlines c ?_
      rw [List.getLast?_cons, Option.mem_def.1 hc]
      rfl
    rw [List.cons_append] at hhere ⊢
    rw [lengthDigits?, lengthDigits?, hhere, ih hbehind]
    cases lengthHere? (b :: lines) <;> rfl

/-! ### Lengths in fields -/

theorem getLast?_linesOf (fields : List HeaderField) :
    ∀ b ∈ (linesOf fields).getLast?, b = 0x0a := by
  intro b hb
  rcases List.eq_nil_or_concat fields with rfl | ⟨front, last, rfl⟩
  · cases hb
  · have hlines : linesOf (front.concat last) =
        linesOf front ++ (last.text ++ [0x0d]) ++ [0x0a] := by
      simp [linesOf, lineEnd]
    rw [hlines, List.getLast?_concat] at hb
    exact (Option.some.inj hb).symm

/-- A header, cut where one of its fields begins. -/
theorem headerOf_append (before : List HeaderField) (field : HeaderField)
    (after : List HeaderField) :
    ∃ rest, headerOf (before ++ field :: after) = linesOf before ++ (field.text ++ rest) ∧
      ∀ b ∈ rest.head?, b = 0x0d := by
  induction before with
  | nil =>
    cases after with
    | nil => exact ⟨[], by simp [linesOf], nofun⟩
    | cons next after =>
      refine ⟨_, headerOf_cons_cons field next after, ?_⟩
      rintro b ⟨⟩
      rfl
  | cons first before ih =>
    obtain ⟨rest, hheader, hrest⟩ := ih
    refine ⟨rest, ?_, hrest⟩
    have hcons : headerOf (first :: (before ++ field :: after)) =
        first.text ++ (lineEnd ++ headerOf (before ++ field :: after)) := by
      cases before with
      | nil => exact headerOf_cons_cons _ _ _
      | cons next before => exact headerOf_cons_cons _ _ _
    rw [List.cons_append, hcons, hheader, linesOf, linesOf, List.flatMap_cons]
    simp only [List.append_assoc]

namespace HeaderField
variable {field : HeaderField} {digits : List UInt8}

/-- The name of the length begins with a letter. -/
theorem IsLength.stopsLength (h : field.IsLength) (rest : List UInt8) :
    StopsLength (field.text ++ rest) := by
  have hletter {b : UInt8} (hb : lower b = 0x63) : ¬ isBlank b ∧ ¬ isDigit b := by
    unfold lower at hb
    split at hb
    · next hcapital =>
      obtain ⟨hlow, hhigh⟩ := hcapital
      rw [UInt8.le_iff_toNat_le] at hlow
      have hne : b ≠ 0x20 := by
        rintro rfl
        revert hlow
        decide
      simp [isBlank, Frame.isDigit, UInt8.le_iff_toNat_le, hne] at hlow ⊢
      omega
    · subst hb
      decide
  intro b hb
  have hname : (field.name ++ [0x3a]).map lower = 0x63 :: lengthField.tail := h
  cases hfirst : field.name with
  | nil =>
    rw [hfirst] at hname
    exact absurd (List.head_eq_of_cons_eq hname) (by decide)
  | cons c name =>
    rw [hfirst] at hname
    have hc : b = c := by simpa [text, hfirst, eq_comm] using hb
    exact hc ▸ hletter (List.head_eq_of_cons_eq hname)

/-- At a field that gives a length, that length is read. -/
theorem GivesLength.lengthDigits?_eq (h : field.GivesLength digits) {rest : List UInt8}
    (hrest : ∀ b ∈ rest.head?, b = 0x0d) : lengthDigits? (field.text ++ rest) = some digits := by
  obtain ⟨hlength, rfl, hne, hdigits⟩ := h
  refine lengthDigits?_eq_some_iff.2 (.here ⟨⟨field.name ++ [0x3a], [0x20], rest, ?_, hlength,
    List.forall_mem_singleton.2 rfl, ?_⟩, hne, hdigits⟩)
  · simp [text, separator]
  · intro b hb
    rw [hrest b hb]
    decide

end HeaderField

/-- **The first length in a header of fields** is the first one in the lines above a field that
gives a length, or if there is none, the one of that field. -/
theorem lengthDigits?_headerOf (before after : List HeaderField) {field : HeaderField}
    {digits : List UInt8} (h : field.GivesLength digits) :
    lengthDigits? (headerOf (before ++ field :: after)) =
      (lengthDigits? (linesOf before)).or (some digits) := by
  obtain ⟨rest, hheader, hrest⟩ := headerOf_append before field after
  rw [hheader, lengthDigits?_append (getLast?_linesOf before) (h.isLength.stopsLength rest),
    h.lengthDigits?_eq hrest]

/-! ### Declared lengths -/

/-- What a payload is read as, it is all there, some length was given, and only what is behind it
can be left. -/
theorem payloadFront_ne (payload rest : List UInt8) :
    payloadFront payload rest ≠ .incomplete ∧
    (∀ header after, payloadFront payload rest ≠ .dropped (.noLength header) after) ∧
    ∀ bytes, payloadFront payload rest = .failed bytes → bytes = rest := by
  unfold payloadFront
  split <;> simp [eq_comm]

/-- Where just the payload has arrived, it is read. -/
theorem Declares.exists_payload {header : List UInt8} {size : Nat} (h : Declares header size) :
    ∃ payload, payload.length = size ∧
      front (header ++ emptyLine ++ payload) = payloadFront payload [] := by
  refine ⟨List.replicate size 0, List.length_replicate, ?_⟩
  rw [h]
  simp

theorem Declares.not_lt {header : List UInt8} {size size' : Nat} (h : Declares header size)
    (h' : Declares header size') : ¬ size < size' := by
  intro hlt
  obtain ⟨payload, rfl, hfront⟩ := h.exists_payload
  rw [h', if_pos hlt] at hfront
  exact (payloadFront_ne payload []).1 hfront.symm

/-- A header declares a length if and only if that is the first one in it, and not of too many
digits. -/
theorem declares_iff {header : List UInt8} (hheader : IsHeader header) {size : Nat} :
    Declares header size ↔ ∃ digits, lengthDigits? header = some digits ∧
      digits.length ≤ Numeral.maxDigits ∧ digitsValue digits = size := by
  have hfew {digits : List UInt8} (hdigits : lengthDigits? header = some digits)
      (hlength : digits.length ≤ Numeral.maxDigits) : Declares header (digitsValue digits) := by
    intro after
    simp only [front, splitHeader_of_isHeader hheader, hdigits, if_neg (Nat.not_lt.2 hlength)]
  constructor
  · intro h
    obtain ⟨payload, -, hfront⟩ := h.exists_payload
    obtain ⟨-, hsized, hfailed⟩ := payloadFront_ne payload []
    cases hdigits : lengthDigits? header with
    | none =>
      simp only [front, splitHeader_of_isHeader hheader, hdigits] at hfront
      exact absurd hfront.symm (hsized header payload)
    | some digits =>
      by_cases hlong : Numeral.maxDigits < digits.length
      · simp only [front, splitHeader_of_isHeader hheader, hdigits, if_pos hlong] at hfront
        have hnil := hfailed _ hfront.symm
        simp [emptyLine] at hnil
      · have hdeclares := hfew hdigits (Nat.not_lt.1 hlong)
        exact ⟨digits, rfl, Nat.not_lt.1 hlong,
          Nat.le_antisymm (Nat.not_lt.1 (h.not_lt hdeclares)) (Nat.not_lt.1 (hdeclares.not_lt h))⟩
  · rintro ⟨digits, hdigits, hlength, rfl⟩
    exact hfew hdigits hlength

/-! ### Fields without lengths -/

/-- A stretch of a text does not go over a character that it does not have. -/
theorem infix_of_infix_append_cons {stretch left right : List UInt8} {b : UInt8}
    (hb : b ∉ stretch) (h : stretch <:+: left ++ b :: right) :
    stretch <:+: left ∨ stretch <:+: right := by
  have hbegins {more : List UInt8} (hmore : b ∉ more) (h : more <+: b :: right) : more = [] := by
    cases more with
    | nil => rfl
    | cons c more =>
      obtain ⟨rfl, -⟩ := List.cons_prefix_cons.1 h
      exact absurd List.mem_cons_self hmore
  rcases List.infix_append_iff.1 h with h | h | ⟨first, second, rfl, hfirst, hsecond⟩
  · exact .inl h
  · rcases List.infix_cons_iff.1 h with h | h
    · exact .inl (hbegins hb h ▸ List.nil_infix)
    · exact .inr h
  · obtain rfl := hbegins (fun hmem => hb (List.mem_append_right _ hmem)) hsecond
    exact .inl (by simpa using hfirst.isInfix)

/-- If no field has the name of the length anywhere in it, no length begins in their lines. -/
theorem noLength_linesOf {fields : List HeaderField}
    (h : ∀ field ∈ fields, ¬ lengthField <:+: field.text.map lower) :
    NoLength (linesOf fields) := by
  have hnone : ¬ lengthField <:+: (linesOf fields).map lower := by
    induction fields with
    | nil => decide
    | cons field fields ih =>
      obtain ⟨hfield, hfields⟩ := List.forall_mem_cons.1 h
      intro hinfix
      have hlines : (linesOf (field :: fields)).map lower =
          field.text.map lower ++ 0x0d :: ([] ++ 0x0a :: (linesOf fields).map lower) := by
        simp [linesOf, lineEnd, lower]
      rw [hlines] at hinfix
      rcases infix_of_infix_append_cons (by decide) hinfix with hinfix | hinfix
      · exact hfield hinfix
      · rcases infix_of_infix_append_cons (by decide) hinfix with hinfix | hinfix
        · exact absurd (List.infix_nil.1 hinfix) (by decide)
        · exact ih hfields hinfix
  rintro text ⟨front, hfront⟩ digits ⟨⟨name, blanks, rest, rfl, hname, -, -⟩, -, -⟩
  refine hnone ⟨front.map lower, (blanks ++ digits ++ rest).map lower, ?_⟩
  rw [← hfront, ← hname]
  simp

/-- **The length of a header is that of its field, as far as the fields above it let it be.** Let a
field of a header have the name of the length, in capital or small letters, and a number of not too
many digits as its value. Then streams with this header are read with a payload of that very length,
whatever fields are below, if and only if no length begins anywhere in the fields above, even inside
a name or a value, or the first one that does has the same number. So it is if no field above has
the name of the length in it with a colon. -/
theorem declares_field_iff (before after : List HeaderField) {field : HeaderField}
    {digits : List UInt8} (h : field.GivesLength digits)
    (hdigits : digits.length ≤ Numeral.maxDigits) :
    (Declares (headerOf (before ++ field :: after)) (digitsValue digits) ↔
      NoLength (linesOf before) ∨ ∃ found, FirstLength (linesOf before) found ∧
        found.length ≤ Numeral.maxDigits ∧ digitsValue found = digitsValue digits) ∧
    ((∀ other ∈ before, ¬ lengthField <:+: other.text.map lower) →
      Declares (headerOf (before ++ field :: after)) (digitsValue digits)) := by
  have hiff : Declares (headerOf (before ++ field :: after)) (digitsValue digits) ↔
      NoLength (linesOf before) ∨ ∃ found, FirstLength (linesOf before) found ∧
        found.length ≤ Numeral.maxDigits ∧ digitsValue found = digitsValue digits := by
    rw [declares_iff (isHeader_headerOf _), lengthDigits?_headerOf before after h]
    cases hfound : lengthDigits? (linesOf before) with
    | none =>
      have hno : NoLength (linesOf before) := lengthDigits?_eq_none_iff.1 hfound
      exact iff_of_true ⟨digits, rfl, hdigits, rfl⟩ (.inl hno)
    | some found =>
      have hfirst : FirstLength (linesOf before) found := lengthDigits?_eq_some_iff.1 hfound
      have hlengths : ¬ NoLength (linesOf before) := by
        rw [← lengthDigits?_eq_none_iff, hfound]
        nofun
      constructor
      · rintro ⟨other, hother, hfew, hvalue⟩
        obtain rfl : found = other := Option.some.inj hother
        exact .inr ⟨found, hfirst, hfew, hvalue⟩
      · rintro (hno | ⟨other, hother, hfew, hvalue⟩)
        · exact absurd hno hlengths
        · obtain rfl : found = other :=
            Option.some.inj (hfound.symm.trans (lengthDigits?_eq_some_iff.2 hother))
          exact ⟨found, rfl, hfew, hvalue⟩
  exact ⟨hiff, fun hnames => hiff.2 (.inl (noLength_linesOf hnames))⟩

/-- A field between one without a length and one that has the name of the length in its own. -/
theorem declares_field_iff_between :
    let bytes (text : String) : List UInt8 := text.toList.map asciiByte
    let type : HeaderField := ⟨bytes "Content-Type", bytes "utf-8", by decide, by decide⟩
    let field : HeaderField := ⟨bytes "content-length", bytes "9", by decide, by decide⟩
    let other : HeaderField := ⟨bytes "X-Content-Length", bytes "5", by decide, by decide⟩
    Declares (headerOf [type, field, other]) 9 := by
  intro bytes type field other
  have hlength : field.GivesLength (bytes "9") := ⟨by decide, rfl, by decide, by decide +kernel⟩
  have hnames : ∀ f ∈ [type], ¬ lengthField <:+: f.text.map lower := by decide
  exact (declares_field_iff [type] [other] hlength (by decide)).2 hnames

/-- **A longer name is heeded too.** Above the field of the length, one whose name only ends like
that of the length takes its place. -/
theorem not_forall_declares :
    ¬ ∀ (before after : List HeaderField) (field : HeaderField) (digits : List UInt8),
        field.GivesLength digits → digits.length ≤ Numeral.maxDigits →
        (∀ other ∈ before ++ after, ¬ other.IsLength) →
      Declares (headerOf (before ++ field :: after)) (digitsValue digits) := by
  intro hall
  let bytes (text : String) : List UInt8 := text.toList.map asciiByte
  let other : HeaderField := ⟨bytes "X-Content-Length", bytes "5", by decide, by decide⟩
  let field : HeaderField := ⟨bytes "Content-Length", bytes "8", by decide, by decide⟩
  have hlength : field.GivesLength (bytes "8") := ⟨by decide, rfl, by decide, by decide +kernel⟩
  have hothers : ∀ f ∈ [other] ++ [], ¬ f.IsLength := by decide
  obtain ⟨digits, hdigits, -, hvalue⟩ :=
    (declares_iff (isHeader_headerOf _)).1 (hall [other] [] field _ hlength (by decide) hothers)
  have hfirst : lengthDigits? (headerOf ([other] ++ [field])) = some (bytes "5") := by decide
  obtain rfl : bytes "5" = digits := Option.some.inj (hfirst.symm.trans hdigits)
  exact absurd hvalue (by decide)

end PageScript.Frame
