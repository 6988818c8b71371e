/-!
Lines of a text, where any of the characters that Unicode or old devices use to end a line does so,
and a carriage return with a line feed counts as one end.
-/
namespace PageScript.Text

/-- Whether a character ends a line. -/
def isLineEnd (c : Char) : Bool :=
  let n := c.toNat
  (0x0a ≤ n && n ≤ 0x0d) || (0x1c ≤ n && n ≤ 0x1e) || n == 0x85 || n == 0x2028 || n == 0x2029

/-- A line and the characters that end it; only the last line of a text may lack an end. -/
structure Line where
  content : List Char
  ending : List Char

/-- The line with its end. -/
def Line.full (line : Line) : List Char := line.content ++ line.ending

/-- The lines of a text. There is no empty line after the last end. -/
def lines : List Char → List Line
  | [] => []
  | '\r' :: '\n' :: rest => ⟨[], ['\r', '\n']⟩ :: lines rest
  | c :: rest =>
    if isLineEnd c then ⟨[], [c]⟩ :: lines rest
    else
      match lines rest with
      | [] => [⟨[c], []⟩]
      | line :: more => ⟨c :: line.content, line.ending⟩ :: more

/-- The lines with their ends make up the text. -/
theorem flatMap_full_lines (cs : List Char) : (lines cs).flatMap Line.full = cs := by
  fun_induction lines cs with
  | case1 => rfl
  | case2 rest ih => simp [Line.full, ih]
  | case3 c rest _ h ih => simp [Line.full, ih]
  | case4 c rest _ h hl ih => simp_all [Line.full]
  | case5 c rest _ h line more hl ih => simp_all [Line.full]

end PageScript.Text
