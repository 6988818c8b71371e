import PageScript.Proofs.Editor.Dispatch
import PageScript.Proofs.Lexing.Words
import PageScript.Proofs.Syntax.Diagrams

/-!
Help on words. A request names a place of a document, in code units and in lines that many
characters may end, and it is answered for the run of word characters around that place. In a text
where the two ways of counting are one, that is the name or the reserved word which the scanner has
there, from its first character to the place right behind its last one.
-/
namespace PageScript

/-! ### The tokens of a text -/

theorem Text.Row.drop_eq {cs : List Char} {place : Nat} (row : Row cs place) :
    cs.drop place = row.char :: row.right ++ (row.ending ++ row.below) := by
  refine (congrArg₂ List.drop row.place_eq row.source_eq).trans ?_
  rw [List.append_assoc, List.drop_length_add_append, List.append_assoc, List.drop_left]

namespace Lexeme.IsRunAt
variable {cs run : List Char} {place : Nat}

theorem exists_first (h : IsRunAt cs place run) : ∃ c, cs[place]? = some c ∧ isIdentChar c := by
  obtain ⟨c, more, rfl⟩ := List.exists_cons_of_ne_nil h.ne_nil
  have hrun := h.takeWhile_drop
  have hall : ∀ c ∈ (cs.drop place).takeWhile isIdentChar, isIdentChar c := all_of_takeWhile
  rw [hrun] at hall
  obtain ⟨behind, hbehind⟩ := List.takeWhile_prefix (l := cs.drop place) isIdentChar
  refine ⟨c, ?_, hall c List.mem_cons_self⟩
  rw [← List.head?_drop, ← hbehind, hrun]
  rfl

/-- A run of word characters in a source is so in its line. -/
theorem of_row (h : IsRunAt cs place run) (row : Text.Row cs place) :
    (row.char :: row.right).takeWhile isIdentChar = run ∧
      ∀ c ∈ row.left.getLast?, ¬ isIdentChar c := by
  constructor
  · have hbehind : (row.ending ++ row.below).takeWhile isIdentChar = [] := by
      rcases row.ending_eq with hending | hending | ⟨hending, hbelow⟩
      · simp [hending, show isIdentChar '\n' = false by decide]
      · simp [hending, show isIdentChar '\r' = false by decide]
      · simp [hending, hbelow]
    rw [← h.takeWhile_drop, row.drop_eq, List.takeWhile_append, hbehind, List.append_nil]
    split
    · next hall => exact (List.takeWhile_prefix isIdentChar).eq_of_length hall
    · rfl
  · intro c hc
    refine h.getLast?_take c ?_
    obtain ⟨others, hothers⟩ := List.getLast?_eq_some_iff.1 hc
    rw [row.take_eq, hothers, ← List.append_assoc]
    exact List.getLast?_concat

end Lexeme.IsRunAt

/-- A run in a line is the word at every place of it, both ends included. -/
theorem Toolkit.JoinsWords.wordAt_run {kit : Toolkit} (hwords : kit.JoinsWords) {text : String}
    (hnarrow : ∀ c ∈ text.toList, c.toNat < 0x10000)
    (hfeeds : ∀ c ∈ text.toList, Text.isLineEnd c → c = '\n') {number : Nat} {line : Text.Line}
    (hline : (Text.lines text.toList)[number]? = some line) {left run right : List Char}
    (hcontent : line.content = left ++ (run ++ right)) (hrun : ∀ c ∈ run, Text.isWordChar c)
    (hleft : ∀ c ∈ left.getLast?, Text.isWordChar c = false)
    (hright : ∀ c ∈ right.head?, Text.isWordChar c = false) {n : Nat} (hn : n ≤ run.length) :
    kit.wordAt text ⟨number, (left.length + n : Nat)⟩ = String.ofList run := by
  have hinside : left.length + n ≤ line.content.length := by
    simp only [hcontent, List.length_append]
    omega
  have hbefore : (line.content.take (left.length + n)).rtakeWhile Text.isWordChar =
      run.take n := by
    have hstop : ∀ c, left.reverse.head? = some c → Text.isWordChar c = false := by
      intro c hc
      rw [List.head?_reverse] at hc
      exact hleft c hc
    rw [hcontent, List.take_length_add_append, List.take_append_of_le_length hn, List.rtakeWhile,
      List.reverse_append, Lexeme.takeWhile_append_of_stop _ hstop, List.reverse_reverse]
    intro c hc
    exact hrun c (List.mem_of_mem_take (List.mem_reverse.1 hc))
  have hbehind : (line.content.drop (left.length + n)).takeWhile Text.isWordChar =
      run.drop n := by
    rw [hcontent, List.drop_length_add_append, List.drop_append_of_le_length hn]
    exact Lexeme.takeWhile_append_of_stop (fun c hc => hrun c (List.mem_of_mem_drop hc)) hright
  rw [hwords text number line _ hnarrow hfeeds hline hinside, hbefore, hbehind,
    List.take_append_drop]

namespace Token
variable {text : String} {t : Token}

/-- In a text whose characters take one unit each, and whose lines end with line feeds only, a token
that stands for a whole run is the word at every place of it. -/
theorem wordAt_eq {kit : Toolkit} (hwords : kit.JoinsWords) {place : Nat}
    (hstands : t.StandsAt text.toList place) (h : Lexeme.IsRunAt text.toList place t.text.toList)
    (hnarrow : ∀ c ∈ text.toList, c.toNat < 0x10000)
    (hfeeds : ∀ c ∈ text.toList, Text.isLineEnd c → c = '\n') {character : Int}
    (hfirst : t.column - 1 ≤ character) (hlast : character ≤ t.column - 1 + t.text.length) :
    kit.wordAt text ⟨t.line - 1, character⟩ = t.text := by
  obtain ⟨c, hc, hident⟩ := h.exists_first
  have hplain : Text.PlainUpTo text.toList ((text.toList.take place).count '\n') :=
    fun i d hd hend _ => .inl (hfeeds d (List.mem_of_getElem? hd) hend)
  have hne (d : Char) (hd : isIdentChar d = false) : c ≠ d := by
    rintro rfl
    exact absurd hident (by simp [hd])
  obtain ⟨row, hrow⟩ := hplain.exists_row hc (hne '\n' (by decide)) (hne '\r' (by decide))
  obtain ⟨line, hline, hcontent⟩ := Option.map_eq_some_iff.1 hrow
  obtain ⟨hrun, hleft⟩ := h.of_row row
  have hsplit : line.content =
      row.left ++ (t.text.toList ++ (row.char :: row.right).dropWhile isIdentChar) := by
    rw [hcontent, Text.Row.text, ← hrun, List.takeWhile_append_dropWhile]
  have hword (d : Char) (hd : d ∈ t.text.toList) : Text.isWordChar d := by
    rw [← hrun] at hd
    rw [Text.isWordChar_eq]
    exact Lexeme.all_of_takeWhile d hd
  have hbefore (d : Char) (hd : d ∈ row.left.getLast?) : Text.isWordChar d = false := by
    rw [Text.isWordChar_eq]
    exact Bool.not_eq_true _ ▸ hleft d hd
  have hbehind (d : Char)
      (hd : d ∈ ((row.char :: row.right).dropWhile isIdentChar).head?) :
      Text.isWordChar d = false := by
    rw [Text.isWordChar_eq]
    have hstop := List.head?_dropWhile_not isIdentChar (row.char :: row.right)
    rw [Option.mem_def.1 hd] at hstop
    exact hstop
  -- Tokens count lines and columns from one, requests count from zero.
  have hcolumn := row.column_eq hstands
  have hnumber : t.line - 1 = row.above.length := by
    rw [row.line_eq hstands]
    omega
  have hcharacter : character = (row.left.length + (character - row.left.length).toNat : Nat) := by
    omega
  have hwithin : (character - row.left.length).toNat ≤ t.text.toList.length := by
    rw [String.length_toList]
    omega
  rw [hnumber, hcharacter,
    hwords.wordAt_run hnarrow hfeeds hline hsplit hword hbefore hbehind hwithin,
    String.ofList_toList]

end Token

/-! ### Requests for help -/

namespace Server
variable {kit : Toolkit} {s : Server} {message : Message} {id : Json} {uri : String} {place : Mark}

/-- Whether a message is a request for help on a place of a document that is not rejected. -/
structure AsksHelp (kit : Toolkit) (message : Message) (id : Json) (uri : String) (place : Mark) :
    Prop where
  method_eq : message.get? "method" = some (.string "textDocument/hover")
  id_eq : message.get? "id" = some id
  id_ne : id ≠ .null
  accepted : ∃ spot, kit.hovering (params message) = .ok spot
  uri_eq : (params message).at? ["textDocument", "uri"] = some (.string uri)
  line_eq : (params message).at? ["position", "line"] = some (.int place.line)
  character_eq : (params message).at? ["position", "character"] = some (.int place.character)

/-- A request for help is read for what it says. -/
theorem AsksHelp.hovering (hreads : kit.ReturnsFields) (h : AsksHelp kit message id uri place) :
    kit.hovering (params message) = .ok (uri, place) := by
  obtain ⟨⟨found, line, character⟩, hhovering⟩ := h.accepted
  obtain ⟨huri, hline, hcharacter⟩ := hreads.hovering hhovering
  obtain rfl : found = uri := huri uri h.uri_eq
  obtain rfl : line = place.line := hline place.line h.line_eq
  obtain rfl : character = place.character := hcharacter place.character h.character_eq
  exact hhovering

/-- Help is given on the word at the place, and nothing changes. -/
theorem handle_of_asksHelp (hreads : kit.ReturnsFields) (h : AsksHelp kit message id uri place) :
    s.handle kit message =
      ⟨s, [], .response (answer id ((s.hover kit uri place).elim .null kit.writeHelp))⟩ := by
  have hperform : s.perform kit (params message) .hover =
      .ok ((s.hover kit uri place).elim .null kit.writeHelp, s, []) := by
    simp only [perform, h.hovering hreads]
    rfl
  have hid : identifier? message = some id := identifier?_eq_some_iff.2 ⟨h.id_eq, h.id_ne⟩
  rw [handle_of_perform h.method_eq (by decide) hperform, replyWith, hid]

/-- Whether a response gives an explanation as its result, or none. -/
structure Explains (response : Message) (id : Json) (help : Option String) : Prop where
  id_eq : response.get? "id" = some id
  result_eq : ∃ result, response.get? "result" = some result ∧ (help = none → result = .null) ∧
    ∀ text, help = some text → result.at? ["contents", "kind"] = some (.string "markdown") ∧
      result.at? ["contents", "value"] = some (.string text)

theorem Explains.answer (hwrites : kit.WritesHelp) (id : Json) (help : Option String) :
    Explains (answer id (help.elim .null kit.writeHelp)) id help where
  id_eq := rfl
  result_eq := by
    refine ⟨_, rfl, ?_, ?_⟩
    · rintro rfl
      rfl
    · rintro text rfl
      exact hwrites text

/-- **Help reads the words of the scanner.** Let a document be open, in whatever state the server
is, whose characters all lie in the basic plane and in which only line feeds end lines. For every
name and every reserved word among its tokens that has no digit right before it, a request for help
on any place from the first character of the token up to the one behind its last is answered with
the explanation of the text of the token, or with none if it has none. -/
theorem hover_reads_words (hreads : kit.ReturnsFields) (hwords : kit.JoinsWords)
    (hwrites : kit.WritesHelp) (s : Server) {document : Document} {t : Token}
    (hopen : s.documents.get? uri = some document)
    (hnarrow : ∀ c ∈ document.text.toList, c.toNat < 0x10000)
    (hfeeds : ∀ c ∈ document.text.toList, Text.isLineEnd c → c = '\n')
    (ht : t ∈ Token.ofSource document.text) (hword : t.IsWord)
    (hdigit : ¬ t.FollowsDigit document.text.toList)
    (h : AsksHelp kit message id uri place) (hline : place.line = t.line - 1)
    (hfirst : t.column - 1 ≤ place.character)
    (hlast : place.character ≤ t.column - 1 + t.text.length) :
    ∃ response, s.handle kit message = ⟨s, [], .response response⟩ ∧
      Explains response id (Help.text? t.text) := by
  obtain ⟨start, hstands, hrun⟩ := Token.exists_run ht hword hdigit
  have hat : kit.wordAt document.text place = t.text := by
    have hplace : place = ⟨t.line - 1, place.character⟩ := by rw [← hline]
    rw [hplace]
    exact Token.wordAt_eq hwords hstands hrun hnarrow hfeeds hfirst hlast
  have hhelp : s.hover kit uri place = Help.text? t.text := by
    simp [hover, hopen, hat]
  refine ⟨_, handle_of_asksHelp hreads h, ?_⟩
  rw [hhelp]
  exact .answer hwrites id _

/-- The place behind the last character of a text, of which the same word is also in a string. -/
theorem hover_reads_words_at_end :
    let kit := Toolkit.standard
    let uri := "file:///a"
    let text := "\"len\" 1\nlen"
    let s : Server := ⟨[(uri, ⟨text, some 1, .string "noteg"⟩)], true, false⟩
    let message : Message := [("method", .string "textDocument/hover"), ("id", .int 7),
      ("params", .object [("textDocument", .object [("uri", .string uri)]),
        ("position", .object [("line", .int 1), ("character", .int 3)])])]
    kit.ReturnsFields ∧ kit.JoinsWords ∧ kit.WritesHelp ∧
      AsksHelp kit message (.int 7) uri ⟨1, 3⟩ ∧
      ∃ response result, s.handle kit message = ⟨s, [], .response response⟩ ∧
        response.get? "result" = some result ∧ result.at? ["contents", "value"] =
          some (.string
            "Built-in function: \x60len(array|string)\x60 - Returns the length") := by
  intro kit uri text s message
  have hasks : AsksHelp kit message (.int 7) uri ⟨1, 3⟩ :=
    ⟨rfl, rfl, nofun, ⟨_, by with_unfolding_all rfl⟩, rfl, rfl, rfl⟩
  let t : Token := ⟨.identifier, "len", 2, 1⟩
  have hdigit : ¬ t.FollowsDigit text.toList := by
    rintro ⟨place, hstands, c, hc, hdigit⟩
    have hplaces : ∀ place < text.toList.length,
        (2 : Int) = 1 + (text.toList.take (place + 1)).count '\n' →
        (1 : Int) = 1 + ((text.toList.take (place + 1)).rtakeWhile (· ≠ '\n')).length →
        text.toList[place]? = some '\n' := by
      decide
    have hfeed := hplaces place hstands.le_length hstands.line_eq hstands.column_eq
    obtain rfl : '\n' = c := Option.some.inj (hfeed.symm.trans hc)
    exact absurd hdigit (by decide)
  have hnarrow : ∀ c ∈ text.toList, c.toNat < 0x10000 := by simp [text]
  have hfeeds : ∀ c ∈ text.toList, Text.isLineEnd c → c = '\n' := by simp [text, Text.isLineEnd]
  obtain ⟨response, hhandle, -, result, hresult, -, hhelp⟩ :=
    hover_reads_words Toolkit.standard_returnsFields Toolkit.standard_joinsWords
      Toolkit.standard_writesHelp s (t := t) rfl hnarrow hfeeds (by decide +kernel) (by decide)
      hdigit hasks rfl (by decide) (by decide)
  exact ⟨Toolkit.standard_returnsFields, Toolkit.standard_joinsWords, Toolkit.standard_writesHelp,
    hasks, response, result, hhandle, hresult, (hhelp _ (by decide +kernel)).2⟩

end Server
end PageScript
