import PageScript.Proofs.Framing.Blocks
import PageScript.Proofs.Framing.Messages

/-!
Reading goes on, whatever arrives. Every stream is a row of blocks and a rest that either waits for
more bytes or holds a number of too many digits, and this number is the only thing in a stream that
makes reading fail.
-/
namespace PageScript.Frame
open Text

/-! ### What is behind the blocks -/

/-- Whether nothing can be taken out of bytes before more arrive: the header has no end, or the
payload is not all there. -/
inductive Awaits : List UInt8 → Prop where
  | header {bytes : List UInt8} (h : ¬ emptyLine <:+: bytes) : Awaits bytes
  | payload {header digits after : List UInt8} (hheader : IsHeader header)
    (hlength : FirstLength header digits) (hdigits : digits.length ≤ Numeral.maxDigits)
    (hshort : after.length < digitsValue digits) : Awaits (header ++ emptyLine ++ after)

/-- Whether a block with a number of too many digits stands at the front: either its length, or an
integer in its payload. -/
inductive BeginsWithLongNumber : List UInt8 → Prop where
  | length {header digits after : List UInt8} (hheader : IsHeader header)
    (hlength : FirstLength header digits) (hlong : Numeral.maxDigits < digits.length) :
    BeginsWithLongNumber (header ++ emptyLine ++ after)
  | payload {header digits payload after : List UInt8} (hheader : IsHeader header)
    (hlength : FirstLength header digits) (hdigits : digits.length ≤ Numeral.maxDigits)
    (hsize : digitsValue digits = payload.length) (hinteger : Json.HoldsLongInteger payload) :
    BeginsWithLongNumber (header ++ emptyLine ++ payload ++ after)

theorem front_of_awaits {bytes : List UInt8} (h : Awaits bytes) : front bytes = .incomplete := by
  cases h with
  | header h => rw [front, splitHeader_eq_none_iff.2 h]
  | payload hheader hlength hdigits hshort =>
    simp only [front, splitHeader_of_isHeader hheader, lengthDigits?_eq_some_iff.2 hlength]
    rw [if_neg (Nat.not_lt.2 hdigits), if_pos hshort]

theorem front_of_beginsWithLongNumber {bytes : List UInt8} (h : BeginsWithLongNumber bytes) :
    ∃ rest, front bytes = .failed rest := by
  cases h with
  | @length header digits after hheader hlength hlong =>
    refine ⟨header ++ emptyLine ++ after, ?_⟩
    simp only [front, splitHeader_of_isHeader hheader, lengthDigits?_eq_some_iff.2 hlength]
    rw [if_pos hlong]
  | @payload header digits payload after hheader hlength hdigits hsize hinteger =>
    refine ⟨after, ?_⟩
    rw [front_sized hheader hlength hdigits hsize, payloadFront,
      Json.ofBytes_eq_oversized_iff.2 hinteger]

/-- What is behind a header that gives a length of few enough digits. -/
theorem awaits_or_begins_of_length {header digits : List UInt8} (hheader : IsHeader header)
    (hlength : FirstLength header digits) (hdigits : digits.length ≤ Numeral.maxDigits)
    (after : List UInt8) :
    Awaits (header ++ emptyLine ++ after) ∨ BeginsWithLongNumber (header ++ emptyLine ++ after) ∨
      ∃ (block : Block) (rest : List UInt8), block.IsFramed ∧
        header ++ emptyLine ++ after = block.bytes ++ rest := by
  rcases Nat.lt_or_ge after.length (digitsValue digits) with hshort | hlong
  · exact .inl (.payload hheader hlength hdigits hshort)
  · right
    obtain ⟨payload, rest, rfl, hsize⟩ : ∃ payload rest, after = payload ++ rest ∧
        digitsValue digits = payload.length :=
      ⟨_, _, (List.take_append_drop (digitsValue digits) after).symm,
        (List.length_take_of_le hlong).symm⟩
    rw [← List.append_assoc]
    by_cases hinteger : Json.HoldsLongInteger payload
    · exact .inl (.payload hheader hlength hdigits hsize hinteger)
    · exact .inr ⟨.sized header payload, rest, .sized hheader hlength hdigits hsize hinteger, rfl⟩

/-- **One block.** Every stream awaits more bytes, or begins with a number of too many digits or with
a block. -/
theorem awaits_or_begins (bytes : List UInt8) :
    Awaits bytes ∨ BeginsWithLongNumber bytes ∨
      ∃ (block : Block) (rest : List UInt8), block.IsFramed ∧ bytes = block.bytes ++ rest := by
  cases hsplit : splitHeader bytes with
  | none => exact .inl (.header (splitHeader_eq_none_iff.1 hsplit))
  | some parts =>
    obtain ⟨header, after⟩ := parts
    obtain ⟨hheader, rfl⟩ := splitHeader_eq_some_iff.1 hsplit
    cases hlength : lengthDigits? header with
    | none =>
      exact .inr (.inr ⟨.unsized header, after,
        .unsized hheader (lengthDigits?_eq_none_iff.1 hlength), rfl⟩)
    | some digits =>
      have hlength := lengthDigits?_eq_some_iff.1 hlength
      rcases Nat.lt_or_ge Numeral.maxDigits digits.length with hlong | hdigits
      · exact .inr (.inl (.length hheader hlength hlong))
      · exact awaits_or_begins_of_length hheader hlength hdigits after

theorem Block.length_bytes_pos (block : Block) : 0 < block.bytes.length := by
  cases block with
  | unsized header => simp [bytes, emptyLine]
  | sized header payload =>
    simp only [bytes, emptyLine, List.length_append, List.length_cons]
    omega

/-- **A whole stream** is a row of blocks, and behind them bytes that await more, or begin with a
number of too many digits. -/
theorem exists_blocks (bytes : List UInt8) :
    ∃ (blocks : List Block) (rest : List UInt8), (∀ block ∈ blocks, block.IsFramed) ∧
      bytes = blocks.flatMap Block.bytes ++ rest ∧ (Awaits rest ∨ BeginsWithLongNumber rest) := by
  rcases awaits_or_begins bytes with h | h | ⟨block, rest, hblock, rfl⟩
  · exact ⟨[], bytes, by simp, rfl, .inl h⟩
  · exact ⟨[], bytes, by simp, rfl, .inr h⟩
  · obtain ⟨blocks, last, hblocks, hrest, hlast⟩ := exists_blocks rest
    refine ⟨block :: blocks, last, List.forall_mem_cons.2 ⟨hblock, hblocks⟩, ?_, hlast⟩
    rw [List.flatMap_cons, List.append_assoc, ← hrest]
termination_by bytes.length
decreasing_by
  have := block.length_bytes_pos
  simp_all

/-! ### What is drained -/

theorem drain_of_awaits {blocks : List Block} (h : ∀ block ∈ blocks, block.IsFramed)
    {rest : List UInt8} (hrest : Awaits rest) :
    drain (blocks.flatMap Block.bytes ++ rest) =
      ⟨blocks.filterMap Block.message?, blocks.filterMap Block.notice?, rest, false⟩ := by
  rw [drain_blocks h, drain_of_incomplete (front_of_awaits hrest)]
  simp [drained, Drain.andThen, Drain.waiting]

theorem failed_drain_of_longNumber {blocks : List Block} (h : ∀ block ∈ blocks, block.IsFramed)
    {rest : List UInt8} (hrest : BeginsWithLongNumber rest) :
    (drain (blocks.flatMap Block.bytes ++ rest)).failed = true := by
  obtain ⟨left, hfront⟩ := front_of_beginsWithLongNumber hrest
  rw [drain_blocks h, drain_of_failed hfront]
  rfl

/-- **Reading goes on, whatever arrives**, except for numbers of too many digits. Let a stream of any
bytes be cut in any way, and whatever be taken out in between. Reading fails exactly if behind some
blocks, which were taken out, there is a header whose length has too many digits, or a payload that
holds such an integer. Otherwise the stream is a row of blocks and bytes that await more; the
messages in the blocks come out in order, and each block without one is dropped with a notice. -/
theorem fails_only_for_longNumber (schedule : List Action) :
    ((perform (schedule ++ [.drain])).failed = true ↔
      ∃ (blocks : List Block) (rest : List UInt8), (∀ block ∈ blocks, block.IsFramed) ∧
        fed schedule = blocks.flatMap Block.bytes ++ rest ∧ BeginsWithLongNumber rest) ∧
    ((perform (schedule ++ [.drain])).failed = false →
      ∃ (blocks : List Block) (rest : List UInt8), (∀ block ∈ blocks, block.IsFramed) ∧
        fed schedule = blocks.flatMap Block.bytes ++ rest ∧ Awaits rest ∧
        perform (schedule ++ [.drain]) =
          ⟨blocks.filterMap Block.message?, blocks.filterMap Block.notice?, rest, false⟩) := by
  rw [failed_perform_append_drain]
  obtain ⟨blocks, rest, hblocks, hfed, hrest⟩ := exists_blocks (fed schedule)
  have hdrain (h : Awaits rest) : drain (fed schedule) =
      ⟨blocks.filterMap Block.message?, blocks.filterMap Block.notice?, rest, false⟩ := by
    rw [hfed, drain_of_awaits hblocks h]
  constructor
  · constructor
    · intro hfailed
      rcases hrest with h | h
      · rw [hdrain h] at hfailed
        cases hfailed
      · exact ⟨blocks, rest, hblocks, hfed, h⟩
    · rintro ⟨blocks, rest, hblocks, hfed, h⟩
      rw [hfed]
      exact failed_drain_of_longNumber hblocks h
  · intro hok
    rcases hrest with h | h
    · exact ⟨blocks, rest, hblocks, hfed, h, by rw [perform_append_drain schedule hok, hdrain h]⟩
    · rw [hfed, failed_drain_of_longNumber hblocks h] at hok
      cases hok

/-! ### A long identifier -/

/-- Reading comes to the value of the first entry of an object. -/
theorem reaches_value (rest : List Char) :
    Json.Reaches ("\x7b\"id\":".toList ++ rest) .value [.object [] "id"] rest :=
  have hopen : Json.Reaches ("\x7b\"id\":".toList ++ rest) .keyOrEnd [] ("\"id\":".toList ++ rest) :=
    Json.Reaches.start.step rfl
  have hkey : Json.Reaches ("\x7b\"id\":".toList ++ rest) (.colon [] "id") [] (":".toList ++ rest) :=
    hopen.step rfl
  hkey.step rfl

/-- **Not every stream can be read.** An identifier of 4301 digits makes reading fail, and the
message behind it is not taken out, although it could be. -/
theorem not_forall_read :
    let text := "\x7b\"id\":".toList ++ (List.replicate 4301 '1' ++ ['\x7d'])
    let bad := (headerText 4308).map asciiByte ++ emptyLine ++ text.map asciiByte
    let good := "Content-Length: 8\r\n\r\n\x7b\"id\":2\x7d".toUTF8.toList
    perform ([.feed (bad ++ good)] ++ [.drain]) = ⟨[], [], good, true⟩ ∧
      drain good = ⟨[[("id", .int 2)]], [], [], false⟩ ∧
      ¬ ∀ schedule, (perform (schedule ++ [.drain])).failed = false := by
  intro text bad good
  have hdigit : ∀ c ∈ List.replicate 4301 '1', c = '1' := fun c => List.eq_of_mem_replicate
  have hgraphic : ∀ c ∈ text, IsGraphic c := by
    simp only [text, List.forall_mem_append]
    refine ⟨isGraphic_of_all rfl, fun c hc => ?_, isGraphic_of_all rfl⟩
    rw [hdigit c hc]
    decide
  have hlong : Json.Lexeme.BeginsLongInteger (List.replicate 4301 '1' ++ ['\x7d']) := by
    refine .natural (.mk (fun c hc => ?_) (by simp) ?_ (by simp) ?_)
    · rw [hdigit c hc]
      rfl
    · rw [List.length_replicate]
      decide
    · rw [Json.Lexeme.continuesNumber_iff]
      decide
  have hinteger : Json.HoldsLongInteger (text.map asciiByte) :=
    ⟨text, detect?_map_asciiByte hgraphic, .value, _, _, reaches_value _, trivial, hlong⟩
  have hsize : digitsValue ((Nat.toDigits 10 4308).map asciiByte) = (text.map asciiByte).length := by
    rw [List.length_map, List.length_append, List.length_append, List.length_replicate]
    decide
  have hfront : front (bad ++ good) = .failed good := by
    rw [front_sized (isHeader_headerText 4308) (firstLength_headerText 4308) (by decide) hsize,
      payloadFront, Json.ofBytes_eq_oversized_iff.2 hinteger]
  have hperform : perform ([.feed (bad ++ good)] ++ [.drain]) = ⟨[], [], good, true⟩ := by
    rw [perform_append_singleton]
    show (Drain.waiting _).andThen (drain (bad ++ good)) = _
    rw [drain_of_failed hfront]
    rfl
  have hgood : good = [[("id", .int 2)]].flatMap fun message => (framed message).toUTF8.toList := by
    decide +kernel
  refine ⟨hperform, ?_, fun h => ?_⟩
  · rw [hgood]
    exact drain_flatMap_framed (by decide +kernel) (by decide +kernel)
  · have := h [.feed (bad ++ good)]
    rw [hperform] at this
    cases this

end PageScript.Frame
