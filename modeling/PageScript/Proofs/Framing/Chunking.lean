import Mathlib.Data.List.Induction
import PageScript.Frame

/-!
Chunking. How a stream of bytes is cut into chunks, and when messages are taken out in between, does
not matter: the same messages and notices come out, and the same bytes remain, as when the whole
stream arrives at once and is drained once.

Everything rests on one fact about a single search, `next_append`: what a search has decided stays
decided when more bytes arrive.
-/
namespace PageScript.Frame

/-! ### Headers -/

theorem eq_of_splitHeader {bytes header after : List UInt8}
    (h : splitHeader bytes = some (header, after)) :
    bytes = header ++ 0x0d :: 0x0a :: 0x0d :: 0x0a :: after := by
  fun_induction splitHeader bytes generalizing header after with
  | case1 => simp at h
  | case2 rest =>
    obtain ⟨rfl, rfl⟩ := by simpa using h
    rfl
  | case3 b rest _ ih =>
    obtain ⟨⟨header', after'⟩, hs, he⟩ := Option.map_eq_some_iff.1 h
    cases he
    rw [ih hs, List.cons_append]

/-- The first empty line stays the first one: a header that was complete does not change. -/
theorem splitHeader_append {bytes header after : List UInt8}
    (h : splitHeader bytes = some (header, after)) (more : List UInt8) :
    splitHeader (bytes ++ more) = some (header, after ++ more) := by
  fun_induction splitHeader bytes generalizing header after with
  | case1 => simp at h
  | case2 rest =>
    obtain ⟨rfl, rfl⟩ := by simpa using h
    rfl
  | case3 b rest hnot ih =>
    obtain ⟨⟨header', after'⟩, hs, he⟩ := Option.map_eq_some_iff.1 h
    cases he
    -- `rest` holds an empty line of its own, so `more` cannot complete one that begins with `b`.
    have hlong : 3 ≤ rest.length := by
      have := congrArg List.length (eq_of_splitHeader hs)
      simp only [List.length_append, List.length_cons] at this
      omega
    obtain ⟨c, d, e, tail, rfl⟩ : ∃ c d e tail, rest = c :: d :: e :: tail := by
      rcases rest with _ | ⟨c, _ | ⟨d, _ | ⟨e, tail⟩⟩⟩
      · simp at hlong
      · simp at hlong
      · simp at hlong
      · exact ⟨c, d, e, tail, rfl⟩
    rw [List.cons_append, splitHeader, ih hs]
    · rfl
    · intro tail' hb htail
      simp only [List.cons_append, List.cons.injEq] at htail
      obtain ⟨rfl, rfl, rfl, -⟩ := htail
      exact hnot tail hb rfl

/-! ### The front -/

/-- The same front, with more bytes behind it. -/
def Front.followedBy (more : List UInt8) : Front → Front
  | incomplete => incomplete
  | message m rest => message m (rest ++ more)
  | dropped notice rest => dropped notice (rest ++ more)
  | failed rest => failed (rest ++ more)

theorem payloadFront_append (payload rest more : List UInt8) :
    payloadFront payload (rest ++ more) = (payloadFront payload rest).followedBy more := by
  unfold payloadFront
  split <;> rfl

/-- What stands at the front is decided as soon as it is complete. -/
theorem front_append {bytes : List UInt8} (h : front bytes ≠ .incomplete) (more : List UInt8) :
    front (bytes ++ more) = (front bytes).followedBy more := by
  unfold front at h ⊢
  cases hs : splitHeader bytes with
  | none => simp [hs] at h
  | some split =>
    obtain ⟨header, after⟩ := split
    rw [splitHeader_append hs]
    cases hd : lengthDigits? header with
    | none => simp [Front.followedBy, hd]
    | some digits =>
      by_cases hlong : Numeral.maxDigits < digits.length
      · simp [Front.followedBy, hd, hlong]
      · have hle : digitsValue digits ≤ after.length :=
          Nat.not_lt.1 fun hlt => by simp [hs, hd, hlong, hlt] at h
        simp only [hd, hlong, if_false, List.length_append]
        rw [if_neg (by omega), if_neg (by omega), List.take_append_of_le_length hle,
          List.drop_append_of_le_length hle, payloadFront_append]

/-- What is behind the front is a suffix of the stream. -/
def Front.EndsIn (bytes : List UInt8) : Front → Prop
  | incomplete => True
  | message _ rest | dropped _ rest | failed rest => rest <:+ bytes

theorem front_endsIn (bytes : List UInt8) : (front bytes).EndsIn bytes := by
  unfold front
  split
  · trivial
  · next header after h =>
    have hafter : after <:+ bytes :=
      ⟨header ++ [0x0d, 0x0a, 0x0d, 0x0a], by simp [eq_of_splitHeader h]⟩
    split
    · exact hafter
    · next digits _ =>
      split
      · exact List.suffix_refl bytes
      · split
        · trivial
        · have hrest := (List.drop_suffix (digitsValue digits) after).trans hafter
          unfold payloadFront
          split <;> exact hrest

/-! ### One search -/

/-- A search that noted something before. -/
def Pull.behind (notices : List Notice) (p : Pull) : Pull :=
  { p with notices := notices ++ p.notices }

theorem next_eq (bytes : List UInt8) :
    next bytes =
      match front bytes with
      | .incomplete => ⟨[], .idle, bytes⟩
      | .message message rest => ⟨[], .message message, rest⟩
      | .dropped notice rest => (next rest).after notice
      | .failed rest => ⟨[], .failed, rest⟩ := by
  rw [next]
  split <;> rename_i h <;> simp only [h]

/-- **A search is stable under more bytes.** One that found a message, or failed, does the same and
leaves the further bytes behind what it left before; one that found nothing goes on where it
stopped. -/
theorem next_append (bytes more : List UInt8) :
    next (bytes ++ more) =
      match (next bytes).found with
      | .idle => (next ((next bytes).rest ++ more)).behind (next bytes).notices
      | _ => { next bytes with rest := (next bytes).rest ++ more } := by
  fun_induction next bytes with
  | case1 bytes h => simp [Pull.behind]
  | case2 bytes message rest h =>
    rw [next_eq (bytes ++ more), front_append (by simp [h]), h]
    rfl
  | case3 bytes notice rest h ih =>
    rw [next_eq (bytes ++ more), front_append (by simp [h]), h]
    simp only [Front.followedBy, ih, Pull.after]
    split <;> rfl
  | case4 bytes rest h =>
    rw [next_eq (bytes ++ more), front_append (by simp [h]), h]
    rfl

theorem next_rest_suffix (bytes : List UInt8) : (next bytes).rest <:+ bytes := by
  have hfront := front_endsIn bytes
  fun_induction next bytes with
  | case1 bytes h => exact List.suffix_refl bytes
  | case2 bytes message rest h => rw [h] at hfront; exact hfront
  | case3 bytes notice rest h ih => rw [h] at hfront; exact (ih (front_endsIn rest)).trans hfront
  | case4 bytes rest h => rw [h] at hfront; exact hfront

/-- A search that found nothing finds nothing again. -/
theorem next_rest_of_idle {bytes : List UInt8} (h : (next bytes).found = .idle) :
    next (next bytes).rest = ⟨[], .idle, (next bytes).rest⟩ := by
  fun_induction next bytes with
  | case1 bytes hf => rw [next_eq, hf]
  | case2 => simp at h
  | case3 bytes notice rest hf ih => exact ih h
  | case4 => simp at h

/-! ### Several messages -/

/-- What came of `d` first, and of `e` from then on. -/
def Drain.andThen (d e : Drain) : Drain :=
  ⟨d.messages ++ e.messages, d.notices ++ e.notices, e.rest, d.failed || e.failed⟩

/-- Nothing has come yet, and some bytes wait. -/
def Drain.waiting (bytes : List UInt8) : Drain := ⟨[], [], bytes, false⟩

theorem Drain.andThen_assoc (d e f : Drain) :
    (d.andThen e).andThen f = d.andThen (e.andThen f) := by
  simp [andThen, Bool.or_assoc]

theorem drain_eq (bytes : List UInt8) :
    drain bytes =
      match (next bytes).found with
      | .message message => (drain (next bytes).rest).after (next bytes) message
      | .idle => ⟨[], (next bytes).notices, (next bytes).rest, false⟩
      | .failed => ⟨[], (next bytes).notices, (next bytes).rest, true⟩ := by
  rw [drain]
  split <;> rename_i h <;> simp only [h]

theorem drain_nil : drain [] = .waiting [] := by
  rw [drain_eq, next_eq]
  rfl

/-- Draining is taking as many messages as there are. -/
theorem exists_take_eq_drain (bytes : List UInt8) : ∃ limit, take limit bytes = drain bytes := by
  fun_induction drain bytes with
  | case1 bytes p message h ih =>
    obtain ⟨limit, hl⟩ := ih
    exact ⟨limit + 1, by simp only [take, h, hl, p]⟩
  | case2 bytes p h => exact ⟨1, by simp only [take, h, p]⟩
  | case3 bytes p h => exact ⟨1, by simp only [take, h, p]⟩

/-- A stream in which a search found nothing is drained like what the search left, more bytes
included. -/
theorem drain_append_of_idle {bytes : List UInt8} (h : (next bytes).found = .idle)
    (more : List UInt8) :
    drain (bytes ++ more) =
      (Drain.mk [] (next bytes).notices (next bytes).rest false).andThen
        (drain ((next bytes).rest ++ more)) := by
  have hnext := next_append bytes more
  rw [h] at hnext
  rw [drain_eq (bytes ++ more), drain_eq ((next bytes).rest ++ more), hnext]
  simp only [Pull.behind]
  cases (next ((next bytes).rest ++ more)).found <;> simp [Drain.andThen, Drain.after]

/-- **Taking some messages first changes nothing**, unless that already fails. -/
theorem drain_append_of_take {limit : Nat} {bytes : List UInt8}
    (h : (take limit bytes).failed = false) (more : List UInt8) :
    drain (bytes ++ more) = (take limit bytes).andThen (drain ((take limit bytes).rest ++ more)) := by
  induction limit generalizing bytes with
  | zero => rfl
  | succ limit ih =>
    have hnext := next_append bytes more
    simp only [take] at h ⊢
    cases hf : (next bytes).found with
    | message message =>
      simp only [hf, Drain.after] at h hnext ⊢
      rw [drain_eq, hnext]
      simp only [ih h]
      simp [Drain.andThen, Drain.after]
    | idle => exact drain_append_of_idle hf more
    | failed => simp [hf] at h

/-- A failure stays one when more bytes arrive. -/
theorem failed_drain_append_of_take {limit : Nat} {bytes : List UInt8}
    (h : (take limit bytes).failed = true) (more : List UInt8) :
    (drain (bytes ++ more)).failed = true := by
  induction limit generalizing bytes with
  | zero => simp [take] at h
  | succ limit ih =>
    have hnext := next_append bytes more
    simp only [take] at h
    cases hf : (next bytes).found with
    | message message =>
      simp only [hf, Drain.after] at h hnext
      rw [drain_eq, hnext]
      exact ih h
    | idle => simp [hf] at h
    | failed =>
      simp only [hf] at hnext
      rw [drain_eq, hnext]

theorem take_rest_suffix (limit : Nat) (bytes : List UInt8) :
    (take limit bytes).rest <:+ bytes := by
  induction limit generalizing bytes with
  | zero => exact List.suffix_refl bytes
  | succ limit ih =>
    simp only [take]
    cases (next bytes).found with
    | message message => exact (ih _).trans (next_rest_suffix bytes)
    | idle => exact next_rest_suffix bytes
    | failed => exact next_rest_suffix bytes

/-- After a drain nothing is left to take. -/
theorem drain_rest_drain {bytes : List UInt8} (h : (drain bytes).failed = false) :
    drain (drain bytes).rest = .waiting (drain bytes).rest := by
  fun_induction drain bytes with
  | case1 bytes p message hf ih => exact ih h
  | case2 bytes p hf =>
    have := next_rest_of_idle hf
    rw [drain_eq, this]
    rfl
  | case3 bytes p hf => simp at h

/-! ### Schedules -/

/-- What is done with a stream: it gets more bytes, some messages are taken out, or all that there
are. -/
inductive Action where
  | feed (bytes : List UInt8)
  | take (limit : Nat)
  | drain

/-- The bytes that an action adds to the stream. -/
def Action.fed : Action → List UInt8
  | feed bytes => bytes
  | take _ | drain => []

/-- The bytes that a schedule adds to the stream, in order. -/
def fed (schedule : List Action) : List UInt8 := schedule.flatMap Action.fed

@[simp] theorem fed_feed (bytes : List UInt8) : fed [.feed bytes] = bytes := by
  simp [fed, Action.fed]

@[simp] theorem fed_take (limit : Nat) : fed [.take limit] = [] := rfl

@[simp] theorem fed_drain : fed [.drain] = [] := rfl

theorem fed_append (schedule more : List Action) :
    fed (schedule ++ more) = fed schedule ++ fed more := by
  simp [fed]

/-- What has come of a stream after one more action. -/
def Drain.perform (d : Drain) : Action → Drain
  | .feed bytes => { d with rest := d.rest ++ bytes }
  | .take limit => d.andThen (Frame.take limit d.rest)
  | .drain => d.andThen (Frame.drain d.rest)

/-- What has come of a stream after a schedule, from an empty start. -/
def perform (schedule : List Action) : Drain := schedule.foldl Drain.perform (.waiting [])

theorem perform_append_singleton (schedule : List Action) (action : Action) :
    perform (schedule ++ [action]) = (perform schedule).perform action := by
  simp [perform]

theorem exists_perform_take_eq_drain (d : Drain) :
    ∃ limit, d.perform (.take limit) = d.perform .drain := by
  obtain ⟨limit, h⟩ := exists_take_eq_drain d.rest
  exact ⟨limit, by simp only [Drain.perform, h]⟩

theorem failed_drain_append {bytes : List UInt8} (h : (drain bytes).failed = true)
    (more : List UInt8) : (drain (bytes ++ more)).failed = true := by
  obtain ⟨limit, hl⟩ := exists_take_eq_drain bytes
  exact failed_drain_append_of_take (hl ▸ h) more

/-- A stream that is drained without failure has no beginning that fails. -/
theorem failed_drain_of_append {bytes more : List UInt8}
    (h : (drain (bytes ++ more)).failed = false) : (drain bytes).failed = false := by
  cases hd : (drain bytes).failed with
  | false => rfl
  | true => rw [failed_drain_append hd more] at h; cases h

/-- What a schedule leaves to be done: draining the stream, however it goes on, gives what has come
of it already and then what comes of the bytes that wait. -/
def Resumes (schedule : List Action) : Prop :=
  (perform schedule).failed = false ∧ ∀ more, drain (fed schedule ++ more) =
    (perform schedule).andThen (drain ((perform schedule).rest ++ more))

/-- One more action that does not fail leaves what a schedule leaves to be done. -/
theorem Resumes.append {schedule : List Action} (h : Resumes schedule) {action : Action}
    (hok : ((perform schedule).perform action).failed = false) :
    Resumes (schedule ++ [action]) := by
  have htake : ∀ limit, ((perform schedule).perform (.take limit)).failed = false →
      Resumes (schedule ++ [.take limit]) := by
    intro limit hok
    have htaken := (Bool.or_eq_false_iff.1 hok).2
    rw [Resumes, perform_append_singleton, fed_append]
    refine ⟨hok, fun more => ?_⟩
    rw [fed_take, List.append_nil, h.2 more, drain_append_of_take htaken more,
      ← Drain.andThen_assoc]
    rfl
  cases action with
  | feed bytes =>
    refine ⟨?_, fun more => ?_⟩
    · rw [perform_append_singleton]
      exact h.1
    · rw [perform_append_singleton, fed_append, List.append_assoc, h.2]
      simp [Drain.perform, Drain.andThen]
  | take limit => exact htake limit hok
  | drain =>
    obtain ⟨limit, hl⟩ := exists_perform_take_eq_drain (perform schedule)
    have hresumes := htake limit (hl ▸ hok)
    rw [Resumes, perform_append_singleton, fed_append] at hresumes ⊢
    rwa [← hl]

/-- What has not failed leaves to be done what the stream has behind it. -/
theorem resumes_of_perform (schedule : List Action) (h : (perform schedule).failed = false) :
    Resumes schedule := by
  induction schedule using List.reverseRecOn with
  | nil => exact ⟨rfl, fun more => rfl⟩
  | append_singleton schedule action ih =>
    rw [perform_append_singleton] at h
    have hbefore : (perform schedule).failed = false := by
      cases action with
      | feed bytes => exact h
      | take limit | drain => exact (Bool.or_eq_false_iff.1 h).1
    exact (ih hbefore).append h

theorem Resumes.failed_take {schedule : List Action} (h : Resumes schedule)
    (hok : (drain (fed schedule)).failed = false) (limit : Nat) :
    ((perform schedule).perform (.take limit)).failed = false := by
  obtain ⟨hfailed, hmore⟩ := h
  cases ht : (Frame.take limit (perform schedule).rest).failed with
  | false => simp [Drain.perform, Drain.andThen, hfailed, ht]
  | true =>
    have hagain := failed_drain_append_of_take ht []
    have hwhole := hmore []
    rw [List.append_nil] at hagain hwhole
    simp [hwhole, Drain.andThen, hagain] at hok

theorem resumes (schedule : List Action) (h : (drain (fed schedule)).failed = false) :
    Resumes schedule := by
  induction schedule using List.reverseRecOn with
  | nil => exact ⟨rfl, fun more => rfl⟩
  | append_singleton schedule action ih =>
    rw [fed_append] at h
    have hbefore := failed_drain_of_append h
    have hresumes := ih hbefore
    apply hresumes.append
    cases action with
    | feed bytes => exact hresumes.1
    | take limit => exact hresumes.failed_take hbefore limit
    | drain =>
      obtain ⟨limit, hl⟩ := exists_perform_take_eq_drain (perform schedule)
      rw [← hl]
      exact hresumes.failed_take hbefore limit

/-- A drain at the end comes to what draining the whole stream gives. -/
theorem perform_append_drain (schedule : List Action) (h : (drain (fed schedule)).failed = false) :
    perform (schedule ++ [.drain]) = drain (fed schedule) := by
  have hwhole := (resumes schedule h).2 []
  rw [List.append_nil, List.append_nil] at hwhole
  rw [perform_append_singleton, hwhole]
  rfl

/-- A schedule that drains in the end fails exactly if draining the whole stream does. -/
theorem failed_perform_append_drain (schedule : List Action) :
    (perform (schedule ++ [.drain])).failed = (drain (fed schedule)).failed := by
  cases h : (perform schedule).failed with
  | false =>
    have hwhole := (resumes_of_perform schedule h).2 []
    rw [List.append_nil, List.append_nil] at hwhole
    rw [perform_append_singleton, hwhole]
    rfl
  | true =>
    cases hd : (drain (fed schedule)).failed with
    | false =>
      have := (resumes schedule hd).1
      rw [h] at this
      cases this
    | true =>
      rw [perform_append_singleton]
      simp [Drain.perform, Drain.andThen, h]

theorem perform_rest_suffix (schedule : List Action) :
    (perform schedule).rest <:+ fed schedule := by
  induction schedule using List.reverseRecOn with
  | nil => exact List.suffix_refl []
  | append_singleton schedule action ih =>
    rw [perform_append_singleton, fed_append]
    cases action with
    | feed bytes =>
      obtain ⟨before, hb⟩ := ih
      exact ⟨before, by simp [Drain.perform, ← hb]⟩
    | take limit =>
      rw [fed_take, List.append_nil]
      exact (take_rest_suffix limit _).trans ih
    | drain =>
      obtain ⟨limit, hl⟩ := exists_perform_take_eq_drain (perform schedule)
      rw [fed_drain, List.append_nil, ← hl]
      exact (take_rest_suffix limit _).trans ih

/-- **Chunking independence.** Let a stream be drained without failure. Then every schedule that feeds
it, in whatever chunks, takes messages out in between, and drains in the end, gives exactly what
draining the whole stream gives: the messages, the notices and the bytes that remain, without failure.
On the way the messages and notices so far are a beginning of those, and the waiting bytes are the
last of the bytes that were fed; and a second drain finds nothing and changes nothing. -/
theorem perform_eq_drain_fed (schedule : List Action) (h : (drain (fed schedule)).failed = false) :
    perform (schedule ++ [.drain]) = drain (fed schedule) ∧
      drain (drain (fed schedule)).rest = ⟨[], [], (drain (fed schedule)).rest, false⟩ ∧
      ∀ done, done <+: schedule ++ [.drain] →
        (perform done).failed = false ∧
        (perform done).rest <:+ fed done ∧
        (perform done).messages <+: (drain (fed schedule)).messages ∧
        (perform done).notices <+: (drain (fed schedule)).notices := by
  refine ⟨perform_append_drain schedule h, drain_rest_drain h, fun done hdone => ?_⟩
  obtain ⟨left, hleft⟩ := hdone
  have hfed : fed schedule = fed done ++ fed left := by
    rw [← fed_append, hleft, fed_append, fed_drain, List.append_nil]
  rw [hfed] at h ⊢
  obtain ⟨hfailed, hmore⟩ := resumes done (failed_drain_of_append h)
  rw [hmore (fed left)]
  exact ⟨hfailed, perform_rest_suffix done, List.prefix_append _ _, List.prefix_append _ _⟩

/-- A block without a length, then a message, cut inside the name of the field and inside the empty
line, with searches in between. -/
theorem perform_eq_drain_fed_cut :
    let schedule : List Action :=
      [.feed "X: 1\r\n\r\nContent-Le".toUTF8.toList, .take 3,
        .feed "ngth: 2\r\n\r".toUTF8.toList, .take 1, .feed "\n\x7b\x7dCo".toUTF8.toList]
    (drain (fed schedule)).failed = false ∧
      (drain (fed schedule)).messages.length = 1 ∧ (drain (fed schedule)).notices.length = 1 ∧
      perform (schedule ++ [.drain]) = drain (fed schedule) :=
  ⟨by decide +kernel, by decide +kernel, by decide +kernel,
    (perform_eq_drain_fed _ (by decide +kernel)).1⟩

end PageScript.Frame
