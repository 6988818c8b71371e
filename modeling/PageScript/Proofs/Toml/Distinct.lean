import PageScript.Proofs.Fields
import PageScript.Toml.Reader

/-!
Names in documents. Whatever a document writes under headers, dotted keys and in inline tables: no
table that is read from it, however deep, has two entries of one name.
-/
namespace PageScript.Toml

/-! ### Data without repeated names -/

/-- No table in the data has two entries of one name. -/
inductive Distinct : Toml → Prop where
  | bool (b : Bool) : Distinct (.bool b)
  | integer (n : Int) : Distinct (.integer n)
  | double (d : Double) : Distinct (.double d)
  | string (s : String) : Distinct (.string s)
  | moment (m : Moment) : Distinct (.moment m)
  | array {items : List Toml} (h : ∀ item ∈ items, Distinct item) : Distinct (.array items)
  | table {entries : List (String × Toml)} (hnames : (Fields.keys entries).Nodup)
    (h : ∀ entry ∈ entries, Distinct entry.2) : Distinct (.table entries)

/-- The same of what stands under a name while a document is read. -/
inductive Slot.Distinct : Slot → Prop where
  | value {v : Toml} (h : v.Distinct) : Distinct (.value v)
  | table {origin : Origin} {entries : List (String × Slot)} (hnames : (Fields.keys entries).Nodup)
    (h : ∀ entry ∈ entries, Distinct entry.2) : Distinct (.table origin entries)
  | tables {earlier : List (List (String × Slot))} {last : List (String × Slot)}
    (hnames : ∀ entries ∈ earlier ++ [last], (Fields.keys entries).Nodup)
    (h : ∀ entries ∈ earlier ++ [last], ∀ entry ∈ entries, Distinct entry.2) :
    Distinct (.tables earlier last)

/-- The same of a table while a document is read. -/
structure Draft.Distinct (draft : Draft) : Prop where
  names : (Fields.keys draft).Nodup
  slots : ∀ entry ∈ draft, entry.2.Distinct

theorem Slot.distinct_table_iff {origin : Origin} {entries : List (String × Slot)} :
    (Slot.table origin entries).Distinct ↔ Draft.Distinct entries := by
  constructor
  · intro h
    cases h with
    | table hnames h => exact ⟨hnames, h⟩
  · exact fun h => .table h.names h.slots

theorem Slot.distinct_tables_iff {earlier : List (List (String × Slot))}
    {last : List (String × Slot)} :
    (Slot.tables earlier last).Distinct ↔
      (∀ entries ∈ earlier, Draft.Distinct entries) ∧ Draft.Distinct last := by
  constructor
  · intro h
    cases h with
    | tables hnames h =>
      exact ⟨fun entries hentries => ⟨hnames entries (by simp [hentries]),
        h entries (by simp [hentries])⟩, hnames last (by simp), h last (by simp)⟩
  · rintro ⟨hearlier, hlast⟩
    have hall (entries : List (String × Slot)) (h : entries ∈ earlier ++ [last]) :
        Draft.Distinct entries := by
      rcases List.mem_append.1 h with h | h
      · exact hearlier entries h
      · rwa [List.mem_singleton.1 h]
    exact .tables (fun entries h => (hall entries h).names) fun entries h => (hall entries h).slots

/-! ### Changes of tables -/

namespace Draft
variable {draft draft' : Draft} {name : String} {slot : Slot}

theorem Distinct.nil : Distinct [] := ⟨List.nodup_nil, nofun⟩

theorem Distinct.put (h : draft.Distinct) (name : String) (hslot : slot.Distinct) :
    Distinct (draft.put name slot) := by
  refine ⟨Fields.nodup_keys_put h.names name slot, fun entry hentry => ?_⟩
  rcases Fields.mem_put hentry with hentry | hvalue
  · exact h.slots entry hentry
  · rwa [hvalue]

theorem Distinct.get? (h : draft.Distinct) (hget : draft.get? name = some slot) : slot.Distinct :=
  h.slots _ (Fields.mem_of_get? hget)

/-- What is kept of the table at a path is kept of all tables. -/
theorem Distinct.within {change : Draft → Option Draft}
    (hchange : ∀ draft draft', draft.Distinct → change draft = some draft' → draft'.Distinct)
    {path : List String} (h : draft.Distinct) (hwithin : within change path draft = some draft') :
    draft'.Distinct := by
  induction path generalizing draft draft' with
  | nil => exact hchange draft draft' h hwithin
  | cons name path ih =>
    rw [Draft.within] at hwithin
    split at hwithin
    · obtain ⟨inner, hinner, rfl⟩ := Option.map_eq_some_iff.1 hwithin
      exact h.put name (Slot.distinct_table_iff.2 (ih .nil hinner))
    · next origin entries hget =>
      obtain ⟨inner, hinner, rfl⟩ := Option.map_eq_some_iff.1 hwithin
      have hentries := Slot.distinct_table_iff.1 (h.get? hget)
      exact h.put name (Slot.distinct_table_iff.2 (ih hentries hinner))
    · next earlier last hget =>
      obtain ⟨inner, hinner, rfl⟩ := Option.map_eq_some_iff.1 hwithin
      obtain ⟨hearlier, hlast⟩ := Slot.distinct_tables_iff.1 (h.get? hget)
      exact h.put name (Slot.distinct_tables_iff.2 ⟨hearlier, ih hlast hinner⟩)
    · cases hwithin

theorem Distinct.declare {path : List String} (h : draft.Distinct)
    (hdeclare : declare path name draft = some draft') : draft'.Distinct := by
  refine h.within (fun draft draft' h hchange => ?_) hdeclare
  split at hchange
  · cases hchange
    exact h.put name (Slot.distinct_table_iff.2 .nil)
  · next inner hget =>
    cases hchange
    exact h.put name (Slot.distinct_table_iff.2 (Slot.distinct_table_iff.1 (h.get? hget)))
  · cases hchange

theorem Distinct.append {path : List String} (h : draft.Distinct)
    (happend : append path name draft = some draft') : draft'.Distinct := by
  refine h.within (fun draft draft' h hchange => ?_) happend
  split at hchange
  · cases hchange
    exact h.put name (Slot.distinct_tables_iff.2 ⟨nofun, .nil⟩)
  · next earlier last hget =>
    cases hchange
    obtain ⟨hearlier, hlast⟩ := Slot.distinct_tables_iff.1 (h.get? hget)
    refine h.put name (Slot.distinct_tables_iff.2 ⟨fun entries hentries => ?_, .nil⟩)
    rcases List.mem_append.1 hentries with hentries | hentries
    · exact hearlier entries hentries
    · rwa [List.mem_singleton.1 hentries]
  · cases hchange

theorem Distinct.assign {part : Nat} {value : Toml} {path : List String} (h : draft.Distinct)
    (hvalue : value.Distinct) (hassign : assign part value path name draft = some draft') :
    draft'.Distinct := by
  induction path generalizing draft draft' with
  | nil =>
    rw [Draft.assign] at hassign
    split at hassign
    · cases hassign
    · cases hassign
      exact h.put name (.value hvalue)
  | cons step path ih =>
    rw [Draft.assign] at hassign
    split at hassign
    · obtain ⟨inner, hinner, rfl⟩ := Option.map_eq_some_iff.1 hassign
      exact h.put step (Slot.distinct_table_iff.2 (ih .nil hinner))
    · next origin entries hget =>
      split at hassign
      · obtain ⟨inner, hinner, rfl⟩ := Option.map_eq_some_iff.1 hassign
        have hentries := Slot.distinct_table_iff.1 (h.get? hget)
        exact h.put step (Slot.distinct_table_iff.2 (ih hentries hinner))
      · cases hassign
    · cases hassign

end Draft

/-! ### Finished tables -/

theorem finishEntries_eq_map (entries : List (String × Slot)) :
    finishEntries entries = entries.map fun entry => (entry.1, entry.2.finish) := by
  induction entries with
  | nil => rfl
  | cons entry rest ih => rw [finishEntries, ih, List.map_cons]

theorem finishTables_eq_map (tables : List (List (String × Slot))) :
    finishTables tables = tables.map fun entries => .table (finishEntries entries) := by
  induction tables with
  | nil => rfl
  | cons entries rest ih => rw [finishTables, ih, List.map_cons]

/-- A finished table has the names that it had before. -/
theorem distinct_finishEntries {entries : List (String × Slot)}
    (hnames : (Fields.keys entries).Nodup) (h : ∀ entry ∈ entries, entry.2.finish.Distinct) :
    (Toml.table (finishEntries entries)).Distinct := by
  rw [finishEntries_eq_map]
  refine .table (by simpa [Fields.keys, Function.comp_def] using hnames) fun entry hentry => ?_
  obtain ⟨slot, hslot, rfl⟩ := List.mem_map.1 hentry
  exact h slot hslot

theorem Slot.Distinct.finish {slot : Slot} (h : slot.Distinct) : slot.finish.Distinct := by
  induction h with
  | value h => exact h
  | table hnames h ih => exact distinct_finishEntries hnames ih
  | @tables earlier last hnames h ih =>
    rw [Slot.finish, finishTables_eq_map]
    refine .array fun item hitem => ?_
    obtain ⟨entries, hentries, rfl⟩ : ∃ entries ∈ earlier ++ [last],
        Toml.table (finishEntries entries) = item := by
      rcases List.mem_append.1 hitem with hitem | hitem
      · obtain ⟨entries, hentries, rfl⟩ := List.mem_map.1 hitem
        exact ⟨entries, List.mem_append_left _ hentries, rfl⟩
      · exact ⟨last, by simp, (List.mem_singleton.1 hitem).symm⟩
    exact distinct_finishEntries (hnames entries hentries) (ih entries hentries)

theorem Draft.Distinct.finish {draft : Draft} (h : draft.Distinct) :
    (Toml.table (finishEntries draft)).Distinct :=
  distinct_finishEntries h.names fun entry hentry => (h.slots entry hentry).finish

/-! ### Reading -/

/-- Something holds of what a reader gives, if it gives anything. -/
def Yields {ε α : Type} (good : α → Prop) (x : Except ε α) : Prop := ∀ a, x = .ok a → good a

namespace Yields
variable {ε α β : Type} {good : α → Prop} {good' : β → Prop} {x : Except ε α}

theorem ok {a : α} (h : good a) : Yields good (.ok a : Except ε α) := by
  rintro _ ⟨⟩
  exact h

theorem error (e : ε) : Yields good (.error e) := nofun

theorem any (x : Except ε α) : Yields (fun _ => True) x := fun _ _ => trivial

theorem bind {f : α → Except ε β} (hx : Yields good x) (hf : ∀ a, good a → Yields good' (f a)) :
    Yields good' (x >>= f) := by
  cases x with
  | error e => exact error e
  | ok a => exact hf a (hx a rfl)

theorem map {f : α → β} (h : ∀ a, good' (f a)) (x : Except ε α) : Yields good' (x.map f) := by
  cases x with
  | error e => exact error e
  | ok a => exact ok (h a)

end Yields

theorem yields_number (cs : List Char) : Yields (fun r => r.1.Distinct) (number cs) := by
  rw [number]
  split
  · exact .ok (.integer _)
  · dsimp only
    split
    · split
      · exact .ok (.double _)
      · exact .error _
    · split
      · split
        · exact .ok (.integer _)
        · exact .error _
      · split
        · exact .ok (.double _)
        · exact .error _

theorem yields_scalar (cs : List Char) : Yields (fun r => r.1.Distinct) (scalar cs) := by
  unfold scalar
  split
  · exact .map (fun _ => .string _) _
  · exact .map (fun _ => .string _) _
  · exact .map (fun _ => .string _) _
  · exact .map (fun _ => .string _) _
  · exact .ok (.bool true)
  · exact .ok (.bool false)
  · split
    · exact .map (fun _ => .moment _) _
    · exact yields_number _

/-- Inline tables refuse a name that is taken, like all others. -/
theorem yields_values (fuel : Nat) :
    (∀ cs, Yields (fun r => r.1.Distinct) (value fuel cs)) ∧
    (∀ cs, Yields (fun r => ∀ item ∈ r.1, item.Distinct) (values fuel cs)) ∧
    (∀ draft cs, Draft.Distinct draft → Yields (fun r => r.1.Distinct) (entries fuel draft cs)) ∧
    ∀ cs, Yields (fun r => r.2.1.Distinct) (pair fuel cs) := by
  induction fuel with
  | zero =>
    exact ⟨fun cs => .error _, fun cs => .error _, fun draft cs _ => .error _, fun cs => .error _⟩
  | succ fuel ih =>
    obtain ⟨ihvalue, ihvalues, ihentries, ihpair⟩ := ih
    refine ⟨fun cs => ?_, fun cs => ?_, fun draft cs hdraft => ?_, fun cs => ?_⟩
    · unfold value
      split
      · exact .error _
      · next hfuel =>
        cases hfuel
        refine .bind (.any _) fun rest _ => ?_
        split
        · exact .ok (.array nofun)
        · exact (ihvalues _).bind fun r hr => .ok (.array hr)
      · next hfuel =>
        cases hfuel
        split
        · exact .ok (.table List.nodup_nil nofun)
        · exact ihentries _ _ .nil
      · exact yields_scalar _
    · rw [values]
      refine (ihvalue cs).bind fun r hr => ?_
      refine .bind (.any _) fun rest _ => ?_
      split
      · exact .ok (List.forall_mem_singleton.2 hr)
      · refine .bind (.any _) fun rest _ => ?_
        split
        · exact .ok (List.forall_mem_singleton.2 hr)
        · exact (ihvalues _).bind fun r' hr' => .ok (List.forall_mem_cons.2 ⟨hr, hr'⟩)
      · exact .error _
    · rw [entries]
      refine (ihpair cs).bind fun r hr => ?_
      dsimp only
      split
      · exact .error _
      · next draft' hassign =>
        have hdraft' := hdraft.assign hr hassign
        split
        · exact .ok hdraft'.finish
        · exact ihentries _ _ hdraft'
        · exact .error _
    · rw [pair]
      refine .bind (.any _) fun r _ => ?_
      dsimp only
      split
      · exact (ihvalue _).bind fun r hr => .ok hr
      · exact .error _

theorem yields_opened (p : Progress) (path : List String) {draft? : Option Draft}
    (h : ∀ draft, draft? = some draft → draft.Distinct) :
    Yields (fun p => p.draft.Distinct) (p.opened path draft?) := by
  cases draft? with
  | none => exact .error _
  | some draft => exact .ok (h draft rfl)

theorem yields_statement {p : Progress} (hp : p.draft.Distinct) (cs : List Char) :
    Yields (fun r => r.1.draft.Distinct) (statement p cs) := by
  unfold statement
  split
  · refine .bind (.any _) fun r _ => ?_
    exact (yields_opened p _ fun draft => hp.append).bind fun q hq => .ok hq
  · refine .bind (.any _) fun r _ => ?_
    exact (yields_opened p _ fun draft => hp.declare).bind fun q hq => .ok hq
  · split
    · refine ((yields_values _).2.2.2 _).bind fun r hr => ?_
      dsimp only
      split
      · next draft hassign =>
        exact .ok (hp.within (fun _ _ h => h.assign hr) hassign)
      · exact .error _
    · split
      · exact .ok hp
      · exact .error _
  · exact .ok hp

theorem yields_statements (fuel : Nat) {p : Progress} (hp : p.draft.Distinct) (cs : List Char) :
    Yields (fun p => p.draft.Distinct) (statements fuel p cs) := by
  induction fuel generalizing p cs with
  | zero => exact .ok hp
  | succ fuel ih =>
    rw [statements]
    split
    · exact .ok hp
    · exact ih hp _
    · split
      · exact .error _
      · next q rest hstatement =>
        have hq := yields_statement hp _ _ hstatement
        split
        · exact .error _
        · exact .ok hq
        · exact ih hq _
        · exact .error _

/-- **No table has a name twice** in a document that can be read, be it the outermost one, one under
a header or dotted keys, or an inline one deep in an array. -/
theorem distinct_of_read {text : List Char} {entries : Fields Toml} (h : read text = .ok entries) :
    (Toml.table entries).Distinct := by
  simp only [read] at h
  split at h
  · next p hp =>
    cases h
    exact (yields_statements _ .nil _ p hp).finish
  · cases h

end PageScript.Toml
