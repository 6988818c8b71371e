import Mathlib.Data.List.Nodup
import Mathlib.Data.List.Perm.Subperm
import PageScript.Fields

/-!
Named entries: which of them can be looked up, and what writing and removing does to them. If no
name comes twice, the entries are exactly what can be looked up.
-/
namespace PageScript.Fields
variable {α : Type} {fields : Fields α} {name : String} {value : α}

/-! ### Lookups -/

theorem mem_of_get? (h : fields.get? name = some value) : (name, value) ∈ fields := by
  induction fields with
  | nil => cases h
  | cons entry rest ih =>
    simp only [get?] at h
    split at h
    · next hkey =>
      cases h
      subst hkey
      exact List.mem_cons_self
    · exact List.mem_cons_of_mem _ (ih h)

theorem mem_keys_of_mem (h : (name, value) ∈ fields) : name ∈ fields.keys :=
  List.mem_map_of_mem h

theorem exists_get?_of_mem_keys (h : name ∈ fields.keys) :
    ∃ value, fields.get? name = some value := by
  induction fields with
  | nil => cases h
  | cons entry rest ih =>
    obtain ⟨key, value⟩ := entry
    by_cases hkey : key = name
    · exact ⟨value, by rw [get?, if_pos hkey]⟩
    · rw [get?, if_neg hkey]
      exact ih ((List.mem_cons.1 h).resolve_left (Ne.symm hkey))

theorem get?_eq_none_iff : fields.get? name = none ↔ name ∉ fields.keys := by
  constructor
  · intro h hmem
    obtain ⟨value, hvalue⟩ := exists_get?_of_mem_keys hmem
    rw [h] at hvalue
    cases hvalue
  · intro h
    cases hget : fields.get? name with
    | none => rfl
    | some value => exact absurd (mem_keys_of_mem (mem_of_get? hget)) h

theorem get?_eq_some_iff (h : fields.keys.Nodup) :
    fields.get? name = some value ↔ (name, value) ∈ fields := by
  refine ⟨mem_of_get?, fun hmem => ?_⟩
  obtain ⟨found, hfound⟩ := exists_get?_of_mem_keys (mem_keys_of_mem hmem)
  have hsame := List.inj_on_of_nodup_map h (mem_of_get? hfound) hmem rfl
  cases hsame
  exact hfound

/-! ### Changes -/

theorem get?_remove (fields : Fields α) (name needle : String) :
    (fields.remove name).get? needle = if needle = name then none else fields.get? needle := by
  induction fields with
  | nil => simp [remove, get?]
  | cons entry rest ih =>
    obtain ⟨key, value⟩ := entry
    simp only [remove] at ih ⊢
    by_cases hkey : key = name
    · subst hkey
      rw [List.filter_cons_of_neg (by simp), ih, get?]
      by_cases hneedle : needle = key
      · simp [hneedle]
      · simp [hneedle, Ne.symm hneedle]
    · rw [List.filter_cons_of_pos (by simpa using hkey), get?, ih, get?]
      by_cases hneedle : key = needle
      · subst hneedle
        simp [hkey]
      · simp [hneedle]

theorem mem_put {entry : String × α} (h : entry ∈ fields.put name value) :
    entry ∈ fields ∨ entry.2 = value := by
  induction fields with
  | nil =>
    obtain rfl := List.mem_singleton.1 h
    exact .inr rfl
  | cons first rest ih =>
    simp only [put] at h
    split at h
    · rcases List.mem_cons.1 h with rfl | h
      · exact .inr rfl
      · exact .inl (List.mem_cons_of_mem _ h)
    · rcases List.mem_cons.1 h with rfl | h
      · exact .inl List.mem_cons_self
      · exact (ih h).imp_left (List.mem_cons_of_mem _)

/-- What holds of no entries and is kept whenever one of a list is written holds once all of it is
written. -/
theorem ofList_induction {P : Fields α → Prop} {entries : List (String × α)} (hnil : P [])
    (hput : ∀ fields, ∀ entry ∈ entries, P fields → P (put fields entry.1 entry.2)) :
    P (ofList entries) := by
  have hfold (fields : Fields α) (h : P fields) :
      P (entries.foldl (fun fields entry => put fields entry.1 entry.2) fields) := by
    clear hnil
    induction entries generalizing fields with
    | nil => exact h
    | cons first rest ih =>
      rw [List.foldl_cons]
      refine ih (fun fields entry hentry => hput fields entry (List.mem_cons_of_mem _ hentry)) _ ?_
      exact hput fields first List.mem_cons_self h
  exact hfold [] hnil

theorem mem_ofList {entries : List (String × α)} {entry : String × α} (h : entry ∈ ofList entries) :
    ∃ e ∈ entries, e.2 = entry.2 := by
  revert entry
  apply ofList_induction
    (P := fun fields => ∀ {entry}, entry ∈ fields → ∃ e ∈ entries, e.2 = entry.2)
  · intro entry h
    cases h
  · intro fields e he h entry hentry
    rcases mem_put hentry with hentry | heq
    · exact h hentry
    · exact ⟨e, he, heq.symm⟩

theorem nodup_keys_put {fields : Fields α} (h : fields.keys.Nodup) (name : String) (value : α) :
    (fields.put name value).keys.Nodup := by
  rw [keys_put]
  split
  · exact h
  · next hnew =>
    have hname : name ∉ fields.keys := by
      rw [← get?_eq_none_iff]
      simpa [contains] using hnew
    exact List.nodup_append.2 ⟨h, List.nodup_singleton name, fun key hkey other hother heq =>
      hname (List.mem_singleton.1 hother ▸ heq ▸ hkey)⟩

/-- Entries that were written one after another have different names. -/
theorem nodup_keys_ofList (entries : List (String × α)) : (ofList entries).keys.Nodup :=
  ofList_induction (P := fun fields => (keys fields).Nodup) List.nodup_nil
    fun _ entry _ h => nodup_keys_put h entry.1 entry.2

theorem put_of_not_mem {fields : Fields α} {name : String} (h : name ∉ fields.keys) (value : α) :
    put fields name value = fields ++ [(name, value)] := by
  induction fields with
  | nil => rfl
  | cons entry rest ih =>
    simp only [keys, List.map_cons, List.mem_cons, not_or] at h
    rw [put, if_neg (Ne.symm h.1), ih h.2, List.cons_append]

/-- Entries of different names, written one after another, stand as they are. -/
theorem ofList_eq_self {entries : List (String × α)} (h : (keys entries).Nodup) :
    ofList entries = entries := by
  have hfold : ∀ (entries done : List (String × α)), (keys (done ++ entries)).Nodup →
      entries.foldl (fun fields entry => put fields entry.1 entry.2) done = done ++ entries := by
    intro entries
    induction entries with
    | nil => simp
    | cons entry rest ih =>
      intro done hdistinct
      have hnot : entry.1 ∉ keys done := by
        intro hmem
        have hapart := hdistinct
        rw [keys, List.map_append, List.map_cons, List.nodup_append] at hapart
        exact hapart.2.2 _ hmem _ List.mem_cons_self rfl
      rw [List.foldl_cons, put_of_not_mem hnot, ih]
      · simp
      · simpa using hdistinct
  exact hfold entries [] h

/-- Entries of different names, written over others, come before them. -/
theorem get?_foldl_put {entries : List (String × α)} (h : (keys entries).Nodup) (fields : Fields α)
    (name : String) :
    (entries.foldl (fun fields entry => put fields entry.1 entry.2) fields).get? name =
      (get? entries name).or (fields.get? name) := by
  induction entries generalizing fields with
  | nil => rfl
  | cons entry rest ih =>
    obtain ⟨key, value⟩ := entry
    have hnames : key ∉ keys rest ∧ (keys rest).Nodup := List.nodup_cons.1 h
    rw [List.foldl_cons, ih hnames.2, get?_put, get?]
    by_cases hname : key = name
    · subst hname
      rw [get?_eq_none_iff.2 hnames.1, if_pos rfl, if_pos rfl]
      rfl
    · rw [if_neg (Ne.symm hname), if_neg hname]

end PageScript.Fields
