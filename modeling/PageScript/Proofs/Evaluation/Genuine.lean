import PageScript.Proofs.Evaluation.Policies
import PageScript.Proofs.Evaluation.Sessions
import PageScript.Proofs.Value.Equality

/-!
The values that a session can come by. Its functions are those that it made, each under its own
number, so two functions with one number are the same function; and no object has a name twice.
-/
namespace PageScript

/-- The policy that a function is the one that was made under its number. -/
def Policy.made (made : List Closure) : Policy := ⟨fun f => made[f.id]? = some f, fun _ => True⟩

/-- A value that there can be once the given functions have been made, in this order. -/
structure Value.Genuine (made : List Closure) (v : Value) : Prop where
  names : v.namesApart
  functions : (Policy.made made).Allows v

/-- A state in which the given functions have been made, and no others are bound. -/
structure Machine.Made (made : List Closure) (m : Machine) : Prop where
  count : made.length = m.functions
  genuine : ∀ id, ∀ entry ∈ m.scopes.bindings id, entry.2.Genuine made

namespace Value.Genuine
variable {made made' : List Closure} {a b v : Value}

theorem mono (h : v.Genuine made) (hmade : made <+: made') : v.Genuine made' := by
  obtain ⟨rest, rfl⟩ := hmade
  refine ⟨h.names, fun f hf => ?_⟩
  have hfound : made[f.id]? = some f := h.functions f hf
  exact (List.getElem?_append_left (List.getElem?_eq_some_iff.1 hfound).1).trans hfound

/-- Functions of genuine values are told apart by their numbers. -/
theorem eq_of_id_eq (ha : a.Genuine made) (hb : b.Genuine made) {f g : Closure}
    (hf : f ∈ a.functions) (hg : g ∈ b.functions) (h : f.id = g.id) : f = g := by
  have hfound : made[f.id]? = some f := ha.functions f hf
  have hfound' : made[g.id]? = some g := hb.functions g hg
  rw [h, hfound'] at hfound
  exact (Option.some.inj hfound).symm

theorem of_isPlain (h : v.isPlain) : v.Genuine made := by
  cases v with
  | array | object | closure => cases h
  | null | bool | number | string | builtin => exact ⟨rfl, Policy.allows_of_plain rfl⟩

theorem array_iff {items : List Value} :
    (array items).Genuine made ↔ ∀ v ∈ items, v.Genuine made := by
  constructor
  · intro h v hv
    exact ⟨namesApart_array.1 h.names v hv, Policy.allows_array.1 h.functions v hv⟩
  · intro h
    exact ⟨namesApart_array.2 fun v hv => (h v hv).names,
      Policy.allows_array.2 fun v hv => (h v hv).functions⟩

theorem object_iff {entries : Fields Value} :
    (object entries).Genuine made ↔
      entries.keys.Nodup ∧ ∀ entry ∈ entries, entry.2.Genuine made := by
  constructor
  · intro h
    obtain ⟨hnames, hentries⟩ := namesApart_object.1 h.names
    exact ⟨hnames, fun entry hentry =>
      ⟨hentries entry hentry, Policy.allows_object.1 h.functions entry hentry⟩⟩
  · rintro ⟨hnames, h⟩
    exact ⟨namesApart_object.2 ⟨hnames, fun entry hentry => (h entry hentry).names⟩,
      Policy.allows_object.2 fun entry hentry => (h entry hentry).functions⟩

end Value.Genuine

namespace Machine.Made
variable {made : List Closure} {m : Machine}

theorem define (h : m.Made made) (id : ScopeId) (name : String) {v : Value} (hv : v.Genuine made) :
    Made made { m with scopes := m.scopes.define id name v } := by
  refine ⟨h.count, fun scope entry hentry => ?_⟩
  rcases Scopes.mem_bindings_define hentry with hentry | heq
  · exact h.genuine scope entry hentry
  · rw [heq]
    exact hv

/-- A session begins without functions if none is among the values that it begins with. -/
theorem start {env : List (String × Value)} (h : ∀ entry ∈ env, entry.2.Genuine []) :
    (Machine.start env).Made [] := by
  apply Machine.start_induction
  · refine ⟨rfl, fun id entry hentry => ?_⟩
    cases id <;> cases hentry
  · intro m hm entry hentry
    apply hm.define
    rcases hentry with ⟨b, hb⟩ | hentry
    · rw [hb]
      exact .of_isPlain rfl
    · exact h entry hentry

end Machine.Made

/-- The stages of a session by the functions that it has made. -/
def Closure.stages : Stages (List Closure) where
  le := List.IsPrefix
  state made m := m.Made made
  value made v := v.Genuine made
  scope _ _ := True
  refl := List.prefix_refl
  trans := List.IsPrefix.trans
  value_mono hmade h := h.mono hmade
  scope_mono _ _ := trivial
  plain _ _ := Value.Genuine.of_isPlain
  array := Value.Genuine.array_iff
  object h := by
    refine Value.Genuine.object_iff.2 ⟨Fields.nodup_keys_ofList _, fun entry hentry => ?_⟩
    obtain ⟨e, he, heq⟩ := Fields.mem_ofList hentry
    exact heq ▸ h e he
  closure _ := trivial
  quiet h hscopes hfunctions :=
    ⟨h.count.trans hfunctions.symm, fun id entry hentry => h.genuine id entry (hscopes ▸ hentry)⟩
  lookup h hvalue := by
    obtain ⟨scope, hget⟩ := Scopes.exists_get?_of_lookup? hvalue
    exact h.genuine scope _ (Fields.mem_of_get? hget)
  define id name _ h hv := h.define id name hv
  child {made m _} h _ := by
    refine ⟨made, List.prefix_refl made, ⟨h.count, fun id entry hentry => ?_⟩, trivial⟩
    rw [Scopes.bindings_child] at hentry
    exact h.genuine id entry hentry
  make {made m} name params body {scope} h _ := by
    let f : Closure := ⟨m.functions, name, params, body, scope⟩
    have hprefix : made <+: made ++ [f] := List.prefix_append made [f]
    have hfound : (made ++ [f])[f.id]? = some f := by
      rw [show f.id = made.length from h.count.symm, List.getElem?_concat_length]
    refine ⟨made ++ [f], hprefix, ⟨?_, fun id entry hentry => ?_⟩, rfl, ?_⟩
    · rw [List.length_append, h.count]
      rfl
    · exact (h.genuine id entry hentry).mono hprefix
    · exact Policy.allows_closure.2 hfound

/-- **All values of a session are genuine.** Whatever programs are run, the functions bound in the
end and those in any of the results are among the ones that were made, each under its own number,
and no object has a name twice. -/
theorem Session.exists_genuine {env : List (String × Value)}
    (h : ∀ entry ∈ env, entry.2.Genuine []) (limits : Limits) (programs : List Program) :
    ∃ made, (Session.after limits programs (Machine.start env)).Made made ∧
      ∀ v m, .ok v m ∈ Session.results limits programs (Machine.start env) → v.Genuine made := by
  obtain ⟨made, -, hmade, hresults⟩ :=
    Session.advances (S := Closure.stages) (.start h) trivial limits programs
  exact ⟨made, hmade, hresults⟩

/-- Two expressions that are evaluated one after the other give values that are genuine
together. -/
theorem exists_genuine_operands {made : List Closure} {m m' m'' : Machine} (hm : m.Made made)
    {limits : Limits} {depth : Nat} {scope : ScopeId} {left right : Node} {a b : Value}
    (ha : evaluate limits depth scope left m = .ok a m')
    (hb : evaluate limits depth scope right m' = .ok b m'') :
    ∃ made', made <+: made' ∧ m''.Made made' ∧ a.Genuine made' ∧ b.Genuine made' := by
  have hadvances := (evaluate_execute_advances Closure.stages limits depth).1
  obtain ⟨made₁, hle₁, hm', hleft⟩ := hadvances made scope left trivial m hm
  rw [Eval.after_of_ok ha] at hm'
  obtain ⟨made₂, hle₂, hm'', hright⟩ := hadvances made₁ scope right trivial m' hm'
  rw [Eval.after_of_ok hb] at hm''
  exact ⟨made₂, hle₁.trans hle₂, hm'', (hleft a m' ha).mono hle₂, hright b m'' hb⟩

end PageScript
