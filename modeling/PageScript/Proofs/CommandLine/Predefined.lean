import PageScript.Proofs.CommandLine.Exits
import PageScript.Proofs.Evaluation.Reads
import PageScript.Proofs.Toml.Distinct

/-!
The names that are defined before a program runs. Three sources give them: definitions among the
arguments, the configuration and the builtins. A name that is in more than one of them has the
meaning that the first of them gives it, and of two definitions the later one holds.
-/
namespace PageScript

/-! ### Definitions -/

/-- A definition gives a name the text behind the first equals sign in it. -/
def Defines (definition name text : String) : Prop :=
  definition.toList = name.toList ++ '=' :: text.toList ∧ '=' ∉ name.toList

instance (definition name text : String) : Decidable (Defines definition name text) :=
  inferInstanceAs (Decidable (_ ∧ _))

theorem definition?_eq_some_iff {definition name text : String} :
    definition? definition = some (name, text) ↔ Defines definition name text := by
  constructor
  · intro h
    have hwhole := List.takeWhile_append_dropWhile (p := (· ≠ '=')) (l := definition.toList)
    have hbefore : '=' ∉ definition.toList.takeWhile (· ≠ '=') := fun hmem => by
      simpa using List.mem_takeWhile_imp hmem
    simp only [definition?, Argument.splitEquals] at h
    cases hrest : definition.toList.dropWhile (· ≠ '=') with
    | nil =>
      rw [hrest] at h
      cases h
    | cons c after =>
      have hnot := List.head_dropWhile_not (p := (· ≠ '=')) (l := definition.toList)
        (by rw [hrest]; exact List.cons_ne_nil c after)
      simp only [hrest, List.head_cons] at hnot
      obtain rfl : c = '=' := by simpa using hnot
      rw [hrest] at h
      cases h
      rw [Defines, String.toList_ofList, String.toList_ofList, ← hrest]
      exact ⟨hwhole.symm, hbefore⟩
  · rintro ⟨htext, hname⟩
    have hbefore : ∀ c ∈ name.toList, decide (c ≠ '=') := by
      intro c hc
      rw [decide_eq_true_eq]
      rintro rfl
      exact hname hc
    have hdrop : definition.toList.dropWhile (· ≠ '=') = '=' :: text.toList := by
      rw [htext, List.dropWhile_append_of_pos hbefore]
      simp
    have htake : definition.toList.takeWhile (· ≠ '=') = name.toList := by
      rw [htext, List.takeWhile_append_of_pos hbefore]
      simp
    simp only [definition?, Argument.splitEquals, hdrop, htake, String.ofList_toList]

theorem Defines.unique {definition name name' text text' : String}
    (h : Defines definition name text) (h' : Defines definition name' text') :
    name = name' ∧ text = text' := by
  rw [← definition?_eq_some_iff] at h h'
  rw [h] at h'
  simpa using h'

/-- None of the definitions is of this name. -/
def DefinesNowhere (definitions : List String) (name : String) : Prop :=
  ∀ definition ∈ definitions, ∀ text, ¬ Defines definition name text

/-- The last of the definitions that are of a name gives it this text. -/
def DefinesLast (definitions : List String) (name text : String) : Prop :=
  ∃ front definition rest, definitions = front ++ definition :: rest ∧
    Defines definition name text ∧ DefinesNowhere rest name

theorem definesLast_cons_iff {definition : String} {rest : List String} {name text : String} :
    DefinesLast (definition :: rest) name text ↔
      DefinesLast rest name text ∨ Defines definition name text ∧ DefinesNowhere rest name := by
  constructor
  · rintro ⟨front, last, after, hwhole, hlast, hafter⟩
    cases front with
    | nil =>
      obtain ⟨rfl, rfl⟩ := List.cons.inj hwhole
      exact .inr ⟨hlast, hafter⟩
    | cons first front =>
      exact .inl ⟨front, last, after, (List.cons.inj hwhole).2, hlast, hafter⟩
  · rintro (⟨front, last, after, rfl, hlast, hafter⟩ | ⟨hfirst, hrest⟩)
    · exact ⟨definition :: front, last, after, rfl, hlast, hafter⟩
    · exact ⟨[], definition, rest, rfl, hfirst, hrest⟩

theorem DefinesLast.not_nowhere {definitions : List String} {name text : String}
    (h : DefinesLast definitions name text) : ¬ DefinesNowhere definitions name := by
  obtain ⟨front, definition, rest, rfl, hdefinition, -⟩ := h
  exact fun hnowhere => hnowhere definition (by simp) text hdefinition

theorem definesNowhere_cons_iff {definition : String} {rest : List String} {name : String} :
    DefinesNowhere (definition :: rest) name ↔
      (∀ text, ¬ Defines definition name text) ∧ DefinesNowhere rest name :=
  List.forall_mem_cons

theorem definesNowhere_or_exists_last (definitions : List String) (name : String) :
    DefinesNowhere definitions name ∨ ∃ text, DefinesLast definitions name text := by
  induction definitions with
  | nil => exact .inl nofun
  | cons definition rest ih =>
    simp only [definesNowhere_cons_iff, definesLast_cons_iff]
    rcases ih with hnowhere | ⟨text, hlast⟩
    · by_cases hfirst : ∃ text, Defines definition name text
      · obtain ⟨text, hfirst⟩ := hfirst
        exact .inr ⟨text, .inr ⟨hfirst, hnowhere⟩⟩
      · exact .inl ⟨not_exists.1 hfirst, hnowhere⟩
    · exact .inr ⟨text, .inl hlast⟩

namespace RunRequest

/-- The last definition of a name holds; without one the name is what it was. -/
theorem get?_define_eq_some_iff {env env' : Fields Value} {definitions : List String}
    (h : define env definitions = .ok env') {name : String} {value : Value} :
    env'.get? name = some value ↔
      (∃ text, DefinesLast definitions name text ∧ .string text = value) ∨
        DefinesNowhere definitions name ∧ env.get? name = some value := by
  induction definitions generalizing env with
  | nil =>
    cases h
    simp [DefinesLast, DefinesNowhere]
  | cons definition rest ih =>
    cases hdefinition : definition? definition with
    | none => simp [define, hdefinition] at h
    | some entry =>
      obtain ⟨other, text⟩ := entry
      simp only [define, hdefinition] at h
      have hdefines := definition?_eq_some_iff.1 hdefinition
      have hiff (name text' : String) :
          Defines definition name text' ↔ other = name ∧ text = text' :=
        ⟨hdefines.unique, by rintro ⟨rfl, rfl⟩; exact hdefines⟩
      rw [ih h, Fields.get?_put]
      simp only [definesLast_cons_iff, definesNowhere_cons_iff, hiff]
      by_cases hname : other = name
      · subst hname
        constructor
        · rintro (⟨text', hlast, rfl⟩ | ⟨hnowhere, hvalue⟩)
          · exact .inl ⟨text', .inl hlast, rfl⟩
          · rw [if_pos rfl] at hvalue
            exact .inl ⟨text, .inr ⟨⟨rfl, rfl⟩, hnowhere⟩, Option.some.inj hvalue⟩
        · rintro (⟨text', hlast | ⟨⟨-, rfl⟩, hnowhere⟩, rfl⟩ | ⟨⟨hnot, -⟩, -⟩)
          · exact .inl ⟨text', hlast, rfl⟩
          · exact .inr ⟨hnowhere, if_pos rfl⟩
          · exact absurd ⟨rfl, rfl⟩ (hnot text)
      · simp [hname, Ne.symm hname]

/-- Definitions add no name twice. -/
theorem nodup_keys_define {env env' : Fields Value} {definitions : List String}
    (h : define env definitions = .ok env') (henv : env.keys.Nodup) : env'.keys.Nodup := by
  induction definitions generalizing env with
  | nil =>
    cases h
    exact henv
  | cons definition rest ih =>
    rw [define] at h
    split at h
    · exact ih h (Fields.nodup_keys_put henv _ _)
    · cases h

end RunRequest

/-! ### Data of a configuration -/

/-- What data of a configuration becomes. Truth values, numbers and texts stay what they are, a date
or a time is its text, and arrays and tables hold what their items become. -/
inductive Toml.Becomes : Toml → Value → Prop where
  | bool (b : Bool) : Becomes (.bool b) (.bool b)
  | integer (n : Int) : Becomes (.integer n) (.int n)
  | double (d : Double) : Becomes (.double d) (.number (.double d))
  | string (s : String) : Becomes (.string s) (.string s)
  | moment (m : Moment) : Becomes (.moment m) (.string m.text)
  | array {items : List Toml} {values : List Value} (h : List.Forall₂ Becomes items values) :
    Becomes (.array items) (.array values)
  | table {entries : List (String × Toml)} {fields : List (String × Value)}
    (hnames : Fields.keys entries = Fields.keys fields)
    (h : List.Forall₂ Becomes (entries.map (·.2)) (fields.map (·.2))) :
    Becomes (.table entries) (.object fields)

namespace Value

theorem ofTomlEntries_eq_map (entries : List (String × Toml)) :
    ofTomlEntries entries = entries.map fun entry => (entry.1, ofToml entry.2) := by
  induction entries with
  | nil => rfl
  | cons entry rest ih => rw [ofTomlEntries, ih, List.map_cons]

theorem keys_ofTomlEntries (entries : List (String × Toml)) :
    (ofTomlEntries entries).keys = Fields.keys entries := by
  simp [ofTomlEntries_eq_map, Fields.keys]

mutual

theorem becomes_ofToml : ∀ t : Toml, t.Becomes (ofToml t)
  | .bool b => .bool b
  | .integer n => .integer n
  | .double d => .double d
  | .string s => .string s
  | .moment m => .moment m
  | .array items => .array (becomes_ofTomlItems items)
  | .table entries => .table (keys_ofTomlEntries entries).symm (becomes_ofTomlEntries entries)

theorem becomes_ofTomlItems : ∀ items : List Toml,
    List.Forall₂ Toml.Becomes items (ofTomlItems items)
  | [] => .nil
  | item :: rest => .cons (becomes_ofToml item) (becomes_ofTomlItems rest)

theorem becomes_ofTomlEntries : ∀ entries : List (String × Toml),
    List.Forall₂ Toml.Becomes (entries.map (·.2)) ((ofTomlEntries entries).map (·.2))
  | [] => .nil
  | (_, item) :: rest => .cons (becomes_ofToml item) (becomes_ofTomlEntries rest)

end

mutual

theorem eq_ofToml : ∀ (t : Toml) {v : Value}, t.Becomes v → v = ofToml t
  | .bool _, _, .bool _ | .integer _, _, .integer _ | .double _, _, .double _
  | .string _, _, .string _ | .moment _, _, .moment _ => rfl
  | .array items, _, .array h => congrArg array (eq_ofTomlItems items h)
  | .table entries, _, .table hnames h => congrArg object (eq_ofTomlEntries entries hnames h)

theorem eq_ofTomlItems : ∀ (items : List Toml) {values : List Value},
    List.Forall₂ Toml.Becomes items values → values = ofTomlItems items
  | [], _, .nil => rfl
  | item :: rest, _, .cons h hrest =>
    congrArg₂ List.cons (eq_ofToml item h) (eq_ofTomlItems rest hrest)

theorem eq_ofTomlEntries : ∀ (entries : List (String × Toml)) {fields : List (String × Value)},
    Fields.keys entries = Fields.keys fields →
    List.Forall₂ Toml.Becomes (entries.map (·.2)) (fields.map (·.2)) →
    fields = ofTomlEntries entries
  | [], [], _, _ => rfl
  | (name, item) :: rest, (name', value) :: fields, hnames, .cons h hrest => by
    obtain ⟨rfl, htail⟩ : name = name' ∧ Fields.keys rest = Fields.keys fields :=
      List.cons.inj hnames
    exact congrArg₂ List.cons (congrArg (Prod.mk name) (eq_ofToml item h))
      (eq_ofTomlEntries rest htail hrest)

end

end Value

theorem Toml.becomes_iff {t : Toml} {v : Value} : t.Becomes v ↔ Value.ofToml t = v := by
  constructor
  · exact fun h => (Value.eq_ofToml t h).symm
  · rintro rfl
    exact Value.becomes_ofToml t

/-! ### Before the first statement -/

/-- Names bound one after another in a scope are written one after another. -/
theorem Scopes.bindings_foldl_define (entries : List (String × Value)) {s : Scopes}
    {scope : ScopeId} (hscope : scope < s.all.size) :
    (entries.foldl (fun s entry => s.define scope entry.1 entry.2) s).bindings scope =
      entries.foldl (fun fields entry => fields.put entry.1 entry.2) (s.bindings scope) := by
  induction entries generalizing s with
  | nil => rfl
  | cons entry rest ih =>
    rw [List.foldl_cons, List.foldl_cons, ih (by rwa [size_define]), bindings_define,
      if_pos ⟨rfl, hscope⟩]

/-- The outermost scope has none around it. -/
theorem Scopes.lookup?_globals (s : Scopes) (name : String) :
    s.lookup? Machine.globals name = (s.bindings Machine.globals).get? name := by
  rw [lookup?]
  cases (s.bindings Machine.globals).get? name with
  | some value => rfl
  | none =>
    cases s.parent? Machine.globals with
    | none => rfl
    | some outer => exact absurd outer.2 (Nat.not_lt_zero _)

theorem Builtin.get?_map_all (name : String) :
    Fields.get? (all.map fun b => (b.name, Value.builtin b)) name =
      (ofName? name).map Value.builtin := by
  have hget (list : List Builtin) : Fields.get? (list.map fun b => (b.name, Value.builtin b)) name =
      (list.find? (·.name = name)).map Value.builtin := by
    induction list with
    | nil => rfl
    | cons b rest ih =>
      rw [List.map_cons, Fields.get?, List.find?_cons, ih]
      by_cases hname : b.name = name <;> simp [hname]
  exact hget all

/-- Before the first statement a name means what is given for it, or else the builtin of that
name. -/
theorem Machine.lookup?_start {env : Fields Value} (henv : env.keys.Nodup) (name : String) :
    (start env).scopes.lookup? globals name =
      (env.get? name).or ((Builtin.ofName? name).map Value.builtin) := by
  have hbuiltins : (Fields.keys (Builtin.all.map fun b => (b.name, Value.builtin b))).Nodup := by
    decide
  have hinitial : Scopes.initial.bindings globals = [] := rfl
  rw [Scopes.lookup?_globals]
  simp only [start]
  rw [Scopes.bindings_foldl_define _ (by decide), List.foldl_append,
    Fields.get?_foldl_put henv, Fields.get?_foldl_put hbuiltins, Builtin.get?_map_all, hinitial,
    Fields.get?_nil, Option.or_none]

/-! ### The three sources of names -/

/-- An error of a program is reported in its source, with the code two. -/
theorem RunOptions.runSource_of_error {o : RunOptions} {source : String} {program : Program}
    (hsource : Program.ofSource source = .ok program) {e : RuntimeError} {m : Machine}
    (hrun : o.evaluate program = .error (.error e) m) :
    (o.runSource source).exit = .code 2 ∧
      ∃ shown, (o.runSource source).errors =
        shown ++ ((e.report source).diagram o.input.text ++ "\n") := by
  have houtcome : o.outcome source (program.run { callDepth := o.callDepth } (.start o.env)) =
      ⟨.code 2, m.output, (e.report source).diagram o.input.text ++ "\n"⟩ := by
    rw [RunOptions.evaluate] at hrun
    rw [hrun]
    rfl
  simp only [runSource, hsource, houtcome]
  split
  · exact ⟨rfl, program.outline, rfl⟩
  · exact ⟨rfl, "", (String.empty_append).symm⟩

namespace RunRequest

/-- The table `env` of a configuration has this data under a name. -/
def ConfigGives (config : Fields Toml) (name : String) (data : Toml) : Prop :=
  ∃ entries, ("env", .table entries) ∈ config ∧ (name, data) ∈ entries

/-- What a name is predefined as under a request and a configuration: the text that the last
definition of it gives, or else what its data in the configuration becomes, or else the builtin of
that name. -/
inductive Predefines (r : RunRequest) (config : Fields Toml) (name : String) : Value → Prop where
  | definition {text : String} (h : DefinesLast r.definitions name text) :
    Predefines r config name (.string text)
  | config {data : Toml} {value : Value} (hnowhere : DefinesNowhere r.definitions name)
    (h : ConfigGives config name data) (hvalue : data.Becomes value) :
    Predefines r config name value
  | builtin {b : Builtin} (hnowhere : DefinesNowhere r.definitions name)
    (hnone : ∀ data, ¬ ConfigGives config name data) (hname : b.name = name) :
    Predefines r config name (.builtin b)

variable {r : RunRequest} {config : Fields Toml} {name : String} {value : Value}

theorem distinct_of_readConfig {found : Found} (h : readConfig found = .ok config) :
    (Toml.table config).Distinct := by
  unfold readConfig at h
  split at h
  · split at h
    · cases h
    · split at h
      · cases h
      · next hread =>
        cases h
        exact Toml.distinct_of_read hread
  · cases h
    exact .table List.nodup_nil nofun

theorem configGives_iff (hconfig : (Toml.table config).Distinct) {data : Toml} :
    ConfigGives config name data ↔
      ∃ entries, config.get? "env" = some (.table entries) ∧ (name, data) ∈ entries := by
  cases hconfig with
  | table hnames h => simp only [ConfigGives, Fields.get?_eq_some_iff hnames]

/-- Names of the configuration come from one table, which has no name twice. -/
theorem exists_configEnv_eq (hconfig : (Toml.table config).Distinct) :
    ∃ entries, configEnv config = Value.ofTomlEntries entries ∧ (Fields.keys entries).Nodup ∧
      ∀ name data, ConfigGives config name data ↔ (name, data) ∈ entries := by
  simp only [configGives_iff hconfig]
  unfold configEnv
  split
  · next entries hget =>
    refine ⟨entries, rfl, ?_, fun name data => by simp [hget]⟩
    cases hconfig with
    | table hnames h =>
      cases h _ (Fields.mem_of_get? hget) with
      | table hnames h => exact hnames
  · next hget => exact ⟨[], rfl, List.nodup_nil, fun name data => by simpa using fun entries h =>
      (hget entries h).elim⟩

theorem nodup_keys_configEnv (hconfig : (Toml.table config).Distinct) :
    (configEnv config).keys.Nodup := by
  obtain ⟨entries, henv, hnames, -⟩ := exists_configEnv_eq hconfig
  rwa [henv, Value.keys_ofTomlEntries]

theorem get?_configEnv_eq_some_iff (hconfig : (Toml.table config).Distinct) :
    (configEnv config).get? name = some value ↔
      ∃ data, ConfigGives config name data ∧ data.Becomes value := by
  rw [Fields.get?_eq_some_iff (nodup_keys_configEnv hconfig)]
  obtain ⟨entries, henv, -, hgives⟩ := exists_configEnv_eq hconfig
  simp [henv, hgives, Value.ofTomlEntries_eq_map, Toml.becomes_iff]

/-- The names given to a program, over the builtins, are those that are predefined. -/
theorem or_eq_some_iff_predefines (hconfig : (Toml.table config).Distinct) {env : Fields Value}
    (henv : define (configEnv config) r.definitions = .ok env) :
    (env.get? name).or ((Builtin.ofName? name).map Value.builtin) = some value ↔
      r.Predefines config name value := by
  have hget {value : Value} : env.get? name = some value ↔
      (∃ text, DefinesLast r.definitions name text ∧ .string text = value) ∨
        DefinesNowhere r.definitions name ∧
          ∃ data, ConfigGives config name data ∧ data.Becomes value := by
    rw [get?_define_eq_some_iff henv, get?_configEnv_eq_some_iff hconfig]
  rw [Option.or_eq_some_iff, hget]
  constructor
  · rintro ((⟨text, hlast, rfl⟩ | ⟨hnowhere, data, hgives, hvalue⟩) | ⟨hnone, hbuiltin⟩)
    · exact .definition hlast
    · exact .config hnowhere hgives hvalue
    · obtain ⟨b, hname, rfl⟩ := Option.map_eq_some_iff.1 hbuiltin
      have hnot (found : Value) : env.get? name ≠ some found := by simp [hnone]
      simp only [Ne, hget, not_or, not_exists, not_and] at hnot
      have hnowhere : DefinesNowhere r.definitions name :=
        (definesNowhere_or_exists_last r.definitions name).resolve_right
          fun ⟨text, hlast⟩ => (hnot _).1 text hlast rfl
      refine .builtin hnowhere (fun data hgives => ?_) (Builtin.name_of_ofName? hname)
      exact (hnot _).2 hnowhere data hgives (Value.becomes_ofToml data)
  · intro h
    cases h with
    | definition hlast => exact .inl (.inl ⟨_, hlast, rfl⟩)
    | config hnowhere hgives hvalue => exact .inl (.inr ⟨hnowhere, _, hgives, hvalue⟩)
    | @builtin b hnowhere hnone hname =>
      refine .inr ⟨?_, by rw [← hname, Builtin.ofName?_name]; rfl⟩
      rw [Option.eq_none_iff_forall_ne_some]
      intro found hfound
      rcases hget.1 hfound with ⟨text, hlast, -⟩ | ⟨-, data, hgives, -⟩
      · exact hlast.not_nowhere hnowhere
      · exact hnone data hgives

/-- What is no table in a configuration is as good as nothing. -/
theorem resolve_remove {part : String}
    (hnone : ∀ entries, config.get? part ≠ some (.table entries)) (r : RunRequest) :
    r.resolve (config.remove part) = r.resolve config := by
  have henv : configEnv (config.remove part) = configEnv config := by
    unfold configEnv
    rw [Fields.get?_remove]
    split_ifs with henv
    · subst henv
      cases hget : config.get? "env" with
      | none => rfl
      | some data =>
        cases data with
        | table entries => exact absurd hget (hnone entries)
        | _ => rfl
    · rfl
  have hdepth : configDepth? (config.remove part) = configDepth? config := by
    unfold configDepth?
    rw [Fields.get?_remove]
    split_ifs with hrun
    · subst hrun
      cases hget : config.get? "run" with
      | none => rfl
      | some data =>
        cases data with
        | table entries => exact absurd hget (hnone entries)
        | _ => rfl
    · rfl
  simp only [resolve, henv, hdepth]

theorem exists_resolve (h : ∀ definition ∈ r.definitions, '=' ∈ definition.toList)
    (config : Fields Toml) : ∃ o, r.resolve config = .ok o := by
  rcases define_cases (configEnv config) r.definitions with
    ⟨env, henv, -⟩ | ⟨definition, hmem, -, hnone⟩
  · simp only [resolve, henv]
    exact ⟨_, rfl⟩
  · exact absurd (h definition hmem) hnone

theorem define_of_resolve {o : RunOptions} (h : r.resolve config = .ok o) :
    define (configEnv config) r.definitions = .ok o.env := by
  rw [resolve] at h
  cases henv : define (configEnv config) r.definitions with
  | error e =>
    rw [henv] at h
    cases h
  | ok env =>
    rw [henv] at h
    cases h
    rfl

/-- A run under the options of a request reads what is predefined, and ends where nothing is. -/
theorem read_of_resolve (hconfig : (Toml.table config).Distinct) {o : RunOptions}
    (ho : r.resolve config = .ok o) {source : String} {program : Program}
    (hsource : Program.ofSource source = .ok program) {depth : Nat} {scope : ScopeId} {node : Node}
    {m : Machine} (hreads : program.ReadsUnbound { callDepth := o.callDepth } (.start o.env) depth
      scope node name m) :
    (∀ value, evaluate { callDepth := o.callDepth } (depth + 1) scope node m = .ok value m ↔
      r.Predefines config name value) ∧
    ((∀ value, ¬ r.Predefines config name value) →
      o.evaluate program = .error (.error ⟨.undefined name, node.line⟩) m) := by
  have henv := define_of_resolve ho
  have hnames : o.env.keys.Nodup := nodup_keys_define henv (nodup_keys_configEnv hconfig)
  have hstart (value : Value) :
      (Machine.start o.env).scopes.lookup? Machine.globals name = some value ↔
        r.Predefines config name value := by
    rw [Machine.lookup?_start hnames, or_eq_some_iff_predefines hconfig henv]
  obtain ⟨hvalue, hfails⟩ := hreads.read hsource (Machine.globals_lt_size_start o.env)
  refine ⟨fun value => (hvalue value).trans (hstart value), fun hnone => hfails ?_⟩
  rw [Option.eq_none_iff_forall_ne_some]
  exact fun value hfound => hnone value ((hstart value).1 hfound)

/-- **Names are predefined by precedence.** Let a configuration be found, or none, and let each
definition of a request have an equals sign. Then the request has options. Where a program that is
run under them comes to a name outside its functions without having bound it, it reads the text of
the last definition of the name; without one, what the data of that name in the table `env` of the
configuration becomes; and without that, the builtin of the name. If there is none of them, the run
ends there with the code two and the error that the name is undefined. What is no table in the
configuration, be it the names or the limits, is as good as nothing. -/
theorem predefined_by_precedence {found : Found} (hconfig : readConfig found = .ok config)
    (hdefinitions : ∀ definition ∈ r.definitions, '=' ∈ definition.toList) :
    ∃ o, r.options found = .ok o ∧
      (∀ source program depth scope node name m, Program.ofSource source = .ok program →
        let limits : Limits := { callDepth := o.callDepth }
        program.ReadsUnbound limits (.start o.env) depth scope node name m →
        (∀ value, evaluate limits (depth + 1) scope node m = .ok value m ↔
          r.Predefines config name value) ∧
        ((∀ value, ¬ r.Predefines config name value) →
          o.evaluate program = .error (.error ⟨.undefined name, node.line⟩) m ∧
          (o.runSource source).exit = .code 2 ∧
          let report : Report := ⟨"Undefined variable: " ++ name, node.line, 0, source⟩
          ∃ shown, (o.runSource source).errors = shown ++ (report.diagram o.input.text ++ "\n"))) ∧
      ∀ part, (∀ entries, config.get? part ≠ some (.table entries)) →
        r.resolve (config.remove part) = .ok o := by
  have hdistinct := distinct_of_readConfig hconfig
  obtain ⟨o, ho⟩ := exists_resolve hdefinitions config
  refine ⟨o, ?_, ?_, ?_⟩
  · simp only [options, hconfig]
    exact ho
  · intro source program depth scope node name m hsource limits hreads
    obtain ⟨hvalue, hfails⟩ := read_of_resolve hdistinct ho hsource hreads
    have hreport : (⟨.undefined name, node.line⟩ : RuntimeError).report source =
        ⟨"Undefined variable: " ++ name, node.line, 0, source⟩ := rfl
    refine ⟨hvalue, fun hnone => ⟨hfails hnone, ?_⟩⟩
    have hends := RunOptions.runSource_of_error hsource (hfails hnone)
    rw [hreport] at hends
    exact hends
  · intro part hnone
    rw [resolve_remove hnone, ho]

/-- A name that is defined twice and in the configuration, the name of a builtin that the
configuration takes for a date in a table in an array, another builtin, and a name that is none of
these. -/
theorem predefined_by_precedence_array :
    let text := "[env]\nx = true\nlen = [\x7bat = 2024-05-01\x7d]\n".toList
    let source := "let y = [x, len, str, z]"
    let found : Found := .file (Text.utf8 text)
    let config : Fields Toml := [("env", .table [("x", .bool true),
      ("len", .array [.table [("at", .moment (.date ⟨2024, 5, 1⟩))]])])]
    let r : RunRequest := ⟨"a.ng", ["x=a", "x=b=c"], none, none, false⟩
    let read (name : String) : Node := .identifier name 1
    let program : Program :=
      ⟨[.binding "y" (.array [read "x", read "len", read "str", read "z"] 1) 1]⟩
    readConfig found = .ok config ∧ (∀ definition ∈ r.definitions, '=' ∈ definition.toList) ∧
      Program.ofSource source = .ok program ∧ ∃ o, r.options found = .ok o ∧
        let value (name : String) :=
          evaluate { callDepth := o.callDepth } 998 Machine.globals (read name) (.start o.env)
        value "x" = .ok (.string "b=c") (.start o.env) ∧
        value "len" = .ok (.array [.object [("at", .string "2024-05-01")]]) (.start o.env) ∧
        value "str" = .ok (.builtin .str) (.start o.env) ∧
        o.evaluate program = .error (.error ⟨.undefined "z", 1⟩) (.start o.env) := by
  intro text source found config r read program
  have hconfig : readConfig found = .ok config := by
    have htable : (Toml.read text).toOption = some config := by decide +kernel
    cases hread : Toml.read text with
    | error e =>
      rw [hread] at htable
      cases htable
    | ok table =>
      rw [hread] at htable
      cases htable
      simp only [found, readConfig, Text.ofUtf8_eq_ok_iff.2 rfl, hread]
  have hdefinitions : ∀ definition ∈ r.definitions, '=' ∈ definition.toList := by decide
  have hsource : Program.ofSource source = .ok program := by
    clear hconfig
    revert program source
    with_unfolding_all rfl
  have hnowhere (name : String) (hname : name ≠ "x") : DefinesNowhere r.definitions name := by
    intro definition hmem text h
    have hdefines : Defines "x=a" "x" "a" ∧ Defines "x=b=c" "x" "b=c" := by decide
    rcases List.mem_pair.1 hmem with rfl | rfl
    · exact hname (h.unique hdefines.1).1
    · exact hname (h.unique hdefines.2).1
  have hx : r.Predefines config "x" (.string "b=c") :=
    .definition ⟨["x=a"], "x=b=c", [], rfl, by decide, List.forall_mem_nil _⟩
  have hlen : r.Predefines config "len" (.array [.object [("at", .string "2024-05-01")]]) := by
    have hdate : (Moment.date ⟨2024, 5, 1⟩).text = "2024-05-01" := by decide +kernel
    refine .config (hnowhere "len" (by decide)) ⟨_, List.mem_singleton_self _, .tail _ (.head _)⟩ ?_
    rw [← hdate]
    exact .array (.cons (.table rfl (.cons (.moment _) .nil)) .nil)
  have hgiven {name : String} {data : Toml} (h : ConfigGives config name data) :
      name = "x" ∨ name = "len" := by
    obtain ⟨entries, hentries, hdata⟩ := h
    cases List.mem_singleton.1 hentries
    rcases List.mem_pair.1 hdata with hdata | hdata
    · exact .inl (congrArg Prod.fst hdata)
    · exact .inr (congrArg Prod.fst hdata)
  have hstr : r.Predefines config "str" (.builtin .str) :=
    .builtin (hnowhere "str" (by decide)) (fun data h => by simpa using hgiven h) rfl
  have hz (value : Value) : ¬ r.Predefines config "z" value := by
    intro h
    cases h with
    | definition hlast => exact hlast.not_nowhere (hnowhere "z" (by decide))
    | config hnowhere hgives hvalue => simpa using hgiven hgives
    | @builtin b hnowhere hnone hname => cases b <;> simp [Builtin.name] at hname
  obtain ⟨o, ho, hreads, -⟩ := predefined_by_precedence hconfig hdefinitions
  let value := evaluate { callDepth := o.callDepth } 998 Machine.globals
  let start := Machine.start o.env
  -- Each of the four is read after those before it, which leave the state as it is.
  have hitem (before after : List Node) (name : String) (values : List Value)
      (hparts : [read "x", read "len", read "str", read "z"] = before ++ read name :: after)
      (hbefore : before.mapM value start = .ok values start) :=
    hreads source program 997 Machine.globals (read name) name start hsource
      ⟨rfl, [], _, [], .null, start, rfl, rfl, List.forall_mem_nil _,
        .head (.operand rfl rfl (List.mem_singleton_self _)) (.single (.part rfl hparts hbefore))⟩
  have hmore (before : List Node) (values : List Value) {node : Node} {v : Value}
      (hbefore : before.mapM value start = .ok values start)
      (hnode : value node start = .ok v start) :
      (before ++ [node]).mapM value start = .ok (values ++ [v]) start := by
    rw [List.mapM_append, Eval.bind_apply_of_ok hbefore, List.mapM_cons, bind_assoc,
      Eval.bind_apply_of_ok hnode]
    rfl
  have hvalueX := ((hitem [] _ "x" [] rfl rfl).1 _).2 hx
  have hbeforeLen := hmore [] [] rfl hvalueX
  have hvalueLen := ((hitem _ _ "len" _ rfl hbeforeLen).1 _).2 hlen
  have hbeforeStr := hmore _ _ hbeforeLen hvalueLen
  have hvalueStr := ((hitem _ _ "str" _ rfl hbeforeStr).1 _).2 hstr
  have hfails := ((hitem _ _ "z" _ rfl (hmore _ _ hbeforeStr hvalueStr)).2 hz).1
  exact ⟨hconfig, hdefinitions, hsource, o, ho, hvalueX, hvalueLen, hvalueStr, hfails⟩

end RunRequest
end PageScript
