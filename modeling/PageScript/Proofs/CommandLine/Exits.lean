import Mathlib.Data.List.TakeWhile
import PageScript.CommandLine.Tool
import PageScript.Proofs.Evaluation.Faults
import PageScript.Proofs.Text.Utf8

/-!
How a run of a program from the command line ends. Its definitions, its configuration, its program
and what that comes to may each be at fault, and each of these faults has its code. Two faults of a
configuration have none: it is not in UTF-8, or a number in it has too many digits.
-/
namespace PageScript

/-! ### The names defined before a program starts -/

namespace Value

mutual

/-- Data of a configuration file holds no functions. -/
theorem functions_ofToml : ∀ t : Toml, (ofToml t).functions = []
  | .bool _ | .integer _ | .double _ | .string _ | .moment _ => rfl
  | .array items => functionsItems_ofToml items
  | .table entries => functionsEntries_ofToml entries

theorem functionsItems_ofToml : ∀ items : List Toml, functionsItems (ofTomlItems items) = []
  | [] => rfl
  | item :: rest => by
    rw [ofTomlItems, functionsItems, functions_ofToml item, functionsItems_ofToml rest]
    rfl

theorem functionsEntries_ofToml :
    ∀ entries : List (String × Toml), functionsEntries (ofTomlEntries entries) = []
  | [] => rfl
  | (_, item) :: rest => by
    rw [ofTomlEntries, functionsEntries, functions_ofToml item, functionsEntries_ofToml rest]
    rfl

end

end Value

theorem definition?_eq_none_iff {text : String} : definition? text = none ↔ '=' ∉ text.toList := by
  have hdrop : text.toList.dropWhile (· ≠ '=') = [] ↔ '=' ∉ text.toList := by
    rw [List.dropWhile_eq_nil_iff]
    constructor
    · intro h hmem
      simpa using h '=' hmem
    · intro h c hc
      rw [decide_eq_true_eq]
      rintro rfl
      exact h hc
  rw [← hdrop, definition?, Argument.splitEquals]
  cases text.toList.dropWhile (· ≠ '=') <;> simp

namespace RunRequest
variable {r : RunRequest} {env : Fields Value}

theorem functions_configEnv (config : Fields Toml) :
    ∀ entry ∈ configEnv config, entry.2.functions = [] := by
  unfold configEnv
  split
  · next entries _ =>
    have hnone := Value.functionsEntries_ofToml entries
    rw [Value.functionsEntries_eq_flatMap, List.flatMap_eq_nil_iff] at hnone
    exact hnone
  · exact fun _ h => nomatch h

/-- Definitions add texts only. -/
theorem functions_define {texts : List String} {env' : Fields Value}
    (h : define env texts = .ok env') (henv : ∀ entry ∈ env, entry.2.functions = []) :
    ∀ entry ∈ env', entry.2.functions = [] := by
  induction texts generalizing env with
  | nil =>
    obtain rfl : env = env' := Except.ok.inj h
    exact henv
  | cons text rest ih =>
    rw [define] at h
    split at h
    · refine ih h fun entry hentry => ?_
      rcases Fields.mem_put hentry with hentry | hvalue
      · exact henv entry hentry
      · rw [hvalue]
        rfl
    · cases h

/-- Definitions are made unless one has no equals sign, and that one is the fault. -/
theorem define_cases (env : Fields Value) (texts : List String) :
    (∃ env', define env texts = .ok env' ∧ ∀ text ∈ texts, '=' ∈ text.toList) ∨
      ∃ text ∈ texts, define env texts = .error (.definition text) ∧ '=' ∉ text.toList := by
  induction texts generalizing env with
  | nil => exact .inl ⟨env, rfl, nofun⟩
  | cons text rest ih =>
    cases hdefinition : definition? text with
    | none =>
      refine .inr ⟨text, List.mem_cons_self, ?_, definition?_eq_none_iff.1 hdefinition⟩
      simp only [define, hdefinition]
    | some entry =>
      obtain ⟨name, value⟩ := entry
      have hstep : define env (text :: rest) = define (env.put name (.string value)) rest := by
        simp only [define, hdefinition]
      have hequals : '=' ∈ text.toList := by
        by_contra hnone
        rw [definition?_eq_none_iff.2 hnone] at hdefinition
        cases hdefinition
      rw [hstep]
      rcases ih (env.put name (.string value)) with ⟨env', henv', hall⟩ | ⟨other, hmem, hfault⟩
      · exact .inl ⟨env', henv', List.forall_mem_cons.2 ⟨hequals, hall⟩⟩
      · exact .inr ⟨other, List.mem_cons_of_mem _ hmem, hfault⟩

end RunRequest

/-! ### Options -/

/-- Whether bytes are a document in TOML, as it is read here. -/
def Toml.IsDocument (bytes : List UInt8) : Prop :=
  ∃ cs table, bytes = Text.utf8 cs ∧ read cs = .ok table

/-- Whether bytes are a text whose reading as a document stops at an integer of too many digits. -/
def Toml.HasLongInteger (bytes : List UInt8) : Prop :=
  ∃ cs line, bytes = Text.utf8 cs ∧ read cs = .error ⟨.oversizedInteger, line⟩

theorem Toml.hasLongInteger_utf8 {cs : List Char} :
    HasLongInteger (Text.utf8 cs) ↔ ∃ line, read cs = .error ⟨.oversizedInteger, line⟩ := by
  constructor
  · rintro ⟨cs', line, hcs, hline⟩
    obtain rfl := Text.utf8_inj.1 hcs
    exact ⟨line, hline⟩
  · rintro ⟨line, hline⟩
    exact ⟨cs, line, rfl, hline⟩

theorem Toml.isDocument_utf8 {cs : List Char} :
    IsDocument (Text.utf8 cs) ↔ ∃ table, read cs = .ok table := by
  constructor
  · rintro ⟨cs', table, hcs, htable⟩
    obtain rfl := Text.utf8_inj.1 hcs
    exact ⟨table, htable⟩
  · rintro ⟨table, htable⟩
    exact ⟨cs, table, rfl, htable⟩

namespace RunRequest
variable {r : RunRequest} {config : List UInt8}

/-- Why a request has no options under a configuration. -/
inductive Fault (r : RunRequest) (config : List UInt8) : OptionsError → Prop where
  | encoding (h : ∀ cs, config ≠ Text.utf8 cs) : Fault r config .configEncoding
  | config {cs : List Char} {e : Toml.ReadError} (hconfig : config = Text.utf8 cs)
    (h : Toml.read cs = .error e) : Fault r config (.config e)
  | definition {text : String} (hconfig : Toml.IsDocument config) (htext : text ∈ r.definitions)
    (h : '=' ∉ text.toList) : Fault r config (.definition text)

/-- What is right about the options of a request. -/
structure Grants (r : RunRequest) (config : List UInt8) (o : RunOptions) : Prop where
  isDocument : Toml.IsDocument config
  equals : ∀ text ∈ r.definitions, '=' ∈ text.toList
  plain : ∀ entry ∈ o.env, entry.2.functions = []
  debug_eq : o.debug = r.debug

theorem options_cases (r : RunRequest) (config : List UInt8) :
    (∃ o, r.options (.file config) = .ok o ∧ r.Grants config o) ∨
      ∃ e, r.options (.file config) = .error e ∧ r.Fault config e := by
  cases hcs : Text.ofUtf8 config with
  | error offset =>
    refine .inr ⟨.configEncoding, ?_, .encoding (Text.exists_error_iff.1 ⟨offset, hcs⟩)⟩
    simp only [options, readConfig, hcs]
    rfl
  | ok cs =>
    have htext := Text.ofUtf8_eq_ok_iff.1 hcs
    cases htable : Toml.read cs with
    | error e =>
      refine .inr ⟨.config e, ?_, .config htext htable⟩
      simp only [options, readConfig, hcs, htable]
      rfl
    | ok table =>
      have hdocument : Toml.IsDocument config := ⟨cs, table, htext, htable⟩
      have hoptions : r.options (.file config) = r.resolve table := by
        simp only [options, readConfig, hcs, htable]
        rfl
      rw [hoptions]
      rcases define_cases (configEnv table) r.definitions with
        ⟨env, henv, hall⟩ | ⟨text, hmem, hfault, hnone⟩
      · have hplain := functions_define henv (functions_configEnv table)
        let depth := r.callDepth.getD ((configDepth? table).getD defaultCallDepth)
        refine .inl ⟨⟨.ofString r.input, env, depth, r.debug⟩, ?_, hdocument, hall, hplain, rfl⟩
        simp only [resolve, henv]
        rfl
      · refine .inr ⟨.definition text, ?_, .definition hdocument hmem hnone⟩
        simp only [resolve, hfault]
        rfl

/-! ### Ends -/

/-- Whether a run is refused before its program is looked at: a definition has no equals sign, the
configuration is no document in TOML, or the program is not in UTF-8. -/
def IsRefused (r : RunRequest) (config source : List UInt8) : Prop :=
  (∃ text ∈ r.definitions, '=' ∉ text.toList) ∨ ¬ Toml.IsDocument config ∨
    ∀ cs, source ≠ Text.utf8 cs

/-- Whether a run gets as far as the text of its program, with these options. -/
structure Reaches (r : RunRequest) (config source : List UInt8) (o : RunOptions) (text : String) :
    Prop where
  options_eq : r.options (.file config) = .ok o
  source_eq : ∃ cs, source = Text.utf8 cs ∧ text = String.ofList (Text.normalizeEnds cs)

/-- A run gets to its program unless it is refused. -/
theorem exists_reaches_iff {source : List UInt8} :
    (∃ o text, r.Reaches config source o text) ↔ ¬ r.IsRefused config source := by
  constructor
  · rintro ⟨o, text, hoptions, cs, hcs, -⟩ hrefused
    rcases r.options_cases config with ⟨o', -, hgrants⟩ | ⟨e, herror, -⟩
    · rcases hrefused with ⟨text', hmem, hnone⟩ | hdocument | hsource
      · exact hnone (hgrants.equals text' hmem)
      · exact hdocument hgrants.isDocument
      · exact hsource cs hcs
    · rw [hoptions] at herror
      cases herror
  · intro hrefused
    simp only [IsRefused, not_or, not_exists, not_and, not_forall, not_not] at hrefused
    obtain ⟨hequals, hdocument, cs, hcs⟩ := hrefused
    rcases r.options_cases config with ⟨o, hoptions, -⟩ | ⟨e, -, hfault⟩
    · exact ⟨o, _, hoptions, cs, hcs, rfl⟩
    · cases hfault with
      | encoding h =>
        obtain ⟨cs, -, hconfig, -⟩ := hdocument
        exact absurd hconfig (h cs)
      | config hconfig h =>
        rw [hconfig, Toml.isDocument_utf8, h] at hdocument
        exact hdocument.elim nofun
      | definition _ htext h => exact absurd (hequals _ htext) h

end RunRequest

/-- What a program comes to under options. -/
def RunOptions.evaluate (o : RunOptions) (program : Program) : EStateM.Result Stop Machine Value :=
  program.run { callDepth := o.callDepth } (.start o.env)

namespace RunRequest
variable {r : RunRequest} {config source : List UInt8}

/-- Whether a run gets to a text that is no well-formed program. -/
def IsMalformed (r : RunRequest) (config source : List UInt8) : Prop :=
  ∃ o text e, r.Reaches config source o text ∧ Program.ofSource text = .error e

/-- Whether a run gets to a well-formed program, and what that comes to. -/
def ComesTo (r : RunRequest) (config source : List UInt8)
    (result : EStateM.Result Stop Machine Value) : Prop :=
  ∃ o text program, r.Reaches config source o text ∧ Program.ofSource text = .ok program ∧
    o.evaluate program = result

/-- How a run should end. It is refused with the code two. A program that is not well formed has the
code one. One that fails, or whose result cannot be shown, has the code two, and any other the code
zero, behind what it has printed and its result, unless that is null. Only a loop that goes on for
longer than is waited for has no code. -/
inductive Ends (r : RunRequest) (config source : List UInt8) (outcome : Outcome) : Prop where
  | refused (h : r.IsRefused config source) (hexit : outcome.exit = .code 2)
  | malformed (h : r.IsMalformed config source) (hexit : outcome.exit = .code 1)
  | failed {e : RuntimeError} {m : Machine} (h : r.ComesTo config source (.error (.error e) m))
    (hexit : outcome.exit = .code 2)
  | hidden {value : Value} {m : Machine} (h : r.ComesTo config source (.ok value m))
    (hshown : value.display? = none) (hexit : outcome.exit = .code 2)
  | null {m : Machine} (h : r.ComesTo config source (.ok .null m)) (hexit : outcome.exit = .code 0)
    (houtput : outcome.output = m.output)
  | shown {value : Value} {m : Machine} {text : String} (h : r.ComesTo config source (.ok value m))
    (hnull : value ≠ .null) (hshown : value.display? = some text) (hexit : outcome.exit = .code 0)
    (houtput : outcome.output = m.output ++ text ++ "\n")
  | unfinished {m : Machine} (h : r.ComesTo config source (.error .unfinished m))
    (hexit : outcome.exit = .crash .unfinished)

theorem Ends.exit_ne {outcome : Outcome} (h : r.Ends config source outcome) :
    outcome.exit ≠ .crash .configEncoding ∧ outcome.exit ≠ .crash .configNumber := by
  cases h <;> simp_all

theorem Reaches.unique {o o' : RunOptions} {text text' : String}
    (h : r.Reaches config source o text) (h' : r.Reaches config source o' text') :
    o = o' ∧ text = text' := by
  obtain ⟨hoptions, cs, hcs, rfl⟩ := h
  obtain ⟨hoptions', cs', hcs', rfl⟩ := h'
  obtain rfl := Text.utf8_inj.1 (hcs.symm.trans hcs')
  exact ⟨Except.ok.inj (hoptions.symm.trans hoptions'), rfl⟩

theorem ComesTo.unique {result result' : EStateM.Result Stop Machine Value}
    (h : r.ComesTo config source result) (h' : r.ComesTo config source result') :
    result = result' := by
  obtain ⟨o, text, program, hreaches, hprogram, hrun⟩ := h
  obtain ⟨o', text', program', hreaches', hprogram', hrun'⟩ := h'
  obtain ⟨rfl, rfl⟩ := hreaches.unique hreaches'
  obtain rfl := Except.ok.inj (hprogram.symm.trans hprogram')
  exact hrun.symm.trans hrun'

/-- A run that comes to a value with a display ends in no other way than by showing it. -/
theorem Ends.shows {outcome : Outcome} {value : Value} {m : Machine} {text : String}
    (h : r.Ends config source outcome) (hcomes : r.ComesTo config source (.ok value m))
    (hnull : value ≠ .null) (hshown : value.display? = some text) :
    outcome.exit = .code 0 ∧ outcome.output = m.output ++ text ++ "\n" := by
  have hcomes' := hcomes
  obtain ⟨o, text', program, hreaches, hprogram, -⟩ := hcomes'
  cases h with
  | refused hrefused => exact absurd hrefused (exists_reaches_iff.1 ⟨o, text', hreaches⟩)
  | malformed hmalformed =>
    obtain ⟨o', text'', e, hreaches', herror⟩ := hmalformed
    obtain ⟨-, rfl⟩ := hreaches.unique hreaches'
    rw [hprogram] at herror
    cases herror
  | failed hfailed => cases hcomes.unique hfailed
  | hidden hvalue hnone =>
    cases hcomes.unique hvalue
    rw [hshown] at hnone
    cases hnone
  | null hvalue =>
    cases hcomes.unique hvalue
    exact absurd rfl hnull
  | shown hvalue _ hshown' hexit houtput =>
    cases hcomes.unique hvalue
    rw [hshown] at hshown'
    cases hshown'
    exact ⟨hexit, houtput⟩
  | unfinished hunfinished => cases hcomes.unique hunfinished

/-- A program that was read ends, or goes on in a loop. -/
theorem evaluate_cases {o : RunOptions} {program : Program} {text : String}
    (hplain : ∀ entry ∈ o.env, entry.2.functions = [])
    (hprogram : Program.ofSource text = .ok program) :
    (∃ value m, o.evaluate program = .ok value m) ∨
      (∃ e m, o.evaluate program = .error (.error e) m) ∨
      ∃ m, o.evaluate program = .error .unfinished m := by
  -- Only for a program that was read are the other two stops out of the question.
  have hread : ∀ p ∈ [program], ∃ source, Program.ofSource source = .ok p :=
    List.forall_mem_singleton.2 ⟨text, hprogram⟩
  obtain ⟨hends, -, -⟩ :=
    Session.fails_ordinarily { callDepth := o.callDepth } hplain hread
  have hend := hends (o.evaluate program) List.mem_cons_self
  cases hresult : o.evaluate program with
  | ok value m => exact .inl ⟨value, m, rfl⟩
  | error stop m =>
    rw [hresult] at hend
    cases stop with
    | error e => exact .inr (.inl ⟨e, m, rfl⟩)
    | unfinished => exact .inr (.inr ⟨m, rfl⟩)
    | tooDeep | bodyNotBlock => exact hend.elim

/-- A value is shown behind what was printed, unless it is null. -/
theorem Ends.of_value {outcome : Outcome} {o : RunOptions} {text : String} {value : Value}
    {m : Machine} (h : r.ComesTo config source (.ok value m))
    (houtcome : outcome = o.outcome text (.ok value m)) : r.Ends config source outcome := by
  subst houtcome
  unfold RunOptions.outcome
  split
  · next hvalue =>
    obtain ⟨rfl, rfl⟩ := by simpa using hvalue
    split
    · exact .null h rfl rfl
    · next shown hnull hshown => exact .shown h hnull hshown rfl rfl
    · next hnull hshown => exact .hidden h hshown rfl
  · next hvalue => cases hvalue
  · next hvalue => cases hvalue

/-- A run that gets to its program ends as it should. -/
theorem Reaches.ends {o : RunOptions} {text : String} (h : r.Reaches config source o text)
    (hgrants : r.Grants config o) (hdebug : r.debug = false) :
    r.Ends config source (o.runSource text) := by
  unfold RunOptions.runSource
  cases hprogram : Program.ofSource text with
  | error e => exact .malformed ⟨o, text, e, h, hprogram⟩ rfl
  | ok program =>
    have hcomes {result : EStateM.Result Stop Machine Value} (hrun : o.evaluate program = result) :
        r.ComesTo config source result := ⟨o, text, program, h, hprogram, hrun⟩
    simp only [hgrants.debug_eq, hdebug, Bool.false_eq_true, if_false]
    show r.Ends config source (o.outcome text (o.evaluate program))
    rcases evaluate_cases hgrants.plain hprogram with ⟨value, m, hrun⟩ | ⟨e, m, hrun⟩ | ⟨m, hrun⟩
    · exact .of_value (hcomes hrun) (congrArg _ hrun)
    · rw [hrun]
      exact .failed (hcomes hrun) rfl
    · rw [hrun]
      exact .unfinished (hcomes hrun) rfl

/-- A run under options ends as it should. -/
theorem Grants.ends {o : RunOptions} (hgrants : r.Grants config o)
    (hoptions : r.options (.file config) = .ok o) (hdebug : r.debug = false) :
    r.Ends config source (o.run (.file source)) := by
  cases hcs : Text.ofUtf8 source with
  | error offset =>
    simp only [RunOptions.run, Outcome.source, hcs]
    exact .refused (.inr (.inr (Text.exists_error_iff.1 ⟨offset, hcs⟩))) rfl
  | ok cs =>
    simp only [RunOptions.run, Outcome.source, hcs]
    exact Reaches.ends ⟨hoptions, cs, Text.ofUtf8_eq_ok_iff.1 hcs, rfl⟩ hgrants hdebug

/-- A configuration that is not in UTF-8 brings a run down, whatever else it asks for. -/
theorem run_of_encoding (r : RunRequest) (h : ∀ cs, config ≠ Text.utf8 cs) (found : Found) :
    r.run (.file config) found = ⟨.crash .configEncoding, "", ""⟩ := by
  obtain ⟨offset, hoffset⟩ := Text.exists_error_iff.2 h
  have hoptions : r.options (.file config) = .error .configEncoding := by
    simp only [options, readConfig, hoffset]
    rfl
  simp only [RunRequest.run, hoptions]
  rfl

/-- One with an integer of too many digits brings it down as well. -/
theorem run_of_longInteger (r : RunRequest) (h : Toml.HasLongInteger config) (found : Found) :
    r.run (.file config) found = ⟨.crash .configNumber, "", ""⟩ := by
  obtain ⟨cs, line, hcs, hline⟩ := h
  have htext := Text.ofUtf8_eq_ok_iff.2 hcs
  have hoptions : r.options (.file config) = .error (.config ⟨.oversizedInteger, line⟩) := by
    simp only [options, readConfig, htext, hline]
    rfl
  simp only [RunRequest.run, hoptions]
  rfl

/-- Any other fault of the options is refused with the code two. -/
theorem Fault.ends {e : OptionsError} (h : r.Fault config e) (hcs : ∃ cs, config = Text.utf8 cs)
    (hshort : ¬ Toml.HasLongInteger config) : r.Ends config source e.outcome := by
  cases h with
  | encoding h =>
    obtain ⟨cs, hcs⟩ := hcs
    exact absurd hcs (h cs)
  | @config cs e hconfig h =>
    have hdocument : ¬ Toml.IsDocument config := by
      rw [hconfig, Toml.isDocument_utf8, h]
      nofun
    obtain ⟨fault, line⟩ := e
    have hfault : fault ≠ .oversizedInteger := by
      rintro rfl
      exact hshort ⟨cs, line, hconfig, h⟩
    refine .refused (.inr (.inl hdocument)) ?_
    cases fault with
    | oversizedInteger => exact absurd rfl hfault
    | _ => rfl
  | definition _ htext h => exact .refused (.inl ⟨_, htext, h⟩) rfl

theorem runTool_eq {look : Path → Found} {arguments : List String}
    (hread : RunRequest.read arguments = .ok r) (hconfig : look r.configPath = .file config)
    (hsource : look (.ofString r.input) = .file source) :
    runTool look arguments = r.run (.file config) (.file source) := by
  simp only [runTool, hread, hconfig, hsource]

/-- **How a run ends.** Let the arguments, without a switch for the tree, ask for a program and a
configuration that are both found, whatever bytes they are. Then the run ends as it should if and
only if the configuration is in UTF-8 and no integer in it has too many digits. Otherwise it ends
with no code, and with nothing written. It gets to its program unless it is refused. -/
theorem ends_iff {look : Path → Found} {arguments : List String}
    (hread : RunRequest.read arguments = .ok r) (hdebug : r.debug = false)
    (hconfig : look r.configPath = .file config)
    (hsource : look (.ofString r.input) = .file source) :
    let outcome := runTool look arguments
    (r.Ends config source outcome ↔
      (∃ cs, config = Text.utf8 cs) ∧ ¬ Toml.HasLongInteger config) ∧
    ((∀ cs, config ≠ Text.utf8 cs) → outcome = ⟨.crash .configEncoding, "", ""⟩) ∧
    (Toml.HasLongInteger config → outcome = ⟨.crash .configNumber, "", ""⟩) ∧
    ((∃ o text, r.Reaches config source o text) ↔ ¬ r.IsRefused config source) := by
  intro outcome
  have houtcome : outcome = r.run (.file config) (.file source) :=
    runTool_eq hread hconfig hsource
  have hencoding (h : ∀ cs, config ≠ Text.utf8 cs) : outcome = ⟨.crash .configEncoding, "", ""⟩ :=
    houtcome.trans (r.run_of_encoding h _)
  have hnumber (h : Toml.HasLongInteger config) : outcome = ⟨.crash .configNumber, "", ""⟩ :=
    houtcome.trans (r.run_of_longInteger h _)
  refine ⟨⟨fun hends => ⟨?_, fun hlong => ?_⟩, ?_⟩, hencoding, hnumber, exists_reaches_iff⟩
  · by_contra hnone
    exact hends.exit_ne.1 (congrArg Outcome.exit (hencoding (not_exists.1 hnone)))
  · exact hends.exit_ne.2 (congrArg Outcome.exit (hnumber hlong))
  · rintro ⟨hcs, hshort⟩
    rw [houtcome]
    rcases r.options_cases config with ⟨o, hoptions, hgrants⟩ | ⟨e, hoptions, hfault⟩
    · simp only [RunRequest.run, hoptions]
      exact hgrants.ends hoptions hdebug
    · simp only [RunRequest.run, hoptions]
      exact hfault.ends hcs hshort

deriving instance DecidableEq for RunRequest

theorem read_eq_of_toOption {arguments : List String}
    (h : (RunRequest.read arguments).toOption = some r) : RunRequest.read arguments = .ok r := by
  cases hread : RunRequest.read arguments with
  | error halt =>
    rw [hread] at h
    cases h
  | ok found =>
    rw [hread] at h
    exact congrArg Except.ok (Option.some.inj h)

/-- A definition beside a configuration without any settings: what is printed of it comes first, and
then the result with a line end. -/
theorem ends_iff_defined :
    let source := Text.utf8 "print(x + x) x".toList
    let look (path : Path) : Found :=
      if path = ⟨"", ["noteg.toml"]⟩ then .file [] else .file source
    let arguments := ["a.ng", "-e", "x=1"]
    let r : RunRequest := ⟨"a.ng", ["x=1"], none, none, false⟩
    let outcome := runTool look arguments
    RunRequest.read arguments = .ok r ∧ r.debug = false ∧ look r.configPath = .file [] ∧
      look (.ofString r.input) = .file source ∧ r.Ends [] source outcome ∧
      outcome.exit = .code 0 ∧ outcome.output = "11\n1\n" := by
  intro source look arguments r outcome
  have hread : RunRequest.read arguments = .ok r := read_eq_of_toOption (by decide +kernel)
  have hconfig : look r.configPath = .file [] := if_pos (by decide)
  have hsource : look (.ofString r.input) = .file source := if_neg (by decide)
  have hshort : ¬ Toml.HasLongInteger (Text.utf8 []) := by
    rw [Toml.hasLongInteger_utf8]
    rintro ⟨line, hline⟩
    cases hline
  have hends : r.Ends [] source outcome :=
    (ends_iff hread rfl hconfig hsource).1.2 ⟨⟨[], rfl⟩, hshort⟩
  let o : RunOptions := ⟨.ofString "a.ng", [("x", .string "1")], defaultCallDepth, false⟩
  let program : Program := ⟨[.call (.identifier "print" 1)
    [.binary "+" (.identifier "x" 1) (.identifier "x" 1) 1] 1, .identifier "x" 1]⟩
  have hreaches : r.Reaches [] source o "print(x + x) x" := ⟨rfl, _, rfl, by decide +kernel⟩
  have hprogram : Program.ofSource "print(x + x) x" = .ok program := by
    revert program
    with_unfolding_all rfl
  have hrun : ∃ m, o.evaluate program = .ok (.string "1") m ∧ m.output = "11\n" := by
    with_unfolding_all exact ⟨_, rfl, rfl⟩
  obtain ⟨m, hrun, houtput⟩ := hrun
  have hshown : (Value.string "1").display? = some "1" := rfl
  obtain ⟨hexit, hwritten⟩ :=
    hends.shows ⟨o, _, program, hreaches, hprogram, hrun⟩ nofun hshown
  rw [houtput] at hwritten
  exact ⟨hread, rfl, hconfig, hsource, hends, hexit, hwritten⟩

/-- **A configuration that is no text brings the tool down.** One that is not in UTF-8 is no
document in TOML either, but there is no code for it. -/
theorem not_forall_ends :
    ¬ ∀ (look : Path → Found) (arguments : List String) (r : RunRequest)
        (config source : List UInt8), RunRequest.read arguments = .ok r → r.debug = false →
        look r.configPath = .file config → look (.ofString r.input) = .file source →
      r.Ends config source (runTool look arguments) := by
  intro hall
  let source := Text.utf8 ['1']
  let look (path : Path) : Found :=
    if path = ⟨"", ["noteg.toml"]⟩ then .file [0xff] else .file source
  let r : RunRequest := ⟨"a.ng", [], none, none, false⟩
  have hread : RunRequest.read ["a.ng"] = .ok r := read_eq_of_toOption (by decide +kernel)
  have hconfig : look r.configPath = .file [0xff] := if_pos (by decide)
  have hsource : look (.ofString r.input) = .file source := if_neg (by decide)
  have hnone : ∀ cs, [0xff] ≠ Text.utf8 cs := Text.exists_error_iff.1 ⟨0, rfl⟩
  have hends := hall look ["a.ng"] r [0xff] source hread rfl hconfig hsource
  rw [runTool_eq hread hconfig hsource, r.run_of_encoding hnone] at hends
  exact hends.exit_ne.1 rfl

end RunRequest
end PageScript
