import MutationLint.Command.Check
import MutationLint.Proofs.Config.EnvFile
import MutationLint.Proofs.Config.Faults

/-! What a check does before it looks at a file. It asks whether its paths exist, reads the settings
file, loads the configuration, resolves the options of the rules and makes a linter; the first of
these that fails ends the run. -/

namespace MutationLint

open Config

namespace Files

variable {fs : Files} {p : Path}

theorem contains_eq_true_iff : fs.contains p = .ok true ↔ ∃ e, fs.find p = .ok e := by
  rw [contains, ask]
  cases fs.find p with
  | ok e => simp
  | error f => cases hf : f.isAbsence <;> simp [hf]

theorem exists_isDirectory (h : fs.contains p = .ok true) : ∃ b, fs.isDirectory p = .ok b := by
  obtain ⟨e, he⟩ := contains_eq_true_iff.mp h
  rw [isDirectory, ask, he]
  exact ⟨_, rfl⟩

end Files

namespace Command

/-- The paths a check goes through: those that are given, or the working directory. -/
def CheckArguments.given (a : CheckArguments) : List Text :=
  if a.paths.isEmpty then [Text.ofString "."] else a.paths

/-- What a check starts from: tracing is on when that is asked for. -/
def World.started (w : World) (a : CheckArguments) : World :=
  if a.has .debug then { w with env := w.env.set Trace.switch "1" } else w

def World.environment (w : World) : Environment :=
  (Session.opened w.files w.env Session.envFile).1

def World.settingsFault? (w : World) : Option ConfigFault :=
  (Session.opened w.files w.env Session.envFile).2

/-- What the configuration is asked for. -/
def World.request (w : World) (a : CheckArguments) (root : Path) : Request :=
  ⟨w.environment, root, a.config.map Path.ofText⟩

theorem given_ne_nil (a : CheckArguments) : a.given ≠ [] := by
  rw [CheckArguments.given]
  split_ifs with h
  · simp
  · simpa using h

theorem files_started (w : World) (a : CheckArguments) : (w.started a).files = w.files := by
  rw [World.started]
  split_ifs <;> rfl

theorem check_eq (w : World) (a : CheckArguments) :
    check w a = match missing? w.files a.given with
      | .error f => .ofEscape (.file f)
      | .ok (some p) => refuse "Error:" [.markup "Path does not exist: ", .verbatim p]
      | .ok none => checkPaths (w.started a) a a.given := by
  rw [← files_started w a]
  rfl

/-! ### Paths -/

/-- The first path that is not seen to exist, with what the system answers for it. -/
inductive StopsAt (fs : Files) : List Text → Text → Except FileFault Bool → Prop
  | here {p : Text} {rest : List Text} {answer : Except FileFault Bool} :
      fs.contains (.ofText p) = answer → answer ≠ .ok true → StopsAt fs (p :: rest) p answer
  | later {q p : Text} {rest : List Text} {answer : Except FileFault Bool} :
      fs.contains (.ofText q) = .ok true → StopsAt fs rest p answer →
      StopsAt fs (q :: rest) p answer

theorem StopsAt.ne {fs : Files} {paths : List Text} {p : Text} {answer : Except FileFault Bool}
    (h : StopsAt fs paths p answer) : answer ≠ .ok true := by
  induction h with
  | here _ hne => exact hne
  | later _ _ ih => exact ih

theorem missing?_of_stopsAt {fs : Files} {paths : List Text} {p : Text}
    {answer : Except FileFault Bool} (h : StopsAt fs paths p answer) :
    missing? fs paths = answer.map fun _ => some p := by
  induction h with
  | @here p rest answer hp hne =>
    rw [missing?, hp]
    rcases answer with f | there
    · rfl
    · obtain rfl : there = false := by simpa using hne
      rfl
  | later hq _ ih => rw [missing?, hq]; exact ih

theorem exists_stopsAt {fs : Files} {paths : List Text} (h : missing? fs paths ≠ .ok none) :
    ∃ p answer, StopsAt fs paths p answer := by
  induction paths with
  | nil => exact absurd rfl h
  | cons p rest ih =>
    by_cases hp : fs.contains (.ofText p) = .ok true
    · rw [missing?, hp] at h
      obtain ⟨q, answer, hstops⟩ := ih h
      exact ⟨q, answer, .later hp hstops⟩
    · exact ⟨p, _, .here rfl hp⟩

theorem missing?_eq_none_iff {fs : Files} {paths : List Text} :
    missing? fs paths = .ok none ↔ ∀ p ∈ paths, fs.contains (.ofText p) = .ok true := by
  induction paths with
  | nil => simp [missing?]
  | cons p rest ih =>
    rw [missing?, List.forall_mem_cons, ← ih]
    cases fs.contains (.ofText p) with
    | error f => simp [bind, Except.bind]
    | ok there => cases there <;> simp [bind, Except.bind, pure, Except.pure]

theorem exists_projectRoot {fs : Files} {paths : List Text} (hne : paths ≠ [])
    (h : ∀ p ∈ paths, fs.contains (.ofText p) = .ok true) :
    ∃ root, projectRoot fs paths = .ok root := by
  cases paths with
  | nil => exact absurd rfl hne
  | cons p rest =>
    obtain ⟨b, hb⟩ := Files.exists_isDirectory (h p List.mem_cons_self)
    refine ⟨if b then .ofText p else (Path.ofText p).parent, ?_⟩
    simp [projectRoot, hb, bind, Except.bind, pure, Except.pure]

/-! ### Stages -/

/-- The stage at which a configuration fails, and how. -/
inductive Misconfigured (w : World) (a : CheckArguments) (root : Path) : ConfigFault → Prop
  | settings {f : ConfigFault} : w.settingsFault? = some f → Misconfigured w a root f
  | project {f : ConfigFault} : w.settingsFault? = none →
      load w.files w.environment root (a.config.map Path.ofText) = .error f →
      Misconfigured w a root f
  | options {project : Project} {f : OptionFault} : w.settingsFault? = none →
      load w.files w.environment root (a.config.map Path.ofText) = .ok project →
      ruleOptions project a.overrides.fields = .error f → Misconfigured w a root (.options f)
  | rules {project : Project} {options : List (Text × Options)} {u : UnknownRules} :
      w.settingsFault? = none →
      load w.files w.environment root (a.config.map Path.ofText) = .ok project →
      ruleOptions project a.overrides.fields = .ok options →
      Linter.create (.byRule options) (some (ruleNames project a.rules)) = .error u →
      Misconfigured w a root (.unknownRules u)

theorem configure_eq {w : World} {a : CheckArguments} {paths : List Text} {root : Path}
    (hroot : projectRoot w.files paths = .ok root) :
    configure w a paths = match w.settingsFault? with
      | some f => .error f
      | none => do
        let project ← load w.files w.environment root (a.config.map Path.ofText)
        let options ← (ruleOptions project a.overrides.fields).mapError .options
        let linter ← (Linter.create (.byRule options) (some (ruleNames project a.rules))).mapError
          .unknownRules
        return (w.environment, linter) := by
  rw [configure, hroot, World.settingsFault?, World.environment]
  rcases Session.opened w.files w.env Session.envFile with ⟨env, _ | f⟩ <;> rfl

/-- A configuration fails at one of its stages. -/
theorem configure_eq_error_iff {w : World} {a : CheckArguments} {paths : List Text} {root : Path}
    (hroot : projectRoot w.files paths = .ok root) {f : ConfigFault} :
    configure w a paths = .error f ↔ Misconfigured w a root f := by
  rw [configure_eq hroot]
  cases hs : w.settingsFault? with
  | some g =>
    constructor
    · intro h
      cases h
      exact .settings hs
    · rintro (h | ⟨h, -⟩ | ⟨h, -⟩ | ⟨h, -⟩)
      · cases hs.symm.trans h
        rfl
      all_goals cases hs.symm.trans h
  | none =>
    simp only [bind_eq_error_iff, mapError_eq_error_iff, mapError_eq_ok]
    constructor
    · rintro (h | ⟨project, hload, ⟨g, hg, rfl⟩ | ⟨options, hoptions, ⟨u, hu, rfl⟩ | ⟨l, -, h⟩⟩⟩)
      · exact .project hs h
      · exact .options hs hload hg
      · exact .rules hs hload hoptions hu
      · cases h
    · rintro (h | ⟨-, h⟩ | ⟨-, hload, hg⟩ | ⟨-, hload, hoptions, hu⟩)
      · cases hs.symm.trans h
      · exact .inl h
      · exact .inr ⟨_, hload, .inl ⟨_, hg, rfl⟩⟩
      · exact .inr ⟨_, hload, .inr ⟨_, hoptions, .inl ⟨_, hu, rfl⟩⟩⟩

/-! ### Faults that are not reported -/

theorem isReported_of_settingsFault? {w : World} {f : ConfigFault} (h : w.settingsFault? = some f) :
    f.isReported = true := by
  rw [World.settingsFault?, Session.opened] at h
  split at h
  · split at h
    · obtain ⟨g, hg, rfl⟩ := Option.map_eq_some_iff.mp h
      have hne := EnvFile.load_fault hg
      cases g with
      | emptyName => exact absurd rfl hne
      | _ => rfl
    · cases h
      rfl
  · cases h

theorem isReported_options {project : Project} {rule : Text} {overrides : Fields} {f : OptionFault}
    (h : project.optionsFor rule overrides = .error f) :
    (ConfigFault.options f).isReported = true := by
  have hne := Options.ofFields_fault h
  cases f with
  | notObject => exact absurd rfl hne
  | _ => rfl

theorem isReported_ruleOptions {project : Project} {overrides : Fields} {f : OptionFault}
    (h : ruleOptions project overrides = .error f) : (ConfigFault.options f).isReported = true := by
  obtain ⟨r, -, hr⟩ := exists_of_mapM_eq_error h
  rcases bind_eq_error_iff.mp hr with hr | ⟨o, -, hr⟩
  · exact isReported_options hr
  · cases hr

/-- Only the loading of the configuration has faults that are not reported. -/
theorem escapes_configure_iff {w : World} {a : CheckArguments} {paths : List Text} {root : Path}
    (hroot : projectRoot w.files paths = .ok root)
    (regular : Origin.Regular (w.request a root) w.files) :
    Escapes (configure w a paths) ↔
      w.settingsFault? = none ∧ HasUnreported (w.request a root) w.files := by
  rw [← escapes_load_iff regular]
  constructor
  · rintro ⟨f, h, hf⟩
    cases (configure_eq_error_iff hroot).mp h with
    | settings hs => cases hf.symm.trans (isReported_of_settingsFault? hs)
    | project hs hload => exact ⟨hs, f, hload, hf⟩
    | options _ _ ho => cases hf.symm.trans (isReported_ruleOptions ho)
    | rules => cases hf
  · rintro ⟨hs, f, hload, hf⟩
    exact ⟨f, (configure_eq_error_iff hroot).mpr (.project hs hload), hf⟩

theorem check_of_existing {w : World} {a : CheckArguments}
    (h : ∀ p ∈ a.given, w.files.contains (.ofText p) = .ok true) :
    check w a = checkPaths (w.started a) a a.given := by
  rw [check_eq, missing?_eq_none_iff.mpr h]

/-- Going through files ends by the first fault of one of them. -/
theorem escaped_report (w : World) (env : Environment) (l : Linter) (found : List Path) :
    (report w env l found).escaped =
      (found.map fun p => (p, outcomeOf l w.files p)).findSome? (·.2.fault?) := by
  unfold report
  dsimp only
  cases (found.map fun p => (p, outcomeOf l w.files p)).findSome? (·.2.fault?) <;> rfl

theorem fault?_ne_config (o : FileOutcome) (f : ConfigFault) : o.fault? ≠ some (.config f) := by
  intro h
  unfold FileOutcome.fault? at h
  split at h
  · split at h <;> cases h
  · cases h
  · cases h

theorem escaped_thenFault (o : Outcome) (e : Escape) :
    (o.thenFault e).escaped = o.escaped.or (some e) := by
  unfold Outcome.thenFault
  cases h : o.escaped with
  | none => rfl
  | some f => simp [h]

/-- A check of paths that exist ends by a fault of its configuration when that is not reported. -/
theorem escaped_checkPaths_iff {w : World} {a : CheckArguments} {paths : List Text} :
    (∃ f, (checkPaths w a paths).escaped = some (.config f)) ↔ Escapes (configure w a paths) := by
  unfold checkPaths
  cases configure w a paths with
  | error f =>
    cases hf : f.isReported with
    | true => simp [hf, refuse, escapes_error]
    | false => simp [hf, Outcome.ofEscape, escapes_error]
  | ok r =>
    refine iff_of_false ?_ (not_escapes_ok r)
    rintro ⟨f, hf⟩
    have hreport (found : List Path) : (report w r.1 r.2 found).escaped ≠ some (.config f) := by
      rw [escaped_report]
      intro h
      obtain ⟨o, -, ho⟩ := List.exists_of_findSome?_eq_some h
      exact fault?_ne_config _ _ ho
    dsimp only at hf
    split at hf
    · rw [escaped_thenFault, Option.or_eq_some_iff] at hf
      rcases hf with hf | ⟨-, hf⟩
      · exact hreport _ hf
      · cases hf
    · exact hreport _ hf

theorem checkPaths_of_error {w : World} {a : CheckArguments} {paths : List Text} {f : ConfigFault}
    (h : configure w a paths = .error f) : checkPaths w a paths =
      if f.isReported then refuse "Configuration error:" [.verbatim f.message]
      else .ofEscape (.config f) := by
  unfold checkPaths
  rw [h]

/-- Where the paths of the sources at which something is lead to files, loading a configuration has
an unreported fault exactly when the first source that applies has a name that is too long, or is a
TOML file in which `tool` is not a table. Resolving options has none. So a check of paths that exist
exits with 2 for every fault of its configuration but these, by which it ends. -/
theorem unreported_faults (q : Request) (fs : Files) (regular : Origin.Regular q fs) (w : World)
    (a : CheckArguments) (hexist : ∀ p ∈ a.given, w.files.contains (.ofText p) = .ok true) :
    ((∃ f, load fs q.env q.root q.config = .error f ∧ f.isReported = false) ↔
      HasUnreported q fs) ∧
    (∀ (project : Project) (rule : Text) (overrides : Fields) (f : OptionFault),
      project.optionsFor rule overrides = .error f → (ConfigFault.options f).isReported = true) ∧
    ∃ root, projectRoot w.files a.given = .ok root ∧
      (∀ f, Misconfigured (w.started a) a root f →
        (check w a).exit = (if f.isReported then 2 else 1) ∧
        (check w a).escaped = if f.isReported then none else some (.config f)) ∧
      (Origin.Regular ((w.started a).request a root) w.files →
        ((∃ f, (check w a).escaped = some (.config f)) ↔ (w.started a).settingsFault? = none ∧
          HasUnreported ((w.started a).request a root) w.files)) := by
  refine ⟨escapes_load_iff regular, fun project rule overrides f => isReported_options, ?_⟩
  obtain ⟨root, hroot⟩ := exists_projectRoot (given_ne_nil a) hexist
  refine ⟨root, hroot, fun f hf => ?_, fun regular => ?_⟩
  · rw [← files_started w a] at hroot
    rw [check_of_existing hexist, checkPaths_of_error ((configure_eq_error_iff hroot).mpr hf)]
    cases f.isReported <;> exact ⟨rfl, rfl⟩
  · rw [← files_started w a] at hroot regular ⊢
    rw [check_of_existing hexist, escaped_checkPaths_iff]
    exact escapes_configure_iff hroot regular

/-- A TOML file in which `tool` is a number. -/
def numberedTool : Files := ⟨[textFile "pyproject.toml" "tool = 1\n"], [], by decide⟩

theorem regular_numberedTool : Origin.Regular plainRequest numberedTool := by
  intro o p hp
  cases o with
  | explicit => cases hp
  | rcFile => cases hp; intro h; cases h
  | toml => cases hp; intro h; cases h
  | package => cases hp; intro h; cases h

theorem load_numberedTool : load numberedTool .empty .here none = .error .toolNotTable := by
  have hsection : tomlSection? numberedTool (Path.here.child tomlFile) = .error .toolNotTable := by
    cbv
  have hexplicit : Config.explicit numberedTool .empty none = .ok none := rfl
  have hrc : fromRcFile numberedTool .here = .ok none := rfl
  simp only [load, firstOf, hexplicit, hrc, fromToml, hsection]
  rfl

def numberedWorld : World := ⟨numberedTool, .empty, .utf8⟩

/-- The number is found by the first source that applies, and ends the check of the directory. -/
theorem numberedTool_unreported :
    Origin.Regular plainRequest numberedTool ∧ HasUnreported plainRequest numberedTool ∧
      (∀ p ∈ CheckArguments.given {}, numberedTool.contains (.ofText p) = .ok true) ∧
      (check numberedWorld {}).exit = 1 ∧
      (check numberedWorld {}).escaped = some (.config .toolNotTable) := by
  have hexist : ∀ p ∈ CheckArguments.given {}, numberedTool.contains (.ofText p) = .ok true := by
    intro p hp
    obtain rfl : p = "." := by simpa [CheckArguments.given] using hp
    rfl
  obtain ⟨hload, -, root, hroot, hends, -⟩ :=
    unreported_faults plainRequest numberedTool regular_numberedTool numberedWorld {} hexist
  obtain rfl : Path.here = root := Except.ok.inj (Eq.trans (by rfl) hroot)
  have hfault : Misconfigured (numberedWorld.started {}) {} .here .toolNotTable :=
    .project (by rfl) load_numberedTool
  obtain ⟨hexit, hescaped⟩ := hends _ hfault
  exact ⟨regular_numberedTool, hload.mp ⟨_, load_numberedTool, rfl⟩, hexist, hexit, hescaped⟩

/-- It is not so that every fault of a configuration is reported. -/
theorem not_forall_fault_reported :
    ¬ ∀ (q : Request) (fs : Files), Origin.Regular q fs → ∀ f : ConfigFault,
      load fs q.env q.root q.config = .error f → f.isReported = true := by
  intro h
  cases h plainRequest numberedTool regular_numberedTool _ load_numberedTool

end Command
end MutationLint
