import MutationLint.Config.Session
import MutationLint.Proofs.Config.EnvFile
import MutationLint.Proofs.Config.Priority

/-! Sessions over files and variables. A variable that is set keeps its value until a step sets or
unsets it: a configuration that is opened gives values to unset variables only, and the shared one
is opened once. What a session answers is read off its files and variables. -/

namespace MutationLint

def Files.Alike (fs fs' : Files) : Prop := ∀ p, fs.view p = fs'.view p

/-- The configuration depends on what the files show and on the values of the variables. -/
theorem Config.load_congr {fs fs' : Files} {env env' : Environment} (hfiles : fs.Alike fs')
    (henv : ∀ name, env.get? name = env'.get? name) (root : Path) (config : Option Path) :
    load fs env root config = load fs' env' root config := by
  have hnamed : namedFile? env = namedFile? env' := by rw [namedFile?, namedFile?, henv]
  calc load fs env root config = load fs env' root config := by
        rw [load, load, explicit, explicit, hnamed]
    _ = load fs' env' root config := by
        rw [Origin.load_eq ⟨env', root, config⟩, Origin.load_eq ⟨env', root, config⟩]
        exact firstOf_congr fun o _ _ => Origin.offer_congr fun p _ => hfiles p

namespace Session

/-! ### Settings files -/

/-- What is asked of a reader, where a file holds the values `held` says, in order: variables that
are not set are given the last values that the file holds for them, from the first on, all of them
unless the reading stops. -/
def GivesUnset (read : SettingsReader) (held : Files → Environment → Path → Values) : Prop :=
  ∀ fs env file, ∃ given, given <+: (held fs env file).latest ∧
    ((read fs env file).2 = none → given = (held fs env file).latest) ∧
    ∀ name, (read fs env file).1.get? name = (env.get? name).or (given.lookup name).join

/-- What a settings file holds for the reader in use: nothing when it is not there or not text. -/
def offered (fs : Files) (env : Environment) (file : Path) : Values :=
  match fs.view file with
  | .ok (.file bytes) =>
    match Text.Utf8.decode bytes with
    | .ok text => EnvFile.assignments env (EnvFile.settings text)
    | .error _ => []
  | _ => []

theorem opened_eq (fs : Files) (env : Environment) (file : Path) :
    opened fs env file = match fs.view file with
      | .ok (.file bytes) =>
        match Text.Utf8.decode bytes with
        | .ok text => ((EnvFile.load env text).1, (EnvFile.load env text).2.map .environment)
        | .error f => (env, some (.notText f))
      | _ => (env, none) := by
  rw [opened, Files.view]
  cases fs.find file with
  | ok e => cases e <;> rfl
  | error f => cases hf : f.isAbsence <;> simp [hf]

theorem opened_congr {fs fs' : Files} (h : fs.Alike fs') (env : Environment) (file : Path) :
    opened fs env file = opened fs' env file := by
  rw [opened_eq, opened_eq, h file]

theorem opened_givesUnset : GivesUnset opened offered := by
  intro fs env file
  rw [opened_eq, offered]
  split
  · split
    · rename_i text _
      obtain ⟨given, hprefix, hall, hget⟩ := EnvFile.exists_given
        (Values.nodup_latest (EnvFile.assignments env (EnvFile.settings text))) env
      exact ⟨given, hprefix, fun h => hall (Option.map_eq_none_iff.mp h), hget⟩
    · exact ⟨[], List.nil_prefix, fun _ => rfl, by simp⟩
  · exact ⟨[], List.nil_prefix, fun _ => rfl, by simp⟩

/-- Of several settings of a variable in a file the last counts, with its references replaced. -/
theorem lookup_offered {fs : Files} {file : Path} {bytes : ByteArray} {text : String}
    (hview : fs.view file = .ok (.file bytes)) (htext : Text.Utf8.decode bytes = .ok text)
    {above below : List EnvFile.Setting} {name : Text} {value : Option (List Char)}
    (hsettings : EnvFile.settings text = above ++ (name, value) :: below)
    (hlast : ∀ s ∈ below, s.1 ≠ name) (env : Environment) :
    (offered fs env file).latest.lookup name =
      some (value.map (EnvFile.expanded env (EnvFile.assignments env above))) := by
  rw [offered, hview]
  simp only [htext, hsettings]
  exact EnvFile.lookup_latest_assignments env hlast

/-! ### Steps -/

def Step.assigned? : Step → Option Text
  | .setVariable name _ => some name
  | .unsetVariable name => some name
  | _ => none

def Step.isQuery : Step → Bool
  | .configPath | .load _ _ | .debugEnabled => true
  | _ => false

def opens? (s : Session) : Step → Option Path
  | .openConfig file => some (file.getD envFile)
  | .openShared => if s.shared then none else some envFile
  | _ => none

section
variable {read : SettingsReader} {held : Files → Environment → Path → Values} {s : Session}
  {a : Step}

theorem step_of_opens? {file : Path} (h : s.opens? a = some file) :
    (s.step read a).1.env = (read s.files s.env file).1 ∧
      ((∃ answer, (s.step read a).2 = .ok answer) ↔ (read s.files s.env file).2 = none) := by
  cases a with
  | openConfig given =>
    cases h
    rw [step]
    rcases read s.files s.env (given.getD envFile) with ⟨env, _ | f⟩ <;> simp
  | openShared =>
    rw [opens?] at h
    split_ifs at h with hshared
    cases h
    rw [step, if_neg hshared]
    rcases read s.files s.env envFile with ⟨env, _ | f⟩ <;> simp
  | _ => cases h

theorem env_step_of_not_opens? (hassigned : a.assigned? = none) (hopens : s.opens? a = none) :
    (s.step read a).1.env = s.env := by
  cases a with
  | write path entry => rw [step]; split <;> rfl
  | remove path => rw [step]; split <;> rfl
  | setVariable name value => cases hassigned
  | unsetVariable name => cases hassigned
  | openConfig file => cases hopens
  | openShared =>
    rw [opens?] at hopens
    split_ifs at hopens with hshared
    rw [step, if_pos hshared]
  | configPath => rfl
  | load root config => rfl
  | debugEnabled => rfl

theorem get?_step_of_assigned? {name other : Text} (h : a.assigned? = some name)
    (hne : other ≠ name) : (s.step read a).1.env.get? other = s.env.get? other := by
  cases a with
  | setVariable n value =>
    cases h
    rw [step]
    split
    · rename_i env henv
      rw [Environment.eq_set_of_assign henv, Environment.get?_set, if_neg hne]
    · rfl
  | unsetVariable n =>
    cases h
    exact (Environment.get?_unset _ _ _).trans (if_neg hne)
  | _ => cases h

/-- A step that does not set or unset a variable can only give it a value when it has none. -/
theorem exists_get?_step (gives : GivesUnset read held) {name : Text}
    (h : a.assigned? ≠ some name) :
    ∃ new, (s.step read a).1.env.get? name = (s.env.get? name).or new := by
  cases hv : a.assigned? with
  | some n =>
    have hne : name ≠ n := fun he => h (he ▸ hv)
    exact ⟨none, by rw [get?_step_of_assigned? hv hne, Option.or_none]⟩
  | none =>
    cases ho : s.opens? a with
    | none => exact ⟨none, by rw [env_step_of_not_opens? hv ho, Option.or_none]⟩
    | some file =>
      obtain ⟨given, -, -, hget⟩ := gives s.files s.env file
      exact ⟨_, by rw [(step_of_opens? ho).1, hget]⟩

theorem step_of_isQuery (h : a.isQuery = true) : (s.step read a).1 = s := by
  cases a with
  | configPath => rfl
  | load root config => rfl
  | debugEnabled => rfl
  | _ => cases h

theorem shared_step (h : s.shared = true) : (s.step read a).1.shared = true := by
  cases a with
  | openShared => rw [step, if_pos h]; exact h
  | unsetVariable name => exact h
  | configPath => exact h
  | load root config => exact h
  | debugEnabled => exact h
  | _ => rw [step]; split <;> exact h

theorem shared_of_openShared {answer : Answer} (h : (s.step read .openShared).2 = .ok answer) :
    (s.step read .openShared).1.shared = true := by
  rw [step] at h ⊢
  split at h
  · rename_i hshared
    rw [if_pos hshared]
    exact hshared
  · rename_i hshared
    rw [if_neg hshared]
    split at h
    · rfl
    · cases h

/-- The shared configuration is there once its settings file has been read. -/
theorem openShared_returns (h : (read s.files s.env envFile).2 = none) :
    (s.step read .openShared).2 = .ok (.shared s.shared) := by
  rw [step]
  cases hshared : s.shared with
  | true => rfl
  | false =>
    rcases hread : read s.files s.env envFile with ⟨env, _ | f⟩
    · simp
    · rw [hread] at h
      cases h

end

/-- What is asked is answered from what the files show and the values of the variables. -/
theorem query_congr {read : SettingsReader} {s t : Session} (hfiles : s.files.Alike t.files)
    (henv : ∀ name, s.env.get? name = t.env.get? name) {a : Step} (h : a.isQuery = true) :
    (s.step read a).2 = (t.step read a).2 := by
  cases a with
  | configPath => simp only [step, Config.namedFile?, henv]
  | load root config => simp only [step, Config.load_congr hfiles henv]
  | debugEnabled => simp only [step, henv]
  | _ => cases h

/-! ### Runs -/

def after (read : SettingsReader) (s : Session) (history : List Step) : Session :=
  (s.run read history).1

section
variable {read : SettingsReader} {held : Files → Environment → Path → Values}

theorem after_cons (s : Session) (a : Step) (rest : List Step) :
    s.after read (a :: rest) = (s.step read a).1.after read rest := rfl

theorem after_append (s : Session) (before rest : List Step) :
    s.after read (before ++ rest) = (s.after read before).after read rest := by
  induction before generalizing s with
  | nil => rfl
  | cons a before ih => exact ih (s.step read a).1

theorem get?_after (gives : GivesUnset read held) {name value : Text} {history : List Step}
    {s : Session} (hset : s.env.get? name = some value)
    (h : ∀ a ∈ history, a.assigned? ≠ some name) :
    (s.after read history).env.get? name = some value := by
  induction history generalizing s with
  | nil => exact hset
  | cons a rest ih =>
    rw [List.forall_mem_cons] at h
    obtain ⟨new, hnew⟩ := exists_get?_step (s := s) gives h.1
    have hkept : (s.step read a).1.env.get? name = some value := by
      rw [hnew, hset, Option.some_or]
    exact ih hkept h.2

theorem shared_after {history : List Step} {s : Session} (h : s.shared = true) :
    (s.after read history).shared = true := by
  induction history generalizing s with
  | nil => exact h
  | cons a rest ih => exact ih (shared_step h)

end

/-- For a reader that gives values to variables that are not set. After any steps, a variable has
the value it was set to before, if no step sets or unsets it. The step that comes next gives values
to unset variables only, the last ones that a settings file holds, where it opens one, and changes
no variable where it opens none and sets and unsets none. The shared configuration opens when its
settings file is read, and once it is open, asking for it changes nothing. Questions change nothing,
and are answered alike by all sessions that show the same files and the same values. -/
theorem first_set_wins {read : SettingsReader} {held : Files → Environment → Path → Values}
    (gives : GivesUnset read held) (s : Session) (history : List Step) {t : Session}
    (reached : s.after read history = t) :
    (∀ name value, s.env.get? name = some value → (∀ a ∈ history, a.assigned? ≠ some name) →
      t.env.get? name = some value) ∧
    (∀ a file, t.opens? a = some file → ∃ given, given <+: (held t.files t.env file).latest ∧
      ((∃ answer, (t.step read a).2 = .ok answer) → given = (held t.files t.env file).latest) ∧
      ∀ name, (t.step read a).1.env.get? name =
        (t.env.get? name).or (given.lookup name).join) ∧
    (∀ file above name value below, held t.files t.env file = above ++ (name, value) :: below →
      (∀ f ∈ below, f.1 ≠ name) →
      (held t.files t.env file).latest.lookup name = some value) ∧
    (∀ a, a.assigned? = none → t.opens? a = none → (t.step read a).1.env = t.env) ∧
    ((read t.files t.env envFile).2 = none →
      (t.step read .openShared).2 = .ok (.shared t.shared)) ∧
    (∀ before between answer, history = before ++ .openShared :: between →
      ((s.after read before).step read .openShared).2 = .ok answer →
      t.step read .openShared = (t, .ok (.shared true))) ∧
    ∀ a, a.isQuery = true → (t.step read a).1 = t ∧
      ∀ u : Session, t.files.Alike u.files → (∀ name, t.env.get? name = u.env.get? name) →
        (t.step read a).2 = (u.step read a).2 := by
  subst reached
  refine ⟨fun name value => get?_after gives, fun a file hopens => ?_,
    fun file above name value below => Values.lookup_latest_of_last,
    fun a => env_step_of_not_opens?, openShared_returns, ?_,
    fun a ha => ⟨step_of_isQuery ha, fun u hfiles henv => query_congr hfiles henv ha⟩⟩
  · obtain ⟨henv, hanswer⟩ := step_of_opens? hopens
    obtain ⟨given, hprefix, hall, hget⟩ :=
      gives (s.after read history).files (s.after read history).env file
    exact ⟨given, hprefix, fun h => hall (hanswer.mp h), fun name => henv ▸ hget name⟩
  · rintro before between answer rfl hanswer
    refine step_openShared ?_
    rw [after_append, after_cons]
    exact shared_after (shared_of_openShared hanswer)

/-- A settings file that sets one variable twice, and one that is set already. -/
def settled : Session :=
  ⟨⟨[Config.textFile ".env" "LEVEL=1\nLEVEL=2\nMODE=soft\n"], [], by decide⟩,
    ⟨[("MODE", "hard")]⟩, false⟩

/-- The shared configuration is opened, and then the settings file is written anew. -/
def rewriting : List Step :=
  [.openShared, .write envFile (.file "LEVEL=3\nPLACE=here\n".toUTF8
    (.mk "program" true none ⟨0, 0, 0, 0⟩ [])), .debugEnabled]

def rewritten : Session := settled.after opened rewriting

/-- Of the two levels the last is taken, and the mode stays. The shared configuration does not
notice the new settings; opening another takes the place from them, and leaves the level. -/
theorem rewritten_first_set_wins :
    rewritten.env.get? "MODE" = some (Text.ofString "hard") ∧
    rewritten.env.get? "LEVEL" = some (Text.ofString "2") ∧
    rewritten.step opened .openShared = (rewritten, .ok (.shared true)) ∧
    (rewritten.step opened (.openConfig none)).1.env.get? "LEVEL" = some (Text.ofString "2") ∧
    (rewritten.step opened (.openConfig none)).1.env.get? "PLACE" = some (Text.ofString "here") ∧
    (rewritten.step opened .debugEnabled).1 = rewritten := by
  obtain ⟨hstays, hopens, hlast, -, -, honce, hask⟩ :=
    first_set_wins opened_givesUnset settled rewriting (t := rewritten) rfl
  have hlevel : rewritten.env.get? "LEVEL" = some (Text.ofString "2") := by decide +kernel
  have hplace : rewritten.env.get? "PLACE" = none := by decide +kernel
  have hheld : (offered rewritten.files rewritten.env envFile).latest.lookup
      (Text.ofString "PLACE") = some (some (Text.ofString "here")) :=
    hlast envFile [("LEVEL", some (Text.ofString "3"))] _ _ [] (by decide +kernel) (by simp)
  obtain ⟨first, hfirst⟩ := Option.isSome_iff_exists.mp
    (show (settled.step opened .openShared).2.toOption.isSome = true by decide +kernel)
  obtain ⟨second, hsecond⟩ := Option.isSome_iff_exists.mp
    (show (rewritten.step opened (.openConfig none)).2.toOption.isSome = true by decide +kernel)
  obtain ⟨given, -, hall, hgiven⟩ := hopens (.openConfig none) envFile rfl
  refine ⟨hstays "MODE" "hard" (by decide) (by decide), hlevel,
    honce [] _ first rfl (eq_ok_of_toOption hfirst), ?_, ?_, (hask .debugEnabled rfl).1⟩
  · rw [hgiven, hlevel, Option.some_or]
  · rw [hgiven, hplace, hall ⟨second, eq_ok_of_toOption hsecond⟩, hheld]
    rfl

end Session
end MutationLint
