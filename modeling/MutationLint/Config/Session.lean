import MutationLint.Config.EnvFile
import MutationLint.Config.Load
import MutationLint.Terminal.Trace

/-! A run of steps on files, environment and configuration. Opening a configuration gives values
to unset variables from a settings file; the shared configuration is opened once. -/

namespace MutationLint

/-- What reads settings files: the environment after a file is read, and what stopped the reading.
-/
abbrev SettingsReader := Files → Environment → Path → Environment × Option ConfigFault

structure Session where
  files : Files
  env : Environment
  shared : Bool

namespace Session

inductive Step where
  | write (path : Path) (entry : Entry)
  | remove (path : Path)
  | setVariable (name value : Text)
  | unsetVariable (name : Text)
  | openConfig (envFile : Option Path)
  | openShared
  | configPath
  | load (root : Path) (config : Option Path)
  | debugEnabled

inductive Answer where
  | done
  /-- Whether the shared configuration was open before. -/
  | shared (before : Bool)
  | path (path : Option Path)
  | project (project : Project)
  | enabled (on : Bool)

/-- The settings file that is read unless another is named. -/
def envFile : Path := Path.here.child ".env"

/-- The reader in use. A file that is not there changes nothing. -/
def opened : SettingsReader := fun fs env file =>
  match fs.find file with
  | .ok (.file bytes _) =>
    match Text.Utf8.decode bytes with
    | .ok text =>
      let (env, fault) := EnvFile.load env text
      (env, fault.map .environment)
    | .error f => (env, some (.notText f))
  | _ => (env, none)

/-- Carries a step out. Of a step that fails only the variables stay that it set before. -/
def step (read : SettingsReader) (s : Session) : Step → Session × Except ConfigFault Answer
  | .write path entry =>
    match s.files.write path entry with
    | .ok files => ({ s with files }, .ok .done)
    | .error f => (s, .error (.file f))
  | .remove path =>
    match s.files.remove path with
    | .ok files => ({ s with files }, .ok .done)
    | .error f => (s, .error (.file f))
  | .setVariable name value =>
    match s.env.assign name value with
    | .ok env => ({ s with env }, .ok .done)
    | .error f => (s, .error (.environment f))
  | .unsetVariable name => ({ s with env := s.env.unset name }, .ok .done)
  | .openConfig file =>
    match read s.files s.env (file.getD envFile) with
    | (env, none) => ({ s with env }, .ok .done)
    | (env, some f) => ({ s with env }, .error f)
  | .openShared =>
    if s.shared then (s, .ok (.shared true))
    else match read s.files s.env envFile with
      | (env, none) => ({ s with env, shared := true }, .ok (.shared false))
      | (env, some f) => ({ s with env }, .error f)
  | .configPath => (s, .ok (.path (Config.namedFile? s.env)))
  | .load root config => (s, (Config.load s.files s.env root config).map .project)
  | .debugEnabled => (s, .ok (.enabled (Trace.isOn (s.env.get? Trace.switch))))

theorem step_openShared {read : SettingsReader} {s : Session} (h : s.shared = true) :
    s.step read .openShared = (s, .ok (.shared true)) := by
  rw [step, if_pos h]

def run (read : SettingsReader) : Session → List Step → Session × List (Except ConfigFault Answer)
  | s, [] => (s, [])
  | s, a :: rest =>
    let (s, answer) := s.step read a
    let (s, answers) := run read s rest
    (s, answer :: answers)

end Session
end MutationLint
