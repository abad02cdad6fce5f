import MutationLint.Config.Environment
import MutationLint.Config.Project
import MutationLint.Json.Reader
import MutationLint.Text.Blank
import MutationLint.Toml.Reader

/-! Finding the configuration of a project. The first source that applies decides: a file that is
named explicitly, the rc file, the section of `pyproject.toml`, the key of `package.json`. -/

namespace MutationLint.Config

def fileVariable : Text := "BETTER_MUTATION_CONFIG"

def rcFile : Text := ".bettermutationrc.json"

def tomlFile : Text := "pyproject.toml"

def tomlSection : Text := "better-mutation"

def packageFile : Text := "package.json"

def packageKey : Text := "betterMutation"

/-- The file the environment names; an empty name is none. -/
def namedFile? (env : Environment) : Option Path :=
  (env.get? fileVariable).bind fun v => if v.isEmpty then none else some (.ofText v)

def readText (fs : Files) (p : Path) : Except ConfigFault String := do
  (Text.Utf8.decode (← (fs.bytes p).mapError .file)).mapError .notText

def ofReadFault (malformed : String → ConfigFault) : ReadFault → ConfigFault
  | .malformed detail => malformed detail
  | .tooManyDigits n => .tooManyDigits n

/-- The value in a JSON file, in which all line endings count as line feeds. -/
def readJson (fs : Files) (p : Path) : Except ConfigFault Value := do
  let text := String.ofList (Text.unixLines (← readText fs p).toList)
  (Json.read text).mapError (ofReadFault (.json p))

def jsonProject (fs : Files) (p : Path) : Except ConfigFault Project := do
  Project.ofValue (← readJson fs p) (some p)

def tomlSection? (fs : Files) (p : Path) : Except ConfigFault (Option Value) := do
  let data ← (Toml.read (← readText fs p)).mapError (ofReadFault (.toml p))
  match data.get? "tool" with
  | none => .ok none
  | some tool =>
    match tool.object? with
    | some tools => .ok (tools.get? tomlSection)
    | none => .error .toolNotTable

/-- The value under the key of a package file, unless it is null. -/
def packageSection? (fs : Files) (p : Path) : Except ConfigFault (Option Value) := do
  match (← readJson fs p).object? with
  | some fields => .ok ((fields.get? packageKey).bind fun v => if v.isNull then none else some v)
  | none => .ok none

/-- What a source of configuration offers: nothing when it does not apply. -/
abbrev Offer := Except ConfigFault (Option Project)

def isThere (fs : Files) (p : Path) : Except ConfigFault Bool := (fs.contains p).mapError .file

/-- The file named by the caller, else by the environment. -/
def explicit (fs : Files) (env : Environment) (config : Option Path) : Offer :=
  match config.or (namedFile? env) with
  | none => .ok none
  | some p => do
    if ← isThere fs p then some <$> jsonProject fs p else .error (.missing p)

def fromRcFile (fs : Files) (root : Path) : Offer := do
  let p := root.child rcFile
  if ← isThere fs p then some <$> jsonProject fs p else return none

def fromSection (fs : Files) (p : Path) (read : Except ConfigFault (Option Value)) : Offer := do
  if ← isThere fs p then
    match ← read with
    | some v => some <$> Project.ofValue v (some p)
    | none => return none
  else return none

def fromToml (fs : Files) (root : Path) : Offer :=
  let p := root.child tomlFile
  fromSection fs p (tomlSection? fs p)

def fromPackage (fs : Files) (root : Path) : Offer :=
  let p := root.child packageFile
  fromSection fs p (packageSection? fs p)

/-- The first source that applies or fails. -/
def firstOf : List (Unit → Offer) → Except ConfigFault Project
  | [] => .ok .empty
  | s :: rest =>
    match s () with
    | .error f => .error f
    | .ok (some p) => .ok p
    | .ok none => firstOf rest

/-- The configuration of the project at `root`. -/
def load (fs : Files) (env : Environment) (root : Path) (config : Option Path) :
    Except ConfigFault Project :=
  firstOf [fun _ => explicit fs env config, fun _ => fromRcFile fs root, fun _ => fromToml fs root,
    fun _ => fromPackage fs root]

end MutationLint.Config
