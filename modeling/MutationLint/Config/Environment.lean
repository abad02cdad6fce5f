import MutationLint.Text.Basic

/-! Environment variables. -/

namespace MutationLint

structure Environment where
  assigned : List (Text × Text)

inductive EnvFault where
  /-- The name or the value cannot be put into bytes. -/
  | notEncodable
  /-- The name or the value holds a zero character. -/
  | zeroByte
  /-- The name holds an equals sign. -/
  | badName
  | emptyName
  deriving DecidableEq, Repr

namespace EnvFault

def message : EnvFault → String
  | .notEncodable => "surrogates not allowed"
  | .zeroByte => "embedded null byte"
  | .badName => "illegal environment variable name"
  | .emptyName => "Invalid argument"

end EnvFault

namespace Environment

def empty : Environment := ⟨[]⟩

def get? (env : Environment) (name : Text) : Option Text := env.assigned.lookup name

def set (env : Environment) (name value : Text) : Environment :=
  ⟨(name, value) :: env.assigned.filter (·.1 != name)⟩

def unset (env : Environment) (name : Text) : Environment :=
  ⟨env.assigned.filter (·.1 != name)⟩

def obstacle? (name value : Text) : Option EnvFault :=
  if !(name ++ value).isEncodable then some .notEncodable
  else if (name ++ value).containsChar '\x00' then some .zeroByte
  else if name.containsChar '=' then some .badName
  else if name.isEmpty then some .emptyName
  else none

def assign (env : Environment) (name value : Text) : Except EnvFault Environment :=
  match obstacle? name value with
  | some f => .error f
  | none => .ok (env.set name value)

def assignNew (env : Environment) (name value : Text) : Except EnvFault Environment :=
  if (env.get? name).isSome then .ok env else env.assign name value

end Environment

abbrev Values := List (Text × Option Text)

namespace Values

/-- Sets a name: in place when it is there, else at the end. -/
def record (known : Values) (name : Text) (value : Option Text) : Values :=
  if known.any (·.1 == name) then known.map fun k => if k.1 == name then (name, value) else k
  else known ++ [(name, value)]

/-- Each name once, with the last of its values. -/
def latest (held : Values) : Values :=
  held.foldl (fun known (name, value) => known.record name value) []

end Values
end MutationLint
