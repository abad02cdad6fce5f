import MutationLint.Exemption.Pattern
import MutationLint.Value.Written

/-! The options of a rule and how they are read from a configuration object. Keys are checked in a
fixed order and the first that is ill-typed is the one reported. -/

namespace MutationLint

structure Options where
  commonjs : Bool := false
  prototypes : Bool := false
  allowThis : Bool := false
  functionProps : Bool := false
  exceptions : List Pattern := []
  reducers : List Text := ["reduce"]
  lodashImports : Bool := false
  ignoredMethods : List Text := []
  deriving DecidableEq, Repr

inductive OptionFault where
  | notFlag (key : String) (value : Value)
  | notNames (key : String) (value : Value)
  | notExceptions (value : Value)
  | notException (value : Value)
  | notExceptionPart (value : Value)
  /-- The options are not an object at all. -/
  | notObject

namespace OptionFault

def message : OptionFault → String
  | .notFlag key v => v.told ("Option '" ++ key ++ "' must be a boolean, got ")
  | .notNames key v => v.told ("Option '" ++ key ++ "' must be a list of strings, got ")
  | .notExceptions v => v.told "Option 'exceptions' must be a list, got "
  | .notException v => v.told "Exception entries must be objects, got "
  | .notExceptionPart v => v.told "Exception 'object'/'property' must be strings, got "
  | .notObject => "Options must be an object"

end OptionFault

namespace Options

/-- The patterns of exempt targets, with that for `this` when it is allowed. -/
def patterns (o : Options) : List Pattern :=
  if o.allowThis then o.exceptions ++ [.ofThis] else o.exceptions

def flag (raw : Fields) (key : String) : Except OptionFault Bool :=
  match raw.get? key with
  | none => .ok false
  | some (.bool b) => .ok b
  | some v => .error (.notFlag key v)

/-- The strings of a list, when it holds nothing else. -/
def strings? : List Value → Option (List Text)
  | [] => some []
  | .string s :: rest => (strings? rest).map (s :: ·)
  | _ :: _ => none

def names (raw : Fields) (key : String) (standard : List Text) :
    Except OptionFault (List Text) :=
  match raw.get? key with
  | none | some .null => .ok standard
  | some (.list vs) =>
    match strings? vs with
    | some ss => .ok ss
    | none => .error (.notNames key (.list vs))
  | some v => .error (.notNames key v)

def side (entry : Fields) (key : String) : Except OptionFault (Option Text) :=
  match entry.get? key with
  | none | some .null => .ok none
  | some (.string s) => .ok (some s)
  | some _ => .error (.notExceptionPart (.object entry.entries))

def exception (v : Value) : Except OptionFault Pattern :=
  match v.object? with
  | some entry => do
    let object ← side entry "object"
    let property ← side entry "property"
    return ⟨object, property, false⟩
  | none => .error (.notException v)

def exceptionList (raw : Fields) : Except OptionFault (List Pattern) :=
  match raw.get? "exceptions" with
  | none => .ok []
  | some v =>
    if v.isBare then .ok []
    else match v with
      | .list vs => vs.mapM exception
      | _ => .error (.notExceptions v)

/-- The options an object gives. Keys it does not know are left alone. -/
def ofFields (raw : Fields) : Except OptionFault Options := do
  let commonjs ← flag raw "commonjs"
  let prototypes ← flag raw "prototypes"
  let allowThis ← flag raw "allowThis"
  let functionProps ← flag raw "functionProps"
  let exceptions ← exceptionList raw
  let reducers ← names raw "reducers" ["reduce"]
  let lodashImports ← flag raw "useLodashFunctionImports"
  let ignoredMethods ← names raw "ignoredMethods" []
  return ⟨commonjs, prototypes, allowThis, functionProps, exceptions, reducers, lodashImports,
    ignoredMethods⟩

/-- The options a value gives; a bare value gives the standard ones. -/
def ofValue (raw : Value) : Except OptionFault Options :=
  if raw.isBare then ofFields .empty
  else match raw.object? with
    | some fields => ofFields fields
    | none => .error .notObject

end Options
end MutationLint
