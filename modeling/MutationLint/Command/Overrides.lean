import MutationLint.Value.Basic

/-! Flags of the command line as options that override those of the project. A flag that is not
given overrides nothing. -/

namespace MutationLint.Command

structure Overrides where
  commonjs : Bool := false
  prototypes : Bool := false
  allowThis : Bool := false
  functionProps : Bool := false
  lodashImports : Bool := false
  exceptions : List Text := []
  reducers : Option (List Text) := none
  ignoredMethods : List Text := []
  deriving DecidableEq, Repr

def setIf (given : Bool) (key : Text) (value : Value) : List (Text × Value) :=
  if given then [(key, value)] else []

/-- An exception in the form `object.property`, where a side that is left open is empty. Without a
dot the whole is the object. -/
def parseException (text : Text) : List (Text × Value) :=
  match text.cut '.' with
  | (object, none) => setIf true "object" (.string object)
  | (object, some property) =>
    setIf (!object.isEmpty) "object" (.string object) ++
      setIf (!property.isEmpty) "property" (.string property)

namespace Overrides

def strings (ts : List Text) : Value := .list (ts.map .string)

def flag (key : Text) (on : Bool) : List (Text × Value) := setIf on key (.bool true)

def fields (o : Overrides) : Fields :=
  .ofList
    (flag "commonjs" o.commonjs ++ flag "prototypes" o.prototypes ++
      flag "allowThis" o.allowThis ++ flag "functionProps" o.functionProps ++
      flag "useLodashFunctionImports" o.lodashImports ++
      setIf (!o.exceptions.isEmpty) "exceptions"
        (.list (o.exceptions.map fun e => .object (parseException e))) ++
      setIf o.reducers.isSome "reducers" (strings (o.reducers.getD [])) ++
      setIf (!o.ignoredMethods.isEmpty) "ignoredMethods" (strings o.ignoredMethods))

end Overrides
end MutationLint.Command
