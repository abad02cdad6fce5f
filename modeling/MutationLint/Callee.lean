import MutationLint.Node.Chain

/-! Functions that change their first argument, by the name they are called under: the ones of
`Object`, and the ones of lodash under `_` or, where its functions are imported, on their own. -/

namespace MutationLint

namespace Node

/-- The name of a callee: `f`, or `a.f` for a member that is not computed. -/
def qualifiedName? (callee : Node) : Option String :=
  match callee.label with
  | .identifier name => some name
  | .member false _ =>
    match (callee.child? .object).bind identifier?, (callee.child? .property).bind identifier? with
    | some object, some property => some (object ++ "." ++ property)
    | _, _ => none
  | _ => none

end Node

namespace Callee

def objectFunctions : List String :=
  ["Object.assign", "Object.defineProperty", "Object.defineProperties", "Object.setPrototypeOf"]

def lodashFunctions : List String :=
  ["assign", "assignIn", "assignWith", "assignInWith", "defaults", "defaultsDeep", "extend",
    "merge", "mergeWith"]

/-- The text before the last dot and the text after it; without a dot the first is empty. -/
def splitLast (name : List Char) : List Char × List Char :=
  let last := (name.reverse.takeWhile (· != '.')).reverse
  ((name.take (name.length - last.length)).dropLast, last)

def isMutating (lodashImports : Bool) (name : String) : Bool :=
  objectFunctions.contains name ||
    let (space, function) := splitLast name.toList
    let known := lodashFunctions.contains (String.ofList function)
    if space.isEmpty then lodashImports && known else space == ['_'] && known

end Callee
end MutationLint
