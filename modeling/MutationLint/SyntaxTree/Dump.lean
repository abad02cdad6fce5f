import MutationLint.SyntaxTree.Basic
import MutationLint.Value.Basic

/-! Syntax trees as a parser writes them down: kind, whether it is named, field, first and last
byte, row, column and, unless there are none, the children. -/

namespace MutationLint.SyntaxTree

def number : Value → Int
  | .int i => i
  | _ => 0

def nameOf (v : Value) : String := (v.string?.map Text.plain).getD ""

def isSet : Value → Bool
  | .bool b => b
  | .int i => i != 0
  | _ => false

mutual

/-- The tree a value describes; a value of another shape is an empty program. -/
def ofValue : Value → SyntaxTree
  | .list [kind, named, field, start, stop, row, column, .list children] =>
    .mk (nameOf kind) (isSet named) (field.string?.map Text.plain)
      ⟨number start, number stop, number row, number column⟩ (ofValues children)
  | .list [kind, named, field, start, stop, row, column] =>
    .mk (nameOf kind) (isSet named) (field.string?.map Text.plain)
      ⟨number start, number stop, number row, number column⟩ []
  | _ => blank

def ofValues : List Value → List SyntaxTree
  | [] => []
  | v :: rest => ofValue v :: ofValues rest

end

end MutationLint.SyntaxTree
