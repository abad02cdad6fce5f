import MutationLint.Decimal.Integer
import MutationLint.Decimal.Shortest
import MutationLint.Text.Quoted
import MutationLint.Value.Basic

/-! The text of a value inside a message. -/

namespace MutationLint.Value

def special : Decimal.Special := ⟨"nan", "inf"⟩

mutual

def written : Value → String
  | .null => "None"
  | .bool true => "True"
  | .bool false => "False"
  | .int i => toString i
  | .float x => Decimal.text special x
  | .string s => Text.Quoted.encode s
  | .moment m => m
  | .list items => "[" ++ ", ".intercalate (writtenItems items) ++ "]"
  | .object fields => "\x7b" ++ ", ".intercalate (writtenFields fields) ++ "\x7d"

def writtenItems : List Value → List String
  | [] => []
  | v :: rest => v.written :: writtenItems rest

def writtenFields : List (Text × Value) → List String
  | [] => []
  | (k, v) :: rest => (Text.Quoted.encode k ++ ": " ++ v.written) :: writtenFields rest

end

mutual

def fits : Value → Bool
  | .int i => Decimal.fits i
  | .list items => fitsItems items
  | .object fields => fitsFields fields
  | _ => true

def fitsItems : List Value → Bool
  | [] => true
  | v :: rest => v.fits && fitsItems rest

def fitsFields : List (Text × Value) → Bool
  | [] => true
  | (_, v) :: rest => v.fits && fitsFields rest

end

/-- A sentence that ends with a value. For a value that cannot be written, the complaint about it
takes the place of the sentence. -/
def told (v : Value) (lead : String) : String :=
  if v.fits then lead ++ v.written else Decimal.writeLimit

/-- The text of a value that stands alone: a string is shown without quotes. -/
def shown : Value → Text
  | .string s => s
  | v => v.written

end MutationLint.Value
