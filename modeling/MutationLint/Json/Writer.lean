import MutationLint.Decimal.Shortest
import MutationLint.Text.Utf8
import MutationLint.Value.Basic

/-! Writing a value as JSON on one line. Half of a pair that stands alone is escaped. -/

namespace MutationLint.Json

def special : Decimal.Special := ⟨"NaN", "Infinity"⟩

def escaped : Mark → String
  | .half i => "\\u" ++ Text.Utf8.hex 4 (Mark.half i).code
  | .char c =>
    if c = '"' then "\\\""
    else if c = '\\' then "\\\\"
    else if c.toNat < 0x20 || c.toNat = 0x7F then "\\u" ++ Text.Utf8.hex 4 c.toNat
    else c.toString

def quoted (t : Text) : String := "\"" ++ String.join (t.marks.map escaped) ++ "\""

mutual

def write : Value → String
  | .null => "null"
  | .bool b => if b then "true" else "false"
  | .int i => toString i
  | .float x => Decimal.text special x
  | .string s => quoted s
  | .moment m => quoted m
  | .list items => "[" ++ ",".intercalate (writeItems items) ++ "]"
  | .object fields => "\x7b" ++ ",".intercalate (writeFields fields) ++ "\x7d"

def writeItems : List Value → List String
  | [] => []
  | v :: rest => write v :: writeItems rest

def writeFields : List (Text × Value) → List String
  | [] => []
  | (k, v) :: rest => (quoted k ++ ":" ++ write v) :: writeFields rest

end

end MutationLint.Json
