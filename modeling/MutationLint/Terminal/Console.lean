import MutationLint.Terminal.Encoding
import MutationLint.Text.Columns
import MutationLint.Value.Written

/-! Printing values. Strings and plain values that follow one another share a line; a list or an
object stands on a line of its own. -/

namespace MutationLint.Terminal

/-- A string as the terminal can show it; any other value as it is. -/
def sanitized (t : Terminal) : Value → Value
  | .string s => .string (t.sanitize s)
  | v => v

/-- What the console is handed of values to print. -/
def handed (t : Terminal) (values : List Value) : List Value :=
  if t.takesUtf8 then values else values.map t.sanitized

/-- A value that stands on its own line. -/
def isBlock : Value → Bool
  | .list _ | .object _ => true
  | _ => false

def word : Value → Text
  | .string s => ⟨shown s.marks⟩
  | v => v.written

/-- The lines for values, after the words already on the current line. -/
def linesAfter : List Text → List Value → List Text
  | [], [] => []
  | words, [] => [Text.intercalate " " words]
  | words, v :: rest =>
    if isBlock v then
      (if words.isEmpty then [] else [Text.intercalate " " words]) ++
        Text.ofString v.written :: linesAfter [] rest
    else linesAfter (words ++ [word v]) rest

def render (values : List Value) : Text :=
  if values.isEmpty then "\n"
  else Text.join ((linesAfter [] values).map fun line => line.expandTabs ++ "\n")

def print (t : Terminal) (values : List Value) : Text := render (t.handed values)

end MutationLint.Terminal
