import MutationLint.Text.Basic
import MutationLint.Text.Printable
import MutationLint.Text.Utf8

/-! Text between quotes, as it is shown inside messages. Single quotes are used unless the text
holds one and holds no double quote; the quote in use, backslashes and hidden characters are
escaped. -/

namespace MutationLint.Text.Quoted

def quoteFor (t : Text) : Char :=
  if t.containsChar '\'' && !t.containsChar '"' then '"' else '\''

def numbered (code : Nat) : String :=
  if code ≤ 0xFF then "\\x" ++ Utf8.hex 2 code
  else if code ≤ 0xFFFF then "\\u" ++ Utf8.hex 4 code
  else "\\U" ++ Utf8.hex 8 code

def escapeChar (quote c : Char) : String :=
  if c = quote || c = '\\' then "\\" ++ c.toString
  else if c = '\n' then "\\n"
  else if c = '\r' then "\\r"
  else if c = '\t' then "\\t"
  else if isPrintable c then c.toString
  else numbered c.toNat

def escape (quote : Char) : Mark → String
  | .char c => escapeChar quote c
  | .half i => numbered (Mark.half i).code

def encode (t : Text) : String :=
  let quote := quoteFor t
  quote.toString ++ String.join (t.marks.map (escape quote)) ++ quote.toString

end MutationLint.Text.Quoted
