import MutationLint.Decimal.Integer
import MutationLint.Value.Basic

/-! What reading a document comes to: a value and the text after it, or what stopped the reading.
The first thing that stops it counts, and its place is told by the text that remains there. -/

namespace MutationLint

inductive ReadFault where
  /-- The text breaks the grammar, in the way that is told. -/
  | malformed (detail : String)
  /-- An integer has more digits than are read. -/
  | tooManyDigits (count : Nat)
  deriving DecidableEq, Repr

/-- What stops the reading of a document. -/
inductive Stop where
  /-- The text breaks the grammar at its end that is given. -/
  | malformed (reason : String) (rest : List Char)
  | tooManyDigits (count : Nat)

/-- A place in a document; lines and columns are counted from 1. -/
structure Place where
  line : Nat
  column : Nat
  offset : Nat

/-- The place in a document at which a part of it remains. -/
def Place.of (document rest : List Char) : Place :=
  let before := document.take (document.length - rest.length)
  { line := before.count '\n' + 1
    column := (before.reverse.takeWhile (· != '\n')).length + 1
    offset := before.length }

def Stop.fault (detail : String → List Char → String) : Stop → ReadFault
  | .malformed reason rest => .malformed (detail reason rest)
  | .tooManyDigits n => .tooManyDigits n

abbrev Reading (α : Type) := Except Stop (α × List Char)

namespace Reading

def stop {α : Type} (reason : String) (rest : List Char) : Except Stop α :=
  .error (.malformed reason rest)

def natOf (ds : List Char) : Nat := ds.foldl (fun n d => n * 10 + (d.toNat - '0'.toNat)) 0

def integer (negative : Bool) (ds : List Char) : Except Stop Value :=
  if Decimal.maxDigits < ds.length then .error (.tooManyDigits ds.length)
  else .ok (.int (if negative then -(natOf ds : Int) else natOf ds))

/-- The number written by the digits of a whole part, a fraction and an exponent. Its magnitude is
told by the first digit that is not zero, so that what is out of range is never computed. -/
def float (negative : Bool) (whole fraction : List Char) (exponent : Int) : Float :=
  let digits := (whole ++ fraction).dropWhile (· == '0')
  let scale := exponent - fraction.length
  let magnitude := scale + digits.length
  let x :=
    if digits.isEmpty then 0.0
    else if 400 < magnitude then 1.0 / 0.0
    else if magnitude < -400 then 0.0
    else Float.ofScientific (natOf digits) (scale < 0) scale.natAbs
  if negative then -x else x

end Reading
end MutationLint
