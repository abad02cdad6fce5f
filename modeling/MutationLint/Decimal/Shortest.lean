/-! Decimal text of a binary fraction: the fewest digits that read back as the same number, and of
those the nearest to it. Numbers from 1e-4 up to below 1e16 are written positionally. -/

namespace MutationLint.Decimal

/-- The positive number `mantissa * 2 ^ exponent`; the gap below it is halved at a power of two. -/
structure Binary where
  mantissa : Nat
  exponent : Int
  narrow : Bool

/-- Digits with the position of the point: the number is `0.d₁d₂… * 10 ^ point`. -/
structure Digits where
  digits : List Char
  point : Int
  deriving DecidableEq, Repr

structure Ratio where
  num : Nat
  den : Nat

namespace Ratio

def le (a b : Ratio) : Bool := a.num * b.den ≤ b.num * a.den

def lt (a b : Ratio) : Bool := a.num * b.den < b.num * a.den

def scale (r : Ratio) (base : Nat) : Int → Ratio
  | .ofNat k => ⟨r.num * Nat.pow base k, r.den⟩
  | .negSucc k => ⟨r.num, r.den * Nat.pow base (k + 1)⟩

/-- The least number of tenfold steps, below the bound, that brings the fraction to one. -/
def stepsToOne (r : Ratio) : Nat → Nat → Nat
  | 0, k => k
  | bound + 1, k => if r.den ≤ r.num * Nat.pow 10 k then k else stepsToOne r bound (k + 1)

def magnitude (r : Ratio) : Int :=
  if r.den ≤ r.num then ((Nat.toDigits 10 (r.num / r.den)).length : Int) - 1
  else -(stepsToOne r 400 1 : Int)

end Ratio

namespace Binary

def value (b : Binary) : Ratio := (Ratio.mk b.mantissa 1).scale 2 b.exponent

/-- The lower end of the interval of numbers that round to this one. -/
def lower (b : Binary) : Ratio :=
  if b.narrow then (Ratio.mk (4 * b.mantissa - 1) 1).scale 2 (b.exponent - 2)
  else (Ratio.mk (2 * b.mantissa - 1) 1).scale 2 (b.exponent - 1)

def upper (b : Binary) : Ratio := (Ratio.mk (2 * b.mantissa + 1) 1).scale 2 (b.exponent - 1)

/-- Whether a fraction rounds to this number; the ends do when the mantissa is even. -/
def rounds (b : Binary) (r : Ratio) : Bool :=
  if b.mantissa % 2 = 0 then b.lower.le r && r.le b.upper else b.lower.lt r && r.lt b.upper

/-- The neighbour on the grid of `n` digits that reads back, the nearer when both do. -/
def onGrid? (b : Binary) (magnitude : Int) (n : Nat) : Option Nat :=
  let step := magnitude - n + 1
  let scaled := b.value.scale 10 (-step)
  let below := scaled.num / scaled.den
  let rest := scaled.num % scaled.den
  let reads := fun c : Nat => b.rounds ((Ratio.mk c 1).scale 10 step)
  if reads below && reads (below + 1) then
    if 2 * rest < scaled.den then some below
    else if scaled.den < 2 * rest then some (below + 1)
    else some (if below % 2 = 0 then below else below + 1)
  else if reads below then some below
  else if reads (below + 1) then some (below + 1)
  else none

def shortestFrom (b : Binary) (magnitude : Int) : Nat → Nat → Digits
  | 0, n => ⟨Nat.toDigits 10 b.mantissa, n⟩
  | bound + 1, n =>
    match b.onGrid? magnitude n with
    | some c =>
      let digits := Nat.toDigits 10 c
      ⟨(digits.reverse.dropWhile (· == '0')).reverse, magnitude + 1 + (digits.length - n : Nat)⟩
    | none => shortestFrom b magnitude bound (n + 1)

/-- The fewest digits that read back. Seventeen always do. -/
def shortest (b : Binary) : Digits := b.shortestFrom b.value.magnitude 17 1

end Binary

def Digits.text (d : Digits) : String :=
  let n : Int := d.digits.length
  if -4 < d.point && d.point ≤ 16 then
    if d.point ≤ 0 then
      "0." ++ String.ofList (List.replicate (-d.point).toNat '0' ++ d.digits)
    else if n ≤ d.point then
      String.ofList (d.digits ++ List.replicate (d.point - n).toNat '0') ++ ".0"
    else
      let whole := d.point.toNat
      String.ofList (d.digits.take whole) ++ "." ++ String.ofList (d.digits.drop whole)
  else
    let exponent := d.point - 1
    let size := toString exponent.natAbs
    let head := String.ofList (d.digits.take 1)
    let tail := String.ofList (d.digits.drop 1)
    head ++ (if tail.isEmpty then "" else "." ++ tail) ++ "e"
      ++ (if exponent < 0 then "-" else "+") ++ (if size.length < 2 then "0" ++ size else size)

/-- What is written for numbers that have no digits. -/
structure Special where
  nan : String
  infinity : String

def fractions : Nat := 0x10000000000000

def text (special : Special) (x : Float) : String :=
  let bits := x.toBits.toNat
  let sign := if bits < 0x8000000000000000 then "" else "-"
  let biased := bits / fractions % 0x800
  let fraction := bits % fractions
  if biased = 0x7FF then
    if fraction = 0 then sign ++ special.infinity else special.nan
  else if biased = 0 && fraction = 0 then sign ++ "0.0"
  else if biased = 0 then sign ++ (Binary.shortest ⟨fraction, -1074, false⟩).text
  else
    let number : Binary :=
      ⟨fraction + fractions, Int.ofNat biased - 1075, fraction = 0 && 1 < biased⟩
    sign ++ number.shortest.text

end MutationLint.Decimal
