import MutationLint.Json.Reader
import MutationLint.Text.Utf8

/-! Dates and times as they stand in a TOML document. -/

namespace MutationLint.Toml

structure Clock where
  hour : Nat
  minute : Nat
  second : Nat
  micros : Nat
  deriving DecidableEq, Repr

structure Date where
  year : Nat
  month : Nat
  day : Nat
  deriving DecidableEq, Repr

/-- A number of exactly `n` digits between two bounds, and the text after it. -/
def fixed? (n low high : Nat) (cs : List Char) : Option (Nat × List Char) :=
  let ds := cs.take n
  if ds.length = n && ds.all Char.isDigit && low ≤ Reading.natOf ds && Reading.natOf ds ≤ high then
    some (Reading.natOf ds, cs.drop n)
  else none

def after? (c : Char) : List Char → Option (List Char)
  | [] => none
  | d :: rest => if c = d then some rest else none

def clock? (cs : List Char) : Option (Clock × List Char) := do
  let (hour, cs) ← fixed? 2 0 23 cs
  let (minute, cs) ← fixed? 2 0 59 (← after? ':' cs)
  let (second, cs) ← fixed? 2 0 59 (← after? ':' cs)
  let (part, rest) := Json.fraction cs
  return (⟨hour, minute, second, Reading.natOf ((part ++ List.replicate 6 '0').take 6)⟩, rest)

def date? (cs : List Char) : Option (Date × List Char) := do
  let (year, cs) ← fixed? 4 0 9999 cs
  let (month, cs) ← fixed? 2 1 12 (← after? '-' cs)
  let (day, cs) ← fixed? 2 1 31 (← after? '-' cs)
  return (⟨year, month, day⟩, cs)

def Date.isLeap (year : Nat) : Bool := year % 4 = 0 && (year % 100 != 0 || year % 400 = 0)

def Date.isReal (d : Date) : Bool :=
  let days :=
    if d.month = 2 then (if isLeap d.year then 29 else 28)
    else if [4, 6, 9, 11].contains d.month then 30 else 31
  0 < d.year && d.day ≤ days

def offset? : List Char → Option (Int × List Char)
  | 'Z' :: rest | 'z' :: rest => some (0, rest)
  | '+' :: rest => (span? rest).map fun (n, r) => ((n : Int), r)
  | '-' :: rest => (span? rest).map fun (n, r) => (-(n : Int), r)
  | _ => none
where
  span? (cs : List Char) : Option (Nat × List Char) := do
    let (hours, cs) ← fixed? 2 0 23 cs
    let (minutes, cs) ← fixed? 2 0 59 (← after? ':' cs)
    return (hours * 3600 + minutes * 60, cs)

def commas (ns : List Nat) : String := ", ".intercalate (ns.map fun n => toString n)

/-- The parts of a time that are written: seconds and their fraction only when they are there. -/
def Clock.parts (c : Clock) : List Nat :=
  [c.hour, c.minute] ++
    if 0 < c.micros then [c.second, c.micros] else if 0 < c.second then [c.second] else []

def Date.parts (d : Date) : List Nat := [d.year, d.month, d.day]

def zone (seconds : Int) : String :=
  if seconds = 0 then "datetime.timezone.utc"
  else
    let days := seconds / 86400
    let lead := if days = 0 then "" else "days=" ++ toString days ++ ", "
    "datetime.timezone(datetime.timedelta(" ++ lead ++ "seconds=" ++ toString (seconds % 86400)
      ++ "))"

/-- A date, a time or both, in written form. An unreal date is read but comes to nothing. -/
def moment? (cs : List Char) : Option (Option String × List Char) :=
  match date? cs with
  | some (d, rest) =>
    let time := match rest with
      | c :: r => if c = 'T' || c = 't' || c = ' ' then clock? r else none
      | [] => none
    let real := fun (s : String) => if d.isReal then some s else none
    match time with
    | none => some (real ("datetime.date(" ++ commas d.parts ++ ")"), rest)
    | some (c, rest) =>
      let parts := commas (d.parts ++ c.parts)
      match offset? rest with
      | some (o, rest) =>
        some (real ("datetime.datetime(" ++ parts ++ ", tzinfo=" ++ zone o ++ ")"), rest)
      | none => some (real ("datetime.datetime(" ++ parts ++ ")"), rest)
  | none =>
    (clock? cs).map fun (c, rest) => (some ("datetime.time(" ++ commas c.parts ++ ")"), rest)

end MutationLint.Toml
