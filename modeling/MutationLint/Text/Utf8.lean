/-! Bytes read as UTF-8 text. When they are not text, the first ill-formed stretch is located and
the reason it is refused is named. -/

namespace MutationLint.Text.Utf8

inductive Reason where
  | startByte
  | continuation
  | ends
  deriving DecidableEq, Repr

def Reason.text : Reason → String
  | .startByte => "invalid start byte"
  | .continuation => "invalid continuation byte"
  | .ends => "unexpected end of data"

/-- An ill-formed stretch: where it starts, where it stops, its first byte and why. -/
structure Fault where
  start : Nat
  stop : Nat
  byte : UInt8
  reason : Reason
  deriving DecidableEq, Repr

/-- A sequence that has begun: the bytes it still needs and the bounds of the next one. -/
structure Pending where
  start : Nat
  lead : UInt8
  missing : Nat
  low : UInt8
  high : UInt8

def opens? (start : Nat) (b : UInt8) : Option Pending :=
  if b < 0xC2 then none
  else if b < 0xE0 then some ⟨start, b, 1, 0x80, 0xBF⟩
  else if b < 0xF0 then
    some ⟨start, b, 2, if b = 0xE0 then 0xA0 else 0x80, if b = 0xED then 0x9F else 0xBF⟩
  else if b < 0xF5 then
    some ⟨start, b, 3, if b = 0xF0 then 0x90 else 0x80, if b = 0xF4 then 0x8F else 0xBF⟩
  else none

/-- The first ill-formed stretch of the bytes from position `pos` on. -/
def fault? (pos : Nat) : Option Pending → List UInt8 → Option Fault
  | none, [] => none
  | some p, [] => some ⟨p.start, pos, p.lead, .ends⟩
  | none, b :: rest =>
    if b < 0x80 then fault? (pos + 1) none rest
    else match opens? pos b with
      | some p => fault? (pos + 1) (some p) rest
      | none => some ⟨pos, pos + 1, b, .startByte⟩
  | some p, b :: rest =>
    if p.low ≤ b ∧ b ≤ p.high then
      if p.missing = 1 then fault? (pos + 1) none rest
      else fault? (pos + 1) (some ⟨p.start, p.lead, p.missing - 1, 0x80, 0xBF⟩) rest
    else some ⟨p.start, pos, p.lead, .continuation⟩

def decode (bytes : ByteArray) : Except Fault String :=
  match String.fromUTF8? bytes with
  | some text => .ok text
  | none => .error ((fault? 0 none bytes.toList).getD ⟨0, bytes.size, 0, .ends⟩)

def hex (width n : Nat) : String :=
  let digits := Nat.toDigits 16 n
  String.ofList (List.replicate (width - digits.length) '0' ++ digits)

def Fault.message (f : Fault) : String :=
  let place :=
    if f.stop = f.start + 1 then
      "byte 0x" ++ hex 2 f.byte.toNat ++ " in position " ++ toString f.start
    else "bytes in position " ++ toString f.start ++ "-" ++ toString (f.stop - 1)
  "'utf-8' codec can't decode " ++ place ++ ": " ++ f.reason.text

end MutationLint.Text.Utf8
