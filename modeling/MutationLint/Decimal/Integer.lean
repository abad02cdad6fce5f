/-! Integers in decimal. One of more than `maxDigits` digits is neither read nor written. -/

namespace MutationLint.Decimal

def maxDigits : Nat := 4300

def fits (i : Int) : Bool := i.natAbs < Nat.pow 10 maxDigits

def limitNotice : String :=
  "Exceeds the limit (" ++ toString maxDigits ++ " digits) for integer string conversion"

def limitAdvice : String := "; use sys.set_int_max_str_digits() to increase the limit"

def writeLimit : String := limitNotice ++ limitAdvice

def readLimit (digits : Nat) : String :=
  limitNotice ++ ": value has " ++ toString digits ++ " digits" ++ limitAdvice

end MutationLint.Decimal
