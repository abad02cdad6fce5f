import MutationLint.Value.Reading

/-! Reading JSON text. Besides the standard grammar the words `NaN`, `Infinity` and `-Infinity` are
numbers; an escape may write half of a pair alone, a control character inside a string is refused,
and of a repeated key the last value stands in the first one's place. -/

namespace MutationLint.Json

abbrev Read (α : Type) := Option (α × List Char)

def isBlank (c : Char) : Bool := c = ' ' || c = '\t' || c = '\n' || c = '\r'

def skip (cs : List Char) : List Char := cs.dropWhile isBlank

def word? : List Char → List Char → Option (List Char)
  | [], cs => some cs
  | w :: ws, c :: cs => if w = c then word? ws cs else none
  | _ :: _, [] => none

def hexValue? (c : Char) : Option Nat :=
  if c.isDigit then some (c.toNat - '0'.toNat)
  else if 'a' ≤ c && c ≤ 'f' then some (c.toNat - 'a'.toNat + 10)
  else if 'A' ≤ c && c ≤ 'F' then some (c.toNat - 'A'.toNat + 10)
  else none

def hexNumber? (cs : List Char) : Option Nat :=
  cs.foldl (fun n c => do return (← n) * 16 + (← hexValue? c)) (some 0)

/-- Four hexadecimal digits, with more text behind them. -/
def unit? (cs : List Char) : Read Nat :=
  if (cs.drop 4).isEmpty then none else (hexNumber? (cs.take 4)).map (·, cs.drop 4)

def isHigh (n : Nat) : Bool := 0xD800 ≤ n && n ≤ 0xDBFF

def isLow (n : Nat) : Bool := 0xDC00 ≤ n && n ≤ 0xDFFF

/-- A code unit on its own, which may be half of a pair. -/
def ofUnit (n : Nat) : Mark :=
  if isHigh n || isLow n then .half (Fin.ofNat 0x800 (n - 0xD800)) else .char (Char.ofNat n)

/-- The character beyond the first plane that two halves make. -/
def ofPair (high low : Nat) : Mark :=
  .char (Char.ofNat (0x10000 + (high - 0xD800) * 0x400 + (low - 0xDC00)))

def plainEscape? : Char → Option Char
  | '"' => some '"'
  | '\\' => some '\\'
  | '/' => some '/'
  | 'b' => some '\x08'
  | 'f' => some '\x0C'
  | 'n' => some '\n'
  | 'r' => some '\r'
  | 't' => some '\t'
  | _ => none

def unterminated {α : Type} (string : List Char) : Except Stop α :=
  Reading.stop "Unterminated string starting at" string

/-- The mark a code unit in an escape stands for, together with the next escape when the two are
halves of a pair. -/
def joined (first : Nat) (rest : List Char) : Mark × List Char :=
  match if isHigh first then (word? ['\\', 'u'] rest).bind unit? else none with
  | some (second, rest') =>
    if isLow second then (ofPair first second, rest') else (ofUnit first, rest)
  | none => (ofUnit first, rest)

def escape (string : List Char) : List Char → Reading Mark
  | 'u' :: cs =>
    match unit? cs with
    | some (first, rest) => .ok (joined first rest)
    | none => Reading.stop "Invalid \\uXXXX escape" ('u' :: cs)
  | c :: cs =>
    match plainEscape? c with
    | some e => .ok (.char e, cs)
    | none => Reading.stop "Invalid \\escape" ('\\' :: c :: cs)
  | [] => unterminated string

/-- The rest of a string of which some marks have been read. -/
def stringBody (string : List Char) : Nat → List Mark → List Char → Reading Text
  | 0, _, _ => unterminated string
  | _ + 1, _, [] => unterminated string
  | fuel + 1, seen, c :: cs =>
    if c = '"' then .ok (⟨seen.reverse⟩, cs)
    else if c = '\\' then
      match escape string cs with
      | .error f => .error f
      | .ok (e, rest) => stringBody string fuel (e :: seen) rest
    else if c.toNat < 0x20 then Reading.stop "Invalid control character at" (c :: cs)
    else stringBody string fuel (.char c :: seen) cs

def string (cs : List Char) : Reading Text := stringBody ('"' :: cs) (cs.length + 1) [] cs

def digits (cs : List Char) : List Char × List Char := cs.span Char.isDigit

def fraction : List Char → List Char × List Char
  | '.' :: cs =>
    let (ds, rest) := digits cs
    if ds.isEmpty then ([], '.' :: cs) else (ds, rest)
  | cs => ([], cs)

def exponent? : List Char → Option (Int × List Char)
  | c :: cs =>
    if c = 'e' || c = 'E' then
      let (negative, tail) := match cs with
        | '-' :: r => (true, r)
        | '+' :: r => (false, r)
        | r => (false, r)
      let (ds, rest) := digits tail
      if ds.isEmpty then none
      else some (if negative then -(Reading.natOf ds : Int) else Reading.natOf ds, rest)
    else none
  | [] => none

def valueExpected {α : Type} (cs : List Char) : Except Stop α :=
  Reading.stop "Expecting value" cs

def unsigned (start : List Char) (negative : Bool) (cs : List Char) : Reading Value :=
  let (whole, rest) := match cs with
    | '0' :: r => (['0'], r)
    | _ => digits cs
  if whole.isEmpty then valueExpected start
  else
    let (part, rest') := fraction rest
    match exponent? rest' with
    | some (e, rest'') => .ok (.float (Reading.float negative whole part e), rest'')
    | none =>
      if part.isEmpty then (Reading.integer negative whole).map (·, rest')
      else .ok (.float (Reading.float negative whole part 0), rest')

def number : List Char → Reading Value
  | '-' :: cs =>
    match word? "Infinity".toList cs with
    | some rest => .ok (.float (-1.0 / 0.0), rest)
    | none => unsigned ('-' :: cs) true cs
  | cs => unsigned cs false cs

def words : List (String × Value) :=
  [("null", .null), ("true", .bool true), ("false", .bool false), ("NaN", .float (0.0 / 0.0)),
    ("Infinity", .float (1.0 / 0.0))]

def wordValue? (cs : List Char) : Read Value :=
  words.findSome? fun (w, v) => (word? w.toList cs).map (v, ·)

/-- The key of a member, with the colon and the blanks after it. -/
def memberKey : List Char → Reading Text
  | '"' :: cs =>
    match string cs with
    | .error f => .error f
    | .ok (key, rest) =>
      match skip rest with
      | ':' :: rest => .ok (key, skip rest)
      | rest => Reading.stop "Expecting ':' delimiter" rest
  | cs => Reading.stop "Expecting property name enclosed in double quotes" cs

def commaExpected {α : Type} (cs : List Char) : Except Stop α :=
  Reading.stop "Expecting ',' delimiter" cs

mutual

/-- A value at the head of the text. The fuel bounds the number of values and separators. -/
def value : Nat → List Char → Reading Value
  | 0, cs => valueExpected cs
  | fuel + 1, cs =>
    match cs with
    | '"' :: rest => (string rest).map fun (s, r) => (.string s, r)
    | '[' :: rest =>
      match skip rest with
      | ']' :: r => .ok (.list [], r)
      | r => (items fuel r).map fun (vs, r) => (.list vs, r)
    | '\x7b' :: rest =>
      match skip rest with
      | '\x7d' :: r => .ok (.object [], r)
      | r => (members fuel .empty r).map fun (fs, r) => (.object fs.entries, r)
    | _ =>
      match wordValue? cs with
      | some r => .ok r
      | none => number cs

def items : Nat → List Char → Reading (List Value)
  | 0, cs => valueExpected cs
  | fuel + 1, cs =>
    match value fuel cs with
    | .error f => .error f
    | .ok (v, rest) =>
      match skip rest with
      | ',' :: r => (items fuel (skip r)).map fun (vs, r) => (v :: vs, r)
      | ']' :: r => .ok ([v], r)
      | r => commaExpected r

def members : Nat → Fields → List Char → Reading Fields
  | 0, _, cs => valueExpected cs
  | fuel + 1, seen, cs =>
    match memberKey cs with
    | .error f => .error f
    | .ok (key, rest) =>
      match value fuel rest with
      | .error f => .error f
      | .ok (v, rest) =>
        match skip rest with
        | ',' :: r => members fuel (seen.set key v) (skip r)
        | '\x7d' :: r => .ok (seen.set key v, r)
        | r => commaExpected r

end

/-- The value a whole text holds. No byte order mark may stand before it. -/
def whole (cs : List Char) : Except Stop Value := do
  if cs.head? = some '\uFEFF' then
    Reading.stop "Unexpected UTF-8 BOM (decode using utf-8-sig)" cs
  let (v, rest) ← value (2 * cs.length + 2) (skip cs)
  if (skip rest).isEmpty then return v else Reading.stop "Extra data" (skip rest)

def detail (document : List Char) (reason : String) (rest : List Char) : String :=
  let place := Place.of document rest
  reason ++ ": line " ++ toString place.line ++ " column " ++ toString place.column ++
    " (char " ++ toString place.offset ++ ")"

def read (text : String) : Except ReadFault Value :=
  (whole text.toList).mapError (Stop.fault (detail text.toList))

end MutationLint.Json
