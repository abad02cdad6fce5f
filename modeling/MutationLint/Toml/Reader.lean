import MutationLint.Text.Quoted
import MutationLint.Toml.Moment

/-! Reading TOML documents. A table may be opened once, a key set once, and inline tables and lists
cannot be added to afterwards; any breach refuses the document. -/

namespace MutationLint.Toml

abbrev Read (α : Type) := Option (α × List Char)

abbrev Key := List Text

def isBlank (c : Char) : Bool := c = ' ' || c = '\t'

def skip (cs : List Char) : List Char := cs.dropWhile isBlank

def isControl (c : Char) : Bool := (c.toNat < 0x20 && c != '\t') || c.toNat = 0x7F

def quoted (cs : List Char) : String := Text.Quoted.encode (.ofChars cs)

/-- A stretch of a text, in which no character may be illegal, and the text after it. -/
def stretch (isIllegal : Char → Bool) (body rest : List Char) : Reading (List Char) :=
  match body.dropWhile (!isIllegal ·) with
  | [] => .ok (body, rest)
  | c :: after => Reading.stop ("Found invalid character " ++ quoted [c]) (c :: after ++ rest)

def comment : List Char → Except Stop (List Char)
  | '#' :: cs =>
    let body := cs.takeWhile (· != '\n')
    (stretch isControl body (cs.drop body.length)).map (·.2)
  | cs => .ok cs

def skipLines : Nat → List Char → Except Stop (List Char)
  | 0, cs => .ok cs
  | fuel + 1, cs =>
    match cs.dropWhile fun c => isBlank c || c = '\n' with
    | '#' :: rest =>
      match comment ('#' :: rest) with
      | .error f => .error f
      | .ok rest => skipLines fuel rest
    | rest => .ok rest

def gap (cs : List Char) : Except Stop (List Char) := skipLines (cs.length + 1) cs

def cut? (word : List Char) : List Char → Option (List Char × List Char)
  | [] => none
  | c :: cs =>
    match Json.word? word (c :: cs) with
    | some rest => some ([], rest)
    | none => (cut? word cs).map fun (body, rest) => (c :: body, rest)

def closedBy (word : List Char) (isIllegal : Char → Bool) (cs : List Char) : Reading (List Char) :=
  match cut? word cs with
  | some (body, rest) =>
    match stretch isIllegal body (word ++ rest) with
    | .error f => .error f
    | .ok (body, _) => .ok (body, rest)
  | none => Reading.stop ("Expected " ++ quoted word) []

def literal (cs : List Char) : Reading Text :=
  (closedBy ['\''] isControl cs).map fun (body, rest) => (.ofChars body, rest)

def scalar (n : Nat) (cs : List Char) : Reading (List Char) :=
  match if (cs.take n).length = n then Json.hexNumber? (cs.take n) else none with
  | none => Reading.stop "Invalid hex value" cs
  | some code =>
    if code.isValidChar then .ok ([Char.ofNat code], cs.drop n)
    else Reading.stop "Escaped character is not a Unicode scalar value" (cs.drop n)

def escapes : List (Char × Char) :=
  [('b', '\x08'), ('t', '\t'), ('n', '\n'), ('f', '\x0C'), ('r', '\r'), ('"', '"'), ('\\', '\\')]

def unescaped {α : Type} (cs : List Char) : Except Stop α :=
  Reading.stop "Unescaped '\\' in a string" cs

/-- The text after a line end that a backslash takes away, with the white space that follows. -/
def foldedLine (cs : List Char) : Except Stop (List Char) :=
  match skip cs with
  | [] => .ok []
  | '\n' :: rest => .ok (rest.dropWhile fun c => isBlank c || c = '\n')
  | rest => unescaped rest

/-- What an escape stands for, read from behind its backslash. In a string over several lines it may
take a line end away. -/
def escape (overLines : Bool) : List Char → Reading (List Char)
  | 'u' :: cs => scalar 4 cs
  | 'U' :: cs => scalar 8 cs
  | c :: cs =>
    if overLines && (isBlank c || c = '\n') then (foldedLine (c :: cs)).map ([], ·)
    else match escapes.lookup c with
      | some e => .ok ([e], cs)
      | none => unescaped cs
  | [] => unescaped []

/-- Up to two quotes directly before the closing ones belong to the string. -/
def extraQuotes (quote : Char) (cs : List Char) : List Char × List Char :=
  let extra := (cs.take 2).takeWhile (· == quote)
  (extra, cs.drop extra.length)

def basicBody (overLines : Bool) : Nat → List Char → List Char → Reading Text
  | 0, _, cs => Reading.stop "Unterminated string" cs
  | _ + 1, _, [] => Reading.stop "Unterminated string" []
  | fuel + 1, seen, c :: cs =>
    if c = '"' && !overLines then .ok (.ofChars seen.reverse, cs)
    else if c = '"' && cs.take 2 == ['"', '"'] then
      let (extra, rest) := extraQuotes '"' (cs.drop 2)
      .ok (.ofChars (seen.reverse ++ extra), rest)
    else if c = '\\' then
      match escape overLines cs with
      | .error f => .error f
      | .ok (e, rest) => basicBody overLines fuel (e ++ seen) rest
    else if isControl c && !(overLines && c = '\n') then
      Reading.stop ("Illegal character " ++ quoted [c]) (c :: cs)
    else basicBody overLines fuel (c :: seen) cs

def basic (cs : List Char) : Reading Text := basicBody false (cs.length + 1) [] cs

def dropFirstLine : List Char → List Char
  | '\n' :: cs => cs
  | cs => cs

def basicLines (cs : List Char) : Reading Text :=
  basicBody true (cs.length + 1) [] (dropFirstLine cs)

def literalLines (cs : List Char) : Reading Text :=
  (closedBy (List.replicate 3 '\'') (fun c => isControl c && c != '\n') (dropFirstLine cs)).map
    fun (body, rest) =>
      let (extra, rest) := extraQuotes '\'' rest
      (.ofChars (body ++ extra), rest)

def isBare (c : Char) : Bool := c.isAlphanum || c = '-' || c = '_'

def keyPart : List Char → Reading Text
  | '\'' :: cs => literal cs
  | '"' :: cs => basic cs
  | cs =>
    let part := cs.takeWhile isBare
    if part.isEmpty then Reading.stop "Invalid initial character for a key part" cs
    else .ok (.ofChars part, cs.drop part.length)

/-- A key: parts with dots between them, and white space round the dots. -/
def keyFrom : Nat → List Char → Reading Key
  | 0, cs => .ok ([], cs)
  | fuel + 1, cs =>
    match keyPart cs with
    | .error f => .error f
    | .ok (part, rest) =>
      match skip rest with
      | '.' :: rest => (keyFrom fuel (skip rest)).map fun (parts, r) => (part :: parts, r)
      | rest => .ok ([part], rest)

def key (cs : List Char) : Reading Key := keyFrom (cs.length + 1) cs

def shownKey (key : Key) : String :=
  let parts := key.map Text.Quoted.encode
  "(" ++ ", ".intercalate parts ++ (if parts.length = 1 then ",)" else ")")

/-- Digits of a class, with single underscores between them; the underscores are left out. -/
def digits (isDigit : Char → Bool) : List Char → List Char × List Char
  | [] => ([], [])
  | [c] => if isDigit c then ([c], []) else ([], [c])
  | c :: d :: rest =>
    if isDigit c then
      match d, rest with
      | '_', e :: _ =>
        if isDigit e then let (ds, r) := digits isDigit rest; (c :: ds, r) else ([c], d :: rest)
      | _, _ => let (ds, r) := digits isDigit (d :: rest); (c :: ds, r)
    else ([], c :: d :: rest)

def isHex (c : Char) : Bool := (Json.hexValue? c).isSome

def ofBase (base : Nat) (ds : List Char) : Nat :=
  ds.foldl (fun n d => n * base + (Json.hexValue? d).getD 0) 0

def based? (mark : Char) (base : Nat) (isDigit : Char → Bool) (cs : List Char) : Read Value :=
  match cs with
  | '0' :: m :: rest =>
    let (ds, r) := digits isDigit rest
    if m = mark && !ds.isEmpty then some (.int (ofBase base ds), r) else none
  | _ => none

def sign : List Char → Bool × List Char
  | '-' :: cs => (true, cs)
  | '+' :: cs => (false, cs)
  | cs => (false, cs)

def fraction (cs : List Char) : List Char × List Char :=
  match cs with
  | '.' :: rest =>
    let (ds, r) := digits Char.isDigit rest
    if ds.isEmpty then ([], cs) else (ds, r)
  | _ => ([], cs)

def exponent? (cs : List Char) : Option (Int × List Char) :=
  match cs with
  | c :: rest =>
    if c = 'e' || c = 'E' then
      let (negative, rest) := sign rest
      let (ds, r) := digits Char.isDigit rest
      if ds.isEmpty then none
      else some (if negative then -(Reading.natOf ds : Int) else Reading.natOf ds, r)
    else none
  | [] => none

def valueInvalid {α : Type} (cs : List Char) : Except Stop α := Reading.stop "Invalid value" cs

def decimal (start : List Char) : Reading Value :=
  let (negative, cs) := sign start
  let (whole, rest) := match cs with
    | '0' :: r => (['0'], r)
    | _ => digits Char.isDigit cs
  if whole.isEmpty then valueInvalid start
  else
    let (part, rest) := fraction rest
    match exponent? rest with
    | some (e, rest) => .ok (.float (Reading.float negative whole part e), rest)
    | none =>
      if part.isEmpty then (Reading.integer negative whole).map (·, rest)
      else .ok (.float (Reading.float negative whole part 0), rest)

def specialNumber? (cs : List Char) : Read Value :=
  let (negative, rest) := sign cs
  match Json.word? "inf".toList rest, Json.word? "nan".toList rest with
  | some r, _ => some (.float (if negative then -1.0 / 0.0 else 1.0 / 0.0), r)
  | none, some r => some (.float (0.0 / 0.0), r)
  | none, none => none

def unusualNumber? (cs : List Char) : Read Value :=
  (based? 'x' 16 isHex cs).or <| (based? 'b' 2 (fun c => c = '0' || c = '1') cs).or <|
    (based? 'o' 8 (fun c => c.isDigit && c < '8') cs).or (specialNumber? cs)

def number (cs : List Char) : Reading Value :=
  match unusualNumber? cs with
  | some r => .ok r
  | none => decimal cs

def scalarValue (cs : List Char) : Reading Value :=
  match Json.word? "true".toList cs, Json.word? "false".toList cs with
  | some rest, _ => .ok (.bool true, rest)
  | none, some rest => .ok (.bool false, rest)
  | none, none =>
    match moment? cs with
    | some (some m, rest) => .ok (.moment m, rest)
    | some (none, _) => Reading.stop "Invalid date or datetime" cs
    | none => number cs

def string? : List Char → Option (Reading Text)
  | '"' :: '"' :: '"' :: rest => some (basicLines rest)
  | '"' :: rest => some (basic rest)
  | '\'' :: '\'' :: '\'' :: rest => some (literalLines rest)
  | '\'' :: rest => some (literal rest)
  | _ => none

/-- What is told when a key stands for something else already. -/
def overwriting : String := "Cannot overwrite a value"

/-- What is told when something is added to a table or list that is closed. -/
def mutating (key : Key) : String := "Cannot mutate immutable namespace " ++ shownKey key

/-- Changes the table under a key, making the tables on the way. Where lists of tables may be
entered, their last table is meant. A change that is refused is told why. -/
def alter (intoLists : Bool) (f : Fields → Except String Fields) :
    Key → Fields → Except String Fields
  | [], fields => f fields
  | k :: ks, fields =>
    match fields.get? k with
    | none =>
      (alter intoLists f ks .empty).map fun inner => fields.set k (.object inner.entries)
    | some (.object inner) =>
      (alter intoLists f ks (.ofList inner)).map fun inner =>
        fields.set k (.object inner.entries)
    | some (.list vs) =>
      match intoLists, vs.getLast? with
      | true, some (.object inner) =>
        (alter intoLists f ks (.ofList inner)).map fun inner =>
          fields.set k (.list (vs.dropLast ++ [.object inner.entries]))
      | _, _ => .error overwriting
    | some _ => .error overwriting

def insertNew (reason : String) (key : Text) (value : Value) (fields : Fields) :
    Except String Fields :=
  if (fields.get? key).isSome then .error reason else .ok (fields.set key value)

def isNest : Value → Bool
  | .object _ | .list _ => true
  | _ => false

def assignedKey (cs : List Char) : Reading Key :=
  match key cs with
  | .error f => .error f
  | .ok (key, '=' :: rest) => .ok (key, skip rest)
  | .ok (_, rest) => Reading.stop "Expected '=' after a key in a key/value pair" rest

/-- The end of a list item: the text of the next item, or nothing when the list is closed. -/
def nextItem (cs : List Char) : Reading Bool :=
  match gap cs with
  | .error f => .error f
  | .ok (']' :: rest) => .ok (false, rest)
  | .ok (',' :: rest) => (gap rest).map (true, ·)
  | .ok rest => Reading.stop "Unclosed array" rest

def nextPair (cs : List Char) : Reading Bool :=
  match skip cs with
  | '\x7d' :: rest => .ok (false, rest)
  | ',' :: rest => .ok (true, skip rest)
  | rest => Reading.stop "Unclosed inline table" rest

/-- Adds a pair to an inline table. Keys below a closed value are refused. -/
def addPair (closed : List Key) (seen : Fields) (key : Key) (v : Value) : Except String Fields :=
  let stem := key.getLast?.getD ""
  if closed.any (·.isPrefixOf key) then .error (mutating key)
  else
    let reason := "Duplicate inline table key " ++ Text.Quoted.encode stem
    alter false (insertNew reason stem v) key.dropLast seen

mutual

def value : Nat → List Char → Reading Value
  | 0, cs => valueInvalid cs
  | fuel + 1, cs =>
    match string? cs with
    | some r => r.map fun (s, rest) => (.string s, rest)
    | none =>
      match cs with
      | '[' :: rest =>
        match gap rest with
        | .error f => .error f
        | .ok rest => (items fuel rest).map fun (vs, r) => (.list vs, r)
      | '\x7b' :: rest =>
        match skip rest with
        | '\x7d' :: r => .ok (.object [], r)
        | r => (pairs fuel [] .empty r).map fun (fs, r) => (.object fs.entries, r)
      | _ => scalarValue cs

def items : Nat → List Char → Reading (List Value)
  | 0, cs => valueInvalid cs
  | _ + 1, ']' :: rest => .ok ([], rest)
  | fuel + 1, cs =>
    match value fuel cs with
    | .error f => .error f
    | .ok (v, rest) =>
      match nextItem rest with
      | .error f => .error f
      | .ok (false, rest) => .ok ([v], rest)
      | .ok (true, rest) => (items fuel rest).map fun (vs, r) => (v :: vs, r)

def pairs : Nat → List Key → Fields → List Char → Reading Fields
  | 0, _, _, cs => valueInvalid cs
  | fuel + 1, closed, seen, cs =>
    match assignedKey cs with
    | .error f => .error f
    | .ok (key, rest) =>
      match value fuel rest with
      | .error f => .error f
      | .ok (v, rest) =>
        match addPair closed seen key v with
        | .error reason => Reading.stop reason rest
        | .ok seen =>
          match nextPair rest with
          | .error f => .error f
          | .ok (false, rest) => .ok (seen, rest)
          | .ok (true, rest) =>
            pairs fuel (if isNest v then key :: closed else closed) seen rest

end

/-- The state of a document: its tables, which keys may not be opened again, which may not be added
to, which will not be opened after this section, and the table that pairs now go to. -/
structure Document where
  data : Fields := .empty
  opened : List Key := []
  closed : List Key := []
  pending : List Key := []
  header : Key := []

namespace Document

def isOpened (d : Document) (key : Key) : Bool := d.opened.contains key

/-- The key, or a table it lies in, is closed. -/
def isClosed (d : Document) (key : Key) : Bool := d.closed.any (·.isPrefixOf key)

/-- A new section begins, so that tables made by dotted keys count as opened. -/
def settle (d : Document) : Document := { d with opened := d.pending ++ d.opened, pending := [] }

def openTable (d : Document) (key : Key) : Except String Document :=
  let d := d.settle
  if d.isOpened key || d.isClosed key then .error ("Cannot declare " ++ shownKey key ++ " twice")
  else (alter true .ok key d.data).map fun data =>
    { d with data := data, opened := key :: d.opened, header := key }

def appendTable (key : Text) (fields : Fields) : Except String Fields :=
  match fields.get? key with
  | none => .ok (fields.set key (.list [.object []]))
  | some (.list vs) => .ok (fields.set key (.list (vs ++ [.object []])))
  | some _ => .error overwriting

def openItem (d : Document) (key : Key) : Except String Document :=
  let d := d.settle
  if d.isClosed key then .error (mutating key)
  else
    let kept := fun ks : List Key => ks.filter fun k => !key.isPrefixOf k
    (alter true (appendTable (key.getLast?.getD "")) key.dropLast d.data).map fun data =>
      { d with
        data := data, opened := key :: kept d.opened, closed := kept d.closed, header := key }

def inner (key : Key) : List Key := ((List.range key.length).drop 1).map key.take

def assign (d : Document) (key : Key) (value : Value) : Except String Document :=
  let passed := (inner key).map (d.header ++ ·)
  let parent := d.header ++ key.dropLast
  match passed.find? d.isOpened with
  | some found => .error ("Cannot redefine namespace " ++ shownKey found)
  | none =>
    if d.isClosed parent then .error (mutating parent)
    else
      (alter true (insertNew overwriting (key.getLast?.getD "") value) parent d.data).map
        fun data =>
          { d with
            data := data
            pending := passed ++ d.pending
            closed := if isNest value then (d.header ++ key) :: d.closed else d.closed }

end Document

/-- A header from behind its opening brackets: its table is opened before the closing ones are
looked at. -/
def header (openKey : Key → Except String Document) (closing : List Char) (reason : String)
    (cs : List Char) : Reading Document :=
  match key (skip cs) with
  | .error f => .error f
  | .ok (key, rest) =>
    match openKey key with
    | .error reason => Reading.stop reason rest
    | .ok d =>
      match Json.word? closing rest with
      | some rest => .ok (d, rest)
      | none => Reading.stop reason rest

def pair (d : Document) (cs : List Char) : Reading Document :=
  match assignedKey cs with
  | .error f => .error f
  | .ok (key, rest) =>
    match value (2 * rest.length + 2) rest with
    | .error f => .error f
    | .ok (v, rest) =>
      match d.assign key v with
      | .error reason => Reading.stop reason rest
      | .ok d => .ok (d, rest)

/-- One statement and the text after it. A comment is none, and changes nothing. -/
def statement (d : Document) : List Char → Reading Document
  | '[' :: '[' :: rest =>
    header d.openItem [']', ']'] "Expected ']]' at the end of an array declaration" rest
  | '[' :: rest => header d.openTable [']'] "Expected ']' at the end of a table declaration" rest
  | '#' :: rest => .ok (d, '#' :: rest)
  | c :: rest =>
    if isBare c || c = '"' || c = '\'' then pair d (c :: rest)
    else Reading.stop "Invalid statement" (c :: rest)
  | [] => .ok (d, [])

/-- The text after a comment and the end of the line; nothing where the document ends. -/
def endLine (cs : List Char) : Reading Bool :=
  match comment (skip cs) with
  | .error f => .error f
  | .ok [] => .ok (false, [])
  | .ok ('\n' :: rest) => .ok (true, rest)
  | .ok rest => Reading.stop "Expected newline or end of document after a statement" rest

def statements : Nat → Document → List Char → Except Stop Document
  | 0, d, _ => .ok d
  | fuel + 1, d, cs =>
    match skip cs with
    | [] => .ok d
    | '\n' :: rest => statements fuel d rest
    | rest =>
      match statement d rest with
      | .error f => .error f
      | .ok (d, rest) =>
        match endLine rest with
        | .error f => .error f
        | .ok (false, _) => .ok d
        | .ok (true, rest) => statements fuel d rest

def lineFeeds : List Char → List Char
  | '\r' :: '\n' :: cs => '\n' :: lineFeeds cs
  | c :: cs => c :: lineFeeds cs
  | [] => []

def detail (document : List Char) (reason : String) (rest : List Char) : String :=
  let place := Place.of document rest
  reason ++ " (at " ++
    (if rest.isEmpty then "end of document"
      else "line " ++ toString place.line ++ ", column " ++ toString place.column) ++ ")"

def read (text : String) : Except ReadFault Fields :=
  let cs := lineFeeds text.toList
  ((statements (cs.length + 1) {} cs).map (·.data)).mapError (Stop.fault (detail cs))

end MutationLint.Toml
