import MutationLint.Config.Environment
import MutationLint.Text.Blank

/-! Files of variable settings. A line sets a variable to a bare or quoted value, which may refer to
other variables; a line that cannot be read is passed over. -/

namespace MutationLint.EnvFile

open Text

abbrev Read (α : Type) := Option (α × List Char)

def skipInline (cs : List Char) : List Char := cs.dropWhile isInlineBlank

/-- The text after the word that may stand before a name. -/
def skipExport (cs : List Char) : List Char :=
  let word := "export".toList
  let rest := cs.drop word.length
  if word.isPrefixOf cs && (rest.head?.map isInlineBlank).getD false then skipInline rest else cs

def singleQuotedKey? (cs : List Char) : Read Text :=
  let body := cs.takeWhile (· != '\'')
  match cs.drop body.length with
  | _ :: rest => if body.isEmpty then none else some (.ofChars body, rest)
  | [] => none

def bareKey? (cs : List Char) : Read Text :=
  let body := cs.takeWhile fun c => c != '=' && c != '#' && !isBlank c
  if body.isEmpty then none else some (.ofChars body, cs.drop body.length)

def key? : List Char → Read (Option Text)
  | '#' :: cs => some (none, '#' :: cs)
  | '\'' :: cs => (singleQuotedKey? cs).map fun (k, r) => (some k, r)
  | cs => (bareKey? cs).map fun (k, r) => (some k, r)

/-- The text up to the first quote that no backslash precedes, and the text behind the quote. Where
there is none, a quote that a backslash precedes ends the text, the last of them. -/
def quoted? (quote : Char) : List Char → Read (List Char)
  | [] => none
  | '\\' :: c :: rest =>
    if c = quote then
      match quoted? quote rest with
      | some (body, r) => some ('\\' :: c :: body, r)
      | none => some (['\\'], rest)
    else (quoted? quote (c :: rest)).map fun (body, r) => ('\\' :: body, r)
  | c :: rest =>
    if c = quote then some ([], rest)
    else (quoted? quote rest).map fun (body, r) => (c :: body, r)

def unescape (table : List (Char × Char)) : List Char → List Char
  | '\\' :: c :: rest =>
    match table.lookup c with
    | some d => d :: unescape table rest
    | none => '\\' :: unescape table (c :: rest)
  | c :: rest => c :: unescape table rest
  | [] => []

def singleEscapes : List (Char × Char) := [('\\', '\\'), ('\'', '\'')]

def doubleEscapes : List (Char × Char) :=
  [('\\', '\\'), ('\'', '\''), ('"', '"'), ('a', '\x07'), ('b', '\x08'), ('f', '\x0C'),
    ('n', '\n'), ('r', '\r'), ('t', '\t'), ('v', '\x0B')]

/-- A bare value without the comment that follows white space. -/
def cutComment : List Char → List Char
  | [] => []
  | c :: rest =>
    if isBlank c && (rest.dropWhile isBlank).head? == some '#' then [] else c :: cutComment rest

def bareValue (cs : List Char) : List Char × List Char :=
  let line := cs.takeWhile fun c => c != '\n' && c != '\r'
  (trimEnd (cutComment line), cs.drop line.length)

def value? : List Char → Read (List Char)
  | '\'' :: cs => (quoted? '\'' cs).map fun (b, r) => (unescape singleEscapes b, r)
  | '"' :: cs => (quoted? '"' cs).map fun (b, r) => (unescape doubleEscapes b, r)
  | cs => some (bareValue cs)

/-- The text after a comment and the end of the line, if nothing else is left of the line. -/
def endLine? (cs : List Char) : Option (List Char) :=
  let rest := match skipInline cs with
    | '#' :: r => r.dropWhile (· != '\n')
    | r => r
  match rest with
  | [] => some []
  | '\n' :: r => some r
  | _ => none

def skipLine (cs : List Char) : List Char := (cs.dropWhile (· != '\n')).drop 1

abbrev Setting := Text × Option (List Char)

/-- Reads the setting at the head of the text. Where it cannot be read, the place it failed at is
given. -/
def setting (cs : List Char) : Except (List Char) (Option Setting × List Char) := do
  let start := skipExport cs
  match key? start with
  | none => .error start
  | some (key, rest) =>
    let rest := skipInline rest
    let (value, rest) ← match rest with
      | '=' :: r =>
        let r := skipInline r
        match value? r with
        | some (v, r') => .ok (some v, r')
        | none => .error r
      | _ => .ok (none, rest)
    match endLine? rest with
    | some r => .ok (key.map (·, value), r)
    | none =>
      .error (match skipInline rest with
        | '#' :: r => r.dropWhile (· != '\n')
        | _ => rest)

def settingsFrom : Nat → List Char → List Setting
  | 0, _ => []
  | fuel + 1, cs =>
    match cs.dropWhile isBlank with
    | [] => []
    | start =>
      match setting start with
      | .ok (s, rest) => s.toList ++ settingsFrom fuel rest
      | .error place => settingsFrom fuel (skipLine place)

def settings (text : String) : List Setting :=
  let cs := unixLines text.toList
  settingsFrom (cs.length + 1) cs

/-- A reference to a variable, read from behind its opening brace: the name and the default. -/
def reference? (cs : List Char) : Read (List Char × Option (List Char)) :=
  let name := cs.takeWhile fun c => c != '\x7d' && c != ':'
  match cs.drop name.length with
  | '\x7d' :: rest => some ((name, none), rest)
  | ':' :: '-' :: rest =>
    let standard := rest.takeWhile (· != '\x7d')
    match rest.drop standard.length with
    | _ :: r => some ((name, some standard), r)
    | [] => none
  | _ => none

def expand (lookup : Text → Option Text) : Nat → List Char → List Mark
  | 0, _ => []
  | fuel + 1, cs =>
    match cs with
    | [] => []
    | '$' :: '\x7b' :: rest =>
      match reference? rest with
      | some ((name, standard), r) =>
        let found := (lookup (.ofChars name)).or (standard.map Text.ofChars)
        (found.map Text.marks).getD [] ++ expand lookup fuel r
      | none => .char '$' :: expand lookup fuel ('\x7b' :: rest)
    | c :: rest => .char c :: expand lookup fuel rest

/-- A value with its references replaced. They see the environment first and then what stands
above. -/
def expanded (env : Environment) (above : Values) (value : List Char) : Text :=
  let lookup := fun n => (env.get? n).or ((above.reverse.lookup n).map (·.getD ""))
  ⟨expand lookup (value.length + 1) value⟩

def assignments (env : Environment) (ss : List Setting) : Values :=
  ss.foldl (fun above s => above ++ [(s.1, s.2.map (expanded env above))]) []

/-- Gives values to the variables that are not set, one after the other. The first that cannot be
set ends it, with those before it set. -/
def assignAll : Environment → Values → Environment × Option EnvFault
  | env, [] => (env, none)
  | env, (_, none) :: rest => assignAll env rest
  | env, (name, some value) :: rest =>
    match env.assignNew name value with
    | .ok env => assignAll env rest
    | .error f => (env, some f)

def load (env : Environment) (text : String) : Environment × Option EnvFault :=
  assignAll env (assignments env (settings text)).latest

end MutationLint.EnvFile
