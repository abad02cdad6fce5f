import MutationLint.Text.Case

/-! What a terminal can show. One that is not known to take UTF-8 is given ASCII in place of the
icons used in reports, and none is given codes that would ring the bell or move the cursor. -/

namespace MutationLint

/-- The encoding that standard output declares and the one the locale prefers. -/
structure Terminal where
  encoding : Option Text
  locale : Option Text
  deriving DecidableEq, Repr

namespace Terminal

def utf8 : Terminal := ⟨some (Text.ofString "utf-8"), none⟩

/-- The encoding in use, in small letters: the declared one, else the locale's, else ASCII. -/
def detected (t : Terminal) : Text :=
  match t.encoding with
  | some e => if e.isEmpty then fallback else e.lower
  | none => fallback
where
  fallback : Text := (t.locale.map Text.lower).getD "ascii"

def takesUtf8 (t : Terminal) : Bool :=
  let name := Text.mk (t.detected.marks.map fun m => if m = .char '-' then .char '_' else m)
  name == "utf_8" || name == "utf8"

def icons : List (Char × String) :=
  [('✓', "[OK]"), ('✗', "[FAIL]"), ('⚠', "[WARN]"), ('→', "->"), ('•', "*"), ('…', "..."),
    ('│', "|"), ('─', "-")]

def replace (marks : List Mark) (icon : Char × String) : List Mark :=
  marks.flatMap fun m => if m = .char icon.1 then (Text.ofString icon.2).marks else [m]

/-- The text with the icons replaced, one icon after the other. -/
def plain (text : Text) : Text := ⟨icons.foldl replace text.marks⟩

def sanitize (t : Terminal) (text : Text) : Text := if t.takesUtf8 then text else plain text

def dropped : List Char := ['\x07', '\x08', '\x0b', '\x0c', '\r']

def shown (ms : List Mark) : List Mark := ms.filter fun m => !m.meets dropped.contains

end Terminal
end MutationLint
