/-! Text that comes from outside the program. It is a list of marks: characters, and halves of
surrogate pairs that stand alone, which an escape can write though no encoding can. -/

namespace MutationLint

inductive Mark where
  | char (c : Char)
  /-- The code unit `0xD800 + offset`. -/
  | half (offset : Fin 0x800)
  deriving DecidableEq, Repr

namespace Mark

def code : Mark → Nat
  | .char c => c.toNat
  | .half i => 0xD800 + i.val

def char? : Mark → Option Char
  | .char c => some c
  | .half _ => none

def meets (p : Char → Bool) : Mark → Bool
  | .char c => p c
  | .half _ => false

end Mark

structure Text where
  marks : List Mark
  deriving DecidableEq, Repr

namespace Text

def ofChars (cs : List Char) : Text := ⟨cs.map .char⟩

def ofString (s : String) : Text := ofChars s.toList

instance : Coe String Text := ⟨ofString⟩

instance : Inhabited Text := ⟨⟨[]⟩⟩

instance : Append Text := ⟨fun a b => ⟨a.marks ++ b.marks⟩⟩

def isEmpty (t : Text) : Bool := t.marks.isEmpty

def length (t : Text) : Nat := t.marks.length

def join (ts : List Text) : Text := ⟨ts.flatMap marks⟩

def intercalate (separator : Text) (ts : List Text) : Text :=
  ⟨List.intercalate separator.marks (ts.map marks)⟩

def containsChar (t : Text) (c : Char) : Bool := t.marks.contains (.char c)

/-- The characters, when no half stands alone. -/
def chars? (t : Text) : Option (List Char) := t.marks.mapM Mark.char?

def string? (t : Text) : Option String := t.chars?.map String.ofList

/-- The characters, with the replacement character for a half. -/
def plain (t : Text) : String :=
  String.ofList (t.marks.map fun m => m.char?.getD (Char.ofNat 0xFFFD))

/-- The text before the first mark of a kind and the text behind it; without one, all and
nothing. -/
def cut (t : Text) (c : Char) : Text × Option Text :=
  let head := t.marks.takeWhile (· != .char c)
  (⟨head⟩, match t.marks.drop head.length with
    | [] => none
    | _ :: rest => some ⟨rest⟩)

def le (a b : Text) : Bool := !((b.marks.map Mark.code) < (a.marks.map Mark.code))

/-- The number of bytes of a mark in UTF-8. A lone second half that stands for a byte is one. -/
def markBytes : Mark → Nat
  | .char c => c.utf8Size
  | .half _ => 1

def byteSize (t : Text) : Nat := (t.marks.map markBytes).foldl (· + ·) 0

/-- Halves that stand for bytes which are not text. -/
def isByte (offset : Fin 0x800) : Bool := 0x480 ≤ offset.val && offset.val < 0x500

def isEncodable (t : Text) : Bool :=
  t.marks.all fun m => match m with
    | .char _ => true
    | .half i => isByte i

@[simp] theorem marks_ofChars (cs : List Char) : (ofChars cs).marks = cs.map .char := rfl

@[simp] theorem marks_append (a b : Text) : (a ++ b).marks = a.marks ++ b.marks := rfl

theorem ofChars_inj {a b : List Char} (h : ofChars a = ofChars b) : a = b := by
  have hm : a.map Mark.char = b.map Mark.char := congrArg marks h
  exact (List.map_inj_right (by intro x y; simp)).mp hm

theorem ofString_inj {a b : String} (h : ofString a = ofString b) : a = b :=
  String.toList_inj.mp (ofChars_inj h)

theorem ofString_eq_iff {a b : String} : ofString a = ofString b ↔ a = b :=
  ⟨ofString_inj, congrArg ofString⟩

/-! ### Lists with texts for keys -/

theorem lookup_cons {α : Type} (k : Text) (v : α) (l : List (Text × α)) (name : Text) :
    ((k, v) :: l).lookup name = if name = k then some v else l.lookup name := by
  by_cases h : name = k
  · simp [h]
  · simp [List.lookup_cons, h, beq_false_of_ne h]

theorem lookup_filter_ne {α : Type} (l : List (Text × α)) (name other : Text) :
    (l.filter (·.1 != name)).lookup other = if other = name then none else l.lookup other := by
  induction l with
  | nil => simp
  | cons x rest ih =>
    obtain ⟨k, v⟩ := x
    by_cases hk : k = name
    · rw [List.filter_cons_of_neg (by simpa using hk), ih, lookup_cons]
      by_cases ho : other = name <;> simp [ho, hk]
    · rw [List.filter_cons_of_pos (by simpa using hk), lookup_cons, lookup_cons, ih]
      by_cases ho : other = k <;> simp [ho, hk]

end Text
end MutationLint
