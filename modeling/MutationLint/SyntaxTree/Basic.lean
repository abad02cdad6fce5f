/-! Concrete syntax trees of JavaScript and TypeScript sources, as a parser gives them: each node
has the grammar's name for it, the field its parent holds it under, and its place in the bytes. -/

namespace MutationLint

/-- A stretch of source bytes and the position of its start, both counted from zero. An offset below
zero counts from the end of the source. -/
structure Extent where
  start : Int
  stop : Int
  row : Int
  column : Int
  deriving DecidableEq, Repr, Inhabited

namespace Extent

def origin : Extent := ⟨0, 0, 0, 0⟩

def line (e : Extent) : Int := e.row + 1

def Within (a b : Extent) : Prop := b.start ≤ a.start ∧ a.stop ≤ b.stop

end Extent

inductive SyntaxTree where
  | mk (kind : String) (named : Bool) (field : Option String) (extent : Extent)
      (children : List SyntaxTree)

namespace SyntaxTree

def kind : SyntaxTree → String
  | .mk k _ _ _ _ => k

def named : SyntaxTree → Bool
  | .mk _ n _ _ _ => n

def field : SyntaxTree → Option String
  | .mk _ _ f _ _ => f

def extent : SyntaxTree → Extent
  | .mk _ _ _ e _ => e

def children : SyntaxTree → List SyntaxTree
  | .mk _ _ _ _ cs => cs

def blank : SyntaxTree := .mk "program" true none .origin []

mutual

def size : SyntaxTree → Nat
  | .mk _ _ _ _ cs => sizeAll cs + 1

def sizeAll : List SyntaxTree → Nat
  | [] => 0
  | t :: rest => t.size + sizeAll rest

end

def field? (t : SyntaxTree) (name : String) : Option SyntaxTree :=
  t.children.find? (·.field == some name)

def hasToken (t : SyntaxTree) (kind : String) : Bool := t.children.any (·.kind == kind)

theorem size_pos (t : SyntaxTree) : 0 < t.size := by
  cases t; simp [size]

theorem size_eq (t : SyntaxTree) : t.size = sizeAll t.children + 1 := by
  cases t; simp [size, children]

theorem size_le_sizeAll {t : SyntaxTree} {ts : List SyntaxTree} (h : t ∈ ts) :
    t.size ≤ sizeAll ts := by
  induction ts with
  | nil => simp at h
  | cons u rest ih =>
    simp only [sizeAll]
    rcases List.mem_cons.mp h with rfl | h
    · omega
    · have := ih h; omega

theorem size_lt_of_mem {t c : SyntaxTree} (h : c ∈ t.children) : c.size < t.size := by
  have := size_le_sizeAll h
  rw [size_eq t]; omega

theorem mem_of_field? {t c : SyntaxTree} {name : String} (h : t.field? name = some c) :
    c ∈ t.children := List.mem_of_find?_eq_some h

end SyntaxTree
end MutationLint
