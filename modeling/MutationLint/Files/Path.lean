import MutationLint.Text.Basic

/-! Paths as lists of components. Empty components and single dots are dropped, double dots are
kept; the path without components is the working directory. -/

namespace MutationLint

structure Path where
  /-- The slashes in front: none, one, or exactly two. -/
  root : String
  parts : List Text
  deriving DecidableEq, Repr

namespace Path

def split (marks : List Mark) : List Text :=
  let (parts, last) := marks.foldr
    (fun m (acc : List (List Mark) × List Mark) =>
      if m = .char '/' then (acc.2 :: acc.1, []) else (acc.1, m :: acc.2)) ([], [])
  (last :: parts).map Text.mk

def up : Text := ".."

def keeps (part : Text) : Bool := !part.isEmpty && part != "."

def ofText (t : Text) : Path :=
  let slashes := (t.marks.takeWhile (· == .char '/')).length
  let root := if slashes = 0 then "" else if slashes = 2 then "//" else "/"
  ⟨root, (split t.marks).filter keeps⟩

def here : Path := ⟨"", []⟩

def text (p : Path) : Text :=
  if p.root.isEmpty && p.parts.isEmpty then "."
  else Text.ofString p.root ++ Text.intercalate "/" p.parts

def child (p : Path) (part : Text) : Path := ⟨p.root, p.parts ++ [part]⟩

def append (p : Path) (parts : List Text) : Path := ⟨p.root, p.parts ++ parts⟩

def parent (p : Path) : Path := ⟨p.root, p.parts.dropLast⟩

/-- Where the components lead from a place when each `..` takes back the one before it. -/
def flat (p : Path) (start : List Text) : List Text :=
  p.parts.foldl (fun place part => if part = up then place.dropLast else place ++ [part]) start

def fileName (p : Path) : Text := p.parts.getLast?.getD ""

/-- The last dot of the file name and what follows, unless the dot comes first or last. -/
def suffix (p : Path) : Text :=
  let name := p.fileName.marks
  let tail := (name.reverse.takeWhile (· != .char '.')).reverse
  if tail.isEmpty || name.length ≤ tail.length + 1 then ""
  else ⟨.char '.' :: tail⟩

def partsLe : List Text → List Text → Bool
  | [], _ => true
  | _ :: _, [] => false
  | a :: as, b :: bs => if a = b then partsLe as bs else a.le b

end Path
end MutationLint
