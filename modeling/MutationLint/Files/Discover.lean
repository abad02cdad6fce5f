import MutationLint.Files.Basic
import MutationLint.Language

/-! The files to lint: a file that is given stands for itself, a directory for the supported files
below it that do not lie in vendored or generated code, in the order of their components. -/

namespace MutationLint.Files

def excluded : List Text :=
  ["node_modules", "bower_components", "vendor", "third_party", "dist", "build", "coverage", ".git",
    ".next", ".nuxt", ".cache"]

/-- What is kept of the entries below a place: a supported file that nothing excludes. -/
def kept? (e : List Text × Entry) : Option (List Text) :=
  if e.2.isFile && (Language.ofPath? ⟨"", e.1⟩).isSome && !e.1.any excluded.contains then some e.1
  else none

def lintable (fs : Files) (place : List Text) : List (List Text) :=
  ((fs.below place).filterMap kept?).mergeSort Path.partsLe

/-- How far a search for files has come: those it has found, and the fault that ended it. -/
structure Search where
  found : List Path := []
  fault? : Option FileFault := none

namespace Search

def andThen (s t : Search) : Search :=
  if s.fault?.isSome then s else { t with found := s.found ++ t.found }

/-- All that is found when no fault ends the search. -/
def result (s : Search) : Except FileFault (List Path) :=
  match s.fault? with
  | some f => .error f
  | none => .ok s.found

end Search

/-- Searches the directory that a path leads to. The system is asked to list every directory below
it before any file is looked at. Neither works by a path that is too long. -/
def searchBelow (fs : Files) (p : Path) (place : List Text) : Search :=
  let paths := (fs.lintable place).map p.append
  if (fs.below place).all fun (parts, entry) => entry.isFile || (p.append parts).isShort then
    { found := paths.takeWhile Path.isShort
      fault? := if paths.all Path.isShort then none else some .nameTooLong }
  else { fault? := some .nameTooLong }

def searchAt (fs : Files) (p : Path) : Search :=
  match fs.locate p with
  | .error f => { fault? := if f.isAbsence then none else some f }
  | .ok place =>
    match fs.at? place with
    | some (.file _ _) => { found := [p] }
    | some .directory => fs.searchBelow p place
    | none => {}

def search (fs : Files) : List Path → Search
  | [] => {}
  | p :: rest => (fs.searchAt p).andThen (fs.search rest)

def discover (fs : Files) (paths : List Path) : Except FileFault (List Path) :=
  (fs.search paths).result

end MutationLint.Files
