import MutationLint.Files.Basic
import MutationLint.Linter.Basic

/-! Linting files. -/

namespace MutationLint.Linter

/-- Lints a file; nothing for one that is not supported or not readable as text. -/
def lintFile (l : Linter) (fs : Files) (p : Path) : Except FileFault (Option Report) :=
  match Language.ofPath? p with
  | none => .ok none
  | some language => (fs.source? p).map fun s => s.map fun (bytes, tree) =>
    l.lintSource ⟨bytes⟩ language.name tree (some p.text)

end MutationLint.Linter
