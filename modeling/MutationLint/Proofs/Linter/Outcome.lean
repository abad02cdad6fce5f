import MutationLint.Proofs.Linter.Findings

/-! When linting a source returns, and when a linter can be made. -/

namespace MutationLint.Linter

theorem lintSource_eq_ok_iff {l : Linter} {source : Source} {language : Text} {tree : SyntaxTree}
    {filePath : Option Text} {findings : List Finding} :
    (l.lintSource source language tree filePath).result = .ok findings ↔
      (∃ known, Language.ofName? language = some known) ∧
        ∃ program, tree.program source = .ok program ∧
          (l.lintProgram ⟨source, filePath⟩ program).result = .ok findings := by
  rw [lintSource]
  cases Language.ofName? language with
  | none => simp
  | some known =>
    cases tree.program source with
    | error f => simp
    | ok program => simp

/-- The rules that run are the named ones, each with its options, when every name is known. -/
theorem create_eq_ok_iff {options : OptionSource} {names : Option (List Text)} {l : Linter} :
    create options names = .ok l ↔
      (∀ n ∈ names.getD (Rule.all.map fun r => r.name), ∃ r, Rule.ofName? n = some r) ∧
        l = ⟨((names.getD (Rule.all.map fun r => r.name)).filterMap Rule.ofName?).map
          fun r => (r, options.get r)⟩ := by
  rw [create]
  have hknown (ns : List Text) : (ns.filter fun n => (Rule.ofName? n).isNone) = [] ↔
      ∀ n ∈ ns, ∃ r, Rule.ofName? n = some r := by
    simp only [List.filter_eq_nil_iff, Option.isNone_iff_eq_none, Option.ne_none_iff_exists',
      ← ne_eq]
  rw [← hknown]
  split
  · rename_i h
    simp [h, eq_comm]
  · rename_i h
    simp only [reduceCtorEq, false_iff]
    exact fun hn => h hn.1

end MutationLint.Linter
