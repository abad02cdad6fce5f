import MutationLint.Linter.Basic
import MutationLint.Proofs.Rule.Violation
import MutationLint.Proofs.Walk

/-! One walk serves all rules. What a rule records on it is what it would find on a walk of its own,
wherever it stands among the active rules, so that a run returns when every check does, with the
findings of the rules sorted together. -/

namespace MutationLint.Linter

variable {c : FileContext} {program : Node}

def findingsOf (c : FileContext) (program : Node) (active : Rule × Options) : List Finding :=
  (Site.walk program).filterMap fun s =>
    (active.1.check active.2 c s).toOption.bind Verdict.finding?

theorem filterMap_zipIdx {α β : Type} (f : α → Option β) (l : List α) (place : Nat) :
    ∀ start, ((l.zipIdx start).filterMap fun a => if a.2 = start + place then f a.1 else none) =
      (l[place]?.bind f).toList := by
  induction l generalizing place with
  | nil => simp
  | cons a rest ih =>
    intro start
    cases place with
    | zero =>
      have hrest : ((rest.zipIdx (start + 1)).filterMap fun b =>
          if b.2 = start then f b.1 else none) = [] := by
        rw [List.filterMap_eq_nil_iff]
        intro b hb
        have := List.le_snd_of_mem_zipIdx hb
        rw [if_neg (by omega)]
      cases hf : f a <;> simp [hf, hrest]
    | succ place =>
      have h := ih place (start + 1)
      rw [Nat.add_right_comm, Nat.add_assoc] at h
      simpa using h

/-- A rule records on the shared walk what it finds on a walk of its own. -/
theorem recorded_answers {active : List (Rule × Options)} {a : Rule × Options} {place : Nat}
    (h : active[place]? = some a) :
    recorded (answers active c program) place = findingsOf c program a := by
  rw [recorded, answers, calls, Site.dispatch, List.filter_map, List.filterMap_map,
    List.filterMap_filter, List.filterMap_flatMap, findingsOf, List.filterMap_eq_flatMap_toList]
  refine List.flatMap_congr fun s _ => ?_
  rw [List.filterMap_map, List.filterMap_filter]
  have hsite := filterMap_zipIdx
    (fun a : Rule × Options => (a.1.check a.2 c s).toOption.bind Verdict.finding?) active place 0
  rw [h, Option.bind_some] at hsite
  rw [← hsite]
  refine List.filterMap_congr fun x _ => ?_
  -- a rule that is not called at a site would have nothing to say there
  cases hh : x.1.1.handles s.label with
  | true => simp
  | false => simp [Rule.check_of_not_handles hh, Except.toOption, Verdict.finding?]

/-- One walk for all rules finds what a walk for each rule does. -/
theorem flatMap_recorded_answers (active : List (Rule × Options)) :
    (List.range active.length).flatMap (recorded (answers active c program)) =
      active.flatMap (findingsOf c program) := by
  have hplaces : active.zipIdx.flatMap (fun a => findingsOf c program a.1) =
      (List.range active.length).flatMap (recorded (answers active c program)) := by
    rw [List.range_eq_range', ← List.zipIdx_map_snd, List.flatMap_map]
    exact List.flatMap_congr fun a ha =>
      (recorded_answers (List.mem_zipIdx_iff_getElem?.mp ha)).symm
  rw [← hplaces, ← List.flatMap_map, List.zipIdx_map_fst]

/-! ### When a run returns -/

def Returns (l : Linter) (c : FileContext) (program : Node) : Prop :=
  ∀ active ∈ l.active, ∀ s ∈ Site.walk program, ∃ v, active.1.check active.2 c s = .ok v

theorem faultOf?_eq_none_iff {as : List Answer} :
    faultOf? as = none ↔ ∀ a ∈ as, ∃ v, a.verdict = .ok v := by
  induction as with
  | nil => simp [faultOf?]
  | cons a rest ih =>
    obtain ⟨place, r, e⟩ := a
    cases e <;> simp [faultOf?, ih]

theorem mem_answers {active : List (Rule × Options)} {a : Answer} :
    a ∈ answers active c program ↔ ∃ s ∈ Site.walk program, ∃ o,
      active[a.place]? = some (a.rule, o) ∧ a.rule.handles s.label ∧
        a.verdict = a.rule.check o c s := by
  obtain ⟨place, r, e⟩ := a
  simp only [answers, calls, Site.dispatch, List.mem_map, List.mem_flatMap, List.mem_filter,
    List.mem_zipIdx_iff_getElem?]
  constructor
  · rintro ⟨_, ⟨s, hs, ⟨⟨r, o⟩, place⟩, ⟨ha, hh⟩, rfl⟩, he⟩
    cases he
    exact ⟨s, hs, o, ha, hh, rfl⟩
  · rintro ⟨s, hs, o, ha, hh, rfl⟩
    exact ⟨_, ⟨s, hs, ((r, o), place), ⟨ha, hh⟩, rfl⟩, rfl⟩

theorem returns_iff {l : Linter} : l.Returns c program ↔
    faultOf? (answers l.active c program) = none := by
  rw [faultOf?_eq_none_iff]
  constructor
  · intro h a ha
    obtain ⟨s, hs, o, hactive, -, he⟩ := mem_answers.mp ha
    rw [he]
    exact h (a.rule, o) (List.mem_of_getElem? hactive) s hs
  · rintro h ⟨r, o⟩ hactive s hs
    cases hh : r.handles s.label with
    | false => exact ⟨.allowed, Rule.check_of_not_handles hh⟩
    | true =>
      obtain ⟨place, hplace⟩ := List.getElem?_of_mem hactive
      exact h ⟨place, r, r.check o c s⟩ (mem_answers.mpr ⟨s, hs, o, hplace, hh, rfl⟩)

/-- A run returns when every check of its rules does, and then returns what each rule finds on a
walk of its own, sorted together. -/
theorem lintProgram_eq_ok_iff {l : Linter} {findings : List Finding} :
    (l.lintProgram c program).result = .ok findings ↔ l.Returns c program ∧
      findings = (l.active.flatMap (findingsOf c program)).mergeSort Finding.le := by
  rw [returns_iff, lintProgram, flatMap_recorded_answers]
  cases faultOf? (answers l.active c program) with
  | some f => simp
  | none => simp [eq_comm]

end MutationLint.Linter
