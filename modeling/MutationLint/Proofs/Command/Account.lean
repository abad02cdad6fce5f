import MutationLint.Proofs.Command.Configuration
import MutationLint.Proofs.Config.FirstSet
import MutationLint.Proofs.Linter.Findings

/-! The account that a check gives of its files. A check that cannot start says so, exits with 2 and
lints nothing. Otherwise every file it discovers is unsupported, unreadable or checked, what is
printed says which, and the exit code tells whether there are findings. -/

namespace MutationLint

namespace Files

variable {fs fs' : Files}

theorem ask_eq (fs : Files) (p : Path) (question : Bool → Bool) :
    (fs.ask p fun e => question e.isFile) = match fs.view p with
      | .error f => .error f
      | .ok .nothing => .ok false
      | .ok .directory => .ok (question false)
      | .ok (.file _) => .ok (question true) := by
  rw [ask, view]
  cases fs.find p with
  | ok e => cases e <;> rfl
  | error f => cases hf : f.isAbsence <;> simp [hf]

theorem Alike.contains (h : fs.Alike fs') (p : Path) : fs.contains p = fs'.contains p := by
  refine (ask_eq fs p fun _ => true).trans ?_
  rw [h p]
  exact (ask_eq fs' p fun _ => true).symm

theorem Alike.isDirectory (h : fs.Alike fs') (p : Path) :
    fs.isDirectory p = fs'.isDirectory p := by
  refine (ask_eq fs p (!·)).trans ?_
  rw [h p]
  exact (ask_eq fs' p (!·)).symm

theorem discover_eq_ok_iff {paths found : List Path} : fs.discover paths = .ok found ↔
    (fs.search paths).fault? = none ∧ (fs.search paths).found = found := by
  rw [discover, Search.result]
  cases (fs.search paths).fault? with
  | none => simp
  | some f => simp

end Files

namespace Command

open Config

/-! ### A check that cannot start -/

section
variable {fs fs' : Files} {w : World} {a : CheckArguments} {paths : List Text}

theorem missing?_congr (h : fs.Alike fs') (paths : List Text) :
    missing? fs paths = missing? fs' paths := by
  induction paths with
  | nil => rfl
  | cons p rest ih => rw [missing?, missing?, h.contains, ih]

theorem configure_congr (h : w.files.Alike fs') (a : CheckArguments) (paths : List Text) :
    configure { w with files := fs' } a paths = configure w a paths := by
  have hroot : projectRoot fs' paths = projectRoot w.files paths := by
    rw [projectRoot, projectRoot, h.isDirectory]
  have hload (env : Environment) (root : Path) (config : Option Path) :
      load fs' env root config = load w.files env root config :=
    (load_congr h (fun _ => rfl) root config).symm
  simp only [configure, hroot, ← Session.opened_congr h, hload]

/-- Every path that is given is there. -/
def Present (w : World) (a : CheckArguments) : Prop :=
  ∀ p ∈ a.given, w.files.contains (.ofText p) = .ok true

/-- The ways to be refused, and what is then left behind: the first path that is not seen to exist
does not exist, or the configuration has a fault that is reported. -/
inductive Refusal (w : World) (a : CheckArguments) : Outcome → Prop
  | path {p : Text} : StopsAt w.files a.given p (.ok false) →
      Refusal w a (refuse "Error:" [.markup "Path does not exist: ", .verbatim p])
  | configuration {root : Path} {f : ConfigFault} : Present w a →
      projectRoot w.files a.given = .ok root → Misconfigured (w.started a) a root f →
      f.isReported = true → Refusal w a (refuse "Configuration error:" [.verbatim f.message])

def search (w : World) (a : CheckArguments) : Files.Search :=
  w.files.search (a.given.map Path.ofText)

/-- How a check goes, and what it leaves behind. -/
inductive Course (w : World) (a : CheckArguments) : Outcome → Prop
  | refused {o : Outcome} : Refusal w a o → Course w a o
  /-- The system does not tell whether a path exists. -/
  | untold {p : Text} {f : FileFault} : StopsAt w.files a.given p (.error f) →
      Course w a (.ofEscape (.file f))
  | unreported {f : ConfigFault} : Present w a →
      configure (w.started a) a a.given = .error f → f.isReported = false →
      Course w a (.ofEscape (.config f))
  /-- A fault ends the search. -/
  | lost {env : Environment} {l : Linter} {f : FileFault} : Present w a →
      configure (w.started a) a a.given = .ok (env, l) → (search w a).fault? = some f →
      Course w a ((report (w.started a) env l (search w a).found).thenFault (.file f))
  | finished {env : Environment} {l : Linter} : Present w a →
      configure (w.started a) a a.given = .ok (env, l) → (search w a).fault? = none →
      Course w a (report (w.started a) env l (search w a).found)

theorem exit_report (w : World) (env : Environment) (l : Linter) (found : List Path) :
    (report w env l found).exit ≠ 2 := by
  unfold report
  dsimp only
  split
  · simp [Outcome.ofEscape]
  · dsimp only
    split <;> simp

theorem exit_thenFault {o : Outcome} (h : o.exit ≠ 2) (e : Escape) : (o.thenFault e).exit ≠ 2 := by
  unfold Outcome.thenFault
  split_ifs
  · exact h
  · simp [Outcome.ofEscape]

theorem check_of_stopsAt {p : Text} {f : FileFault} (h : StopsAt w.files a.given p (.error f)) :
    check w a = .ofEscape (.file f) := by
  rw [check_eq, missing?_of_stopsAt h]
  rfl

theorem check_of_refusal {o : Outcome} (h : Refusal w a o) : check w a = o := by
  cases h with
  | path hstops =>
    rw [check_eq, missing?_of_stopsAt hstops]
    rfl
  | configuration hpresent hroot hmis hreported =>
    rw [← files_started w a] at hroot
    rw [check_of_existing hpresent, checkPaths_of_error ((configure_eq_error_iff hroot).mpr hmis),
      if_pos hreported]

theorem course_check (w : World) (a : CheckArguments) : Course w a (check w a) := by
  by_cases hm : missing? w.files a.given = .ok none
  · have hpresent := missing?_eq_none_iff.mp hm
    obtain ⟨root, hroot⟩ := exists_projectRoot (given_ne_nil a) hpresent
    rw [check_of_existing hpresent]
    cases hc : configure (w.started a) a a.given with
    | error f =>
      rw [checkPaths_of_error hc]
      cases hf : f.isReported with
      | true =>
        have hmis := (configure_eq_error_iff (by rwa [files_started])).mp hc
        exact .refused (.configuration hpresent hroot hmis hf)
      | false => exact .unreported hpresent hc hf
    | ok made =>
      obtain ⟨env, l⟩ := made
      unfold checkPaths
      rw [hc, files_started, ← search]
      dsimp only
      cases hs : (search w a).fault? with
      | some f => exact .lost hpresent hc hs
      | none => exact .finished hpresent hc hs
  · obtain ⟨p, answer, hstops⟩ := exists_stopsAt hm
    cases answer with
    | error f => exact check_of_stopsAt hstops ▸ .untold hstops
    | ok there =>
      cases there with
      | true => exact absurd rfl hstops.ne
      | false => exact check_of_refusal (.path hstops) ▸ .refused (.path hstops)

theorem Course.refusal_of_exit {o : Outcome} (h : Course w a o) (hexit : o.exit = 2) :
    Refusal w a o := by
  cases h with
  | refused hrefusal => exact hrefusal
  | untold => cases hexit
  | unreported => cases hexit
  | lost => exact absurd hexit (exit_thenFault (exit_report _ _ _ _) _)
  | finished => exact absurd hexit (exit_report _ _ _ _)

theorem exit_check_iff : (check w a).exit = 2 ↔ ∃ o, Refusal w a o := by
  constructor
  · exact fun h => ⟨_, (course_check w a).refusal_of_exit h⟩
  · rintro ⟨o, ho⟩
    rw [check_of_refusal ho]
    cases ho <;> rfl

theorem not_exists_refusal {made : Environment × Linter} (hpresent : Present w a)
    (hc : configure (w.started a) a a.given = .ok made) : ¬ ∃ o, Refusal w a o := by
  rintro ⟨o, hstops | ⟨-, hroot, hmis, -⟩⟩
  · cases (missing?_of_stopsAt hstops).symm.trans (missing?_eq_none_iff.mpr hpresent)
  · rw [← files_started w a] at hroot
    cases hc.symm.trans ((configure_eq_error_iff hroot).mpr hmis)

theorem started_with_files (w : World) (a : CheckArguments) (fs' : Files) :
    World.started { w with files := fs' } a = { w.started a with files := fs' } := by
  rw [World.started, World.started]
  split_ifs <;> rfl

/-- A check that is refused has not looked at a tree of any file. -/
theorem check_congr_of_exit (h : (check w a).exit = 2) (halike : w.files.Alike fs') :
    check { w with files := fs' } a = check w a := by
  rw [check_eq, check_eq, ← missing?_congr halike]
  rw [check_eq] at h
  cases hm : missing? w.files a.given with
  | error f => rfl
  | ok missing =>
    cases missing with
    | some p => rfl
    | none =>
      simp only [hm] at h ⊢
      rw [started_with_files]
      have hc : configure { w.started a with files := fs' } a a.given =
          configure (w.started a) a a.given := configure_congr (by rwa [files_started]) a a.given
      cases hmade : configure (w.started a) a a.given with
      | error f => rw [checkPaths_of_error hmade, checkPaths_of_error (hc.trans hmade)]
      | ok made =>
        unfold checkPaths at h
        rw [hmade] at h
        dsimp only at h
        split at h
        · exact absurd h (exit_thenFault (exit_report _ _ _ _) _)
        · exact absurd h (exit_report _ _ _ _)

end

/-! ### What becomes of files -/

/-- What a check says of its files: those of no supported type, those that are not readable as text,
and those that were checked, with the findings in each. -/
structure Account where
  unsupported : List Path := []
  unreadable : List Path := []
  checked : List (Path × List Finding) := []

namespace Account

def findings (t : Account) : List Finding := t.checked.flatMap (·.2)

def printed (t : Account) : List Printed :=
  (if t.findings.isEmpty then [] else [findingsTable t.findings]) ++
    t.unsupported.map (skipped "unsupported file type") ++
    t.unreadable.map (skipped "unreadable file") ++
    [.line [.markup "\n[bold yellow]Summary:[/bold yellow]"],
      count "Files checked" t.checked.length,
      count "Mutations found" t.findings.length] ++
    (if t.findings.isEmpty then [.line [.markup noneFound]] else [])

/-- Each file is in exactly one of the lists, as often as it is found, and the lists keep the order
of the files. -/
structure Shares (t : Account) (found : List Path) : Prop where
  perm : (t.unsupported ++ t.unreadable ++ t.checked.map Prod.fst).Perm found
  unsupported_unreadable : t.unsupported.Disjoint t.unreadable
  unsupported_checked : t.unsupported.Disjoint (t.checked.map Prod.fst)
  unreadable_checked : t.unreadable.Disjoint (t.checked.map Prod.fst)
  unsupported_sublist : t.unsupported.Sublist found
  unreadable_sublist : t.unreadable.Sublist found
  checked_sublist : (t.checked.map Prod.fst).Sublist found
  length_eq : t.checked.length + t.unsupported.length + t.unreadable.length = found.length

end Account

/-- Files are gone through in order, and each goes to one list of an account. -/
inductive Divided (l : Linter) (fs : Files) : List Path → Account → Prop
  | nil : Divided l fs [] {}
  | unsupported {p : Path} {rest : List Path} {t : Account} : Language.ofPath? p = none →
      Divided l fs rest t →
      Divided l fs (p :: rest) { t with unsupported := p :: t.unsupported }
  | unreadable {p : Path} {rest : List Path} {t : Account} : Language.ofPath? p ≠ none →
      fs.source? p = .ok none → Divided l fs rest t →
      Divided l fs (p :: rest) { t with unreadable := p :: t.unreadable }
  | checked {p : Path} {rest : List Path} {t : Account} {r : Report} {findings : List Finding} :
      l.lintFile fs p = .ok (some r) → r.result = .ok findings → Divided l fs rest t →
      Divided l fs (p :: rest) { t with checked := (p, findings) :: t.checked }

section
variable {l : Linter} {fs : Files} {p : Path} {found : List Path} {t : Account}

theorem lintFile_of_unsupported (h : Language.ofPath? p = none) : l.lintFile fs p = .ok none := by
  rw [Linter.lintFile, h]

theorem lintFile_of_unreadable (h : fs.source? p = .ok none) : l.lintFile fs p = .ok none := by
  rw [Linter.lintFile]
  split
  · rfl
  · rw [h]
    rfl

theorem source?_of_lintFile (hl : Language.ofPath? p ≠ none) (h : l.lintFile fs p = .ok none) :
    fs.source? p = .ok none := by
  obtain ⟨language, hlanguage⟩ := Option.ne_none_iff_exists'.mp hl
  rw [Linter.lintFile, hlanguage] at h
  dsimp only at h
  cases hs : fs.source? p with
  | error f =>
    rw [hs] at h
    cases h
  | ok s =>
    rw [hs] at h
    cases s with
    | none => rfl
    | some s => cases h

theorem outcomeOf_of_unsupported (h : Language.ofPath? p = none) :
    outcomeOf l fs p = .unsupported := by
  rw [outcomeOf, h]
  rfl

theorem outcomeOf_of_unreadable (hl : Language.ofPath? p ≠ none) (h : fs.source? p = .ok none) :
    outcomeOf l fs p = .unreadable := by
  rw [outcomeOf, if_neg (by simpa using hl), lintFile_of_unreadable h]

theorem outcomeOf_of_checked {r : Report} (h : l.lintFile fs p = .ok (some r)) :
    outcomeOf l fs p = .checked r := by
  have hl : Language.ofPath? p ≠ none := fun hnone => by
    cases (lintFile_of_unsupported hnone).symm.trans h
  rw [outcomeOf, if_neg (by simpa using hl), h]

theorem Divided.exists_cons (hp : (outcomeOf l fs p).fault? = none) (h : Divided l fs found t) :
    ∃ t', Divided l fs (p :: found) t' := by
  by_cases hl : Language.ofPath? p = none
  · exact ⟨_, .unsupported hl h⟩
  · cases hlint : l.lintFile fs p with
    | error f => simp [outcomeOf, hl, hlint, FileOutcome.fault?] at hp
    | ok report =>
      cases report with
      | none => exact ⟨_, .unreadable hl (source?_of_lintFile hl hlint) h⟩
      | some r =>
        rw [outcomeOf_of_checked hlint] at hp
        cases hr : r.result with
        | error f => simp [FileOutcome.fault?, hr] at hp
        | ok findings => exact ⟨_, .checked hlint hr h⟩

theorem exists_divided (h : ∀ p ∈ found, (outcomeOf l fs p).fault? = none) :
    ∃ t, Divided l fs found t := by
  induction found with
  | nil => exact ⟨_, .nil⟩
  | cons p rest ih =>
    rw [List.forall_mem_cons] at h
    obtain ⟨t, ht⟩ := ih h.2
    exact ht.exists_cons h.1

theorem Divided.of_mem_unsupported (h : Divided l fs found t) (hp : p ∈ t.unsupported) :
    Language.ofPath? p = none := by
  induction h with
  | nil => cases hp
  | unsupported hl _ ih =>
    rcases List.mem_cons.mp hp with rfl | hp
    · exact hl
    · exact ih hp
  | unreadable _ _ _ ih => exact ih hp
  | checked _ _ _ ih => exact ih hp

theorem Divided.of_mem_unreadable (h : Divided l fs found t) (hp : p ∈ t.unreadable) :
    Language.ofPath? p ≠ none ∧ fs.source? p = .ok none := by
  induction h with
  | nil => cases hp
  | unsupported _ _ ih => exact ih hp
  | unreadable hl hs _ ih =>
    rcases List.mem_cons.mp hp with rfl | hp
    · exact ⟨hl, hs⟩
    · exact ih hp
  | checked _ _ _ ih => exact ih hp

theorem Divided.of_mem_checked (h : Divided l fs found t) (hp : p ∈ t.checked.map Prod.fst) :
    ∃ r, l.lintFile fs p = .ok (some r) := by
  induction h with
  | nil => cases hp
  | unsupported _ _ ih => exact ih hp
  | unreadable _ _ _ ih => exact ih hp
  | checked hlint _ _ ih =>
    rcases List.mem_cons.mp hp with rfl | hp
    · exact ⟨_, hlint⟩
    · exact ih hp

theorem Divided.perm (h : Divided l fs found t) :
    (t.unsupported ++ t.unreadable ++ t.checked.map Prod.fst).Perm found := by
  induction h with
  | nil => exact .nil
  | unsupported _ _ ih => exact ih.cons _
  | unreadable _ _ _ ih =>
    rw [List.append_assoc] at ih ⊢
    exact List.perm_middle.trans (ih.cons _)
  | checked _ _ _ ih => exact List.perm_middle.trans (ih.cons _)

def outcomes (l : Linter) (fs : Files) (found : List Path) : List (Path × FileOutcome) :=
  found.map fun p => (p, outcomeOf l fs p)

theorem outcomes_cons (p : Path) (rest : List Path) :
    outcomes l fs (p :: rest) = (p, outcomeOf l fs p) :: outcomes l fs rest := rfl

theorem findings_of_checked {r : Report} {findings : List Finding} (h : r.result = .ok findings) :
    (FileOutcome.checked r).findings = findings := by
  simp [FileOutcome.findings, FileOutcome.report?, h, Except.toOption]

/-- The account lists what the outcomes are. -/
theorem Divided.outcomes_eq (h : Divided l fs found t) :
    ((outcomes l fs found).filter (·.2.isUnsupported)).map (·.1) = t.unsupported ∧
    ((outcomes l fs found).filter (·.2.isUnreadable)).map (·.1) = t.unreadable ∧
    ((outcomes l fs found).filter (·.2.report?.isSome)).map (·.1) = t.checked.map Prod.fst ∧
    (outcomes l fs found).flatMap (·.2.findings) = t.findings := by
  induction h with
  | nil => exact ⟨rfl, rfl, rfl, rfl⟩
  | @unsupported p rest t hl _ ih =>
    obtain ⟨hu, hs, hc, hf⟩ := ih
    rw [outcomes_cons, outcomeOf_of_unsupported hl]
    exact ⟨congrArg (p :: ·) hu, hs, hc, hf⟩
  | @unreadable p rest t hl hsource _ ih =>
    obtain ⟨hu, hs, hc, hf⟩ := ih
    rw [outcomes_cons, outcomeOf_of_unreadable hl hsource]
    exact ⟨hu, congrArg (p :: ·) hs, hc, hf⟩
  | @checked p rest t r findings hlint hr _ ih =>
    obtain ⟨hu, hs, hc, hf⟩ := ih
    rw [outcomes_cons, outcomeOf_of_checked hlint]
    refine ⟨hu, hs, congrArg (p :: ·) hc, ?_⟩
    rw [List.flatMap_cons, findings_of_checked hr, hf]
    rfl

theorem filter_outcomes_sublist (kind : Path × FileOutcome → Bool) :
    (((outcomes l fs found).filter kind).map (·.1)).Sublist found := by
  have hfound : (outcomes l fs found).map (·.1) = found := by
    rw [outcomes, List.map_map]
    exact List.map_id found
  calc (((outcomes l fs found).filter kind).map (·.1)).Sublist ((outcomes l fs found).map (·.1)) :=
        List.filter_sublist.map _
    _ = found := hfound

theorem Divided.shares (h : Divided l fs found t) : t.Shares found := by
  obtain ⟨hunsupported, hunreadable, hchecked, -⟩ := h.outcomes_eq
  exact {
    perm := h.perm
    unsupported_unreadable := fun p hu hr => (h.of_mem_unreadable hr).1 (h.of_mem_unsupported hu)
    unsupported_checked := fun p hu hc => by
      obtain ⟨r, hr⟩ := h.of_mem_checked hc
      cases (lintFile_of_unsupported (h.of_mem_unsupported hu)).symm.trans hr
    unreadable_checked := fun p hs hc => by
      obtain ⟨r, hr⟩ := h.of_mem_checked hc
      cases (lintFile_of_unreadable (h.of_mem_unreadable hs).2).symm.trans hr
    unsupported_sublist := hunsupported ▸ filter_outcomes_sublist _
    unreadable_sublist := hunreadable ▸ filter_outcomes_sublist _
    checked_sublist := hchecked ▸ filter_outcomes_sublist _
    length_eq := by
      have hlength := h.perm.length_eq
      simp only [List.length_append, List.length_map] at hlength
      omega }

/-! ### The account of a check -/

/-- When paths are present, the configuration has no fault that is not reported, and linting has
none at all. -/
structure Calm (w : World) (a : CheckArguments) : Prop where
  configured : Present w a → ∀ f, configure (w.started a) a a.given = .error f →
    f.isReported = true
  linted : Present w a → ∀ env l, configure (w.started a) a a.given = .ok (env, l) →
    ∀ p ∈ (search w a).found, (outcomeOf l w.files p).fault? = none

theorem exists_account (w : World) (env : Environment)
    (hlinted : ∀ p ∈ found, (outcomeOf l w.files p).fault? = none) :
    (report w env l found).escaped = none ∧
    ∃ t, Divided l w.files found t ∧ (report w env l found).printed = t.printed ∧
      (report w env l found).exit = if t.findings = [] then 0 else 1 := by
  have hfaultless : (found.map fun p => (p, outcomeOf l w.files p)).findSome? (·.2.fault?) = none :=
    List.findSome?_eq_none_iff.mpr (List.forall_mem_map.mpr hlinted)
  obtain ⟨t, ht⟩ := exists_divided hlinted
  obtain ⟨hu, hs, hc, hf⟩ := ht.outcomes_eq
  have hn := congrArg List.length hc
  rw [List.length_map, List.length_map] at hn
  refine ⟨(escaped_report w env l found).trans hfaultless, t, ht, ?_⟩
  unfold outcomes at hu hs hn hf
  simp only [report, hfaultless, summary, hu, hs, hn, hf, Account.printed, List.isEmpty_iff,
    true_and]

end

/-- A check that no fault ends is calm. -/
theorem calm_of_escaped {w : World} {a : CheckArguments} (h : (check w a).escaped = none) :
    Calm w a where
  configured hpresent f hc := by
    rw [check_of_existing hpresent, checkPaths_of_error hc] at h
    by_contra hf
    rw [if_neg hf] at h
    cases h
  linted hpresent env l hc p hp := by
    have hreport : (report (w.started a) env l (search w a).found).escaped = none := by
      rw [check_of_existing hpresent] at h
      unfold checkPaths at h
      rw [hc, files_started, ← search] at h
      dsimp only at h
      split at h
      · rw [escaped_thenFault] at h
        exact (Option.or_eq_none_iff.mp h).1
      · exact h
    rw [escaped_report, files_started] at hreport
    exact List.findSome?_eq_none_iff.mp hreport _ (List.mem_map_of_mem hp)

/-- A check that goes on past its configuration leaves an account of the files it finds, unless a
fault ends the search for them. -/
theorem Calm.exists_finished {w : World} {a : CheckArguments} (calm : Calm w a)
    (hpresent : Present w a) (hgoes : ¬ ∃ o, Refusal w a o) :
    ∃ env l, configure (w.started a) a a.given = .ok (env, l) ∧
      (∀ f, w.files.discover (a.given.map Path.ofText) = .error f →
        (check w a).exit = 1 ∧ (check w a).printed = [] ∧ (check w a).escaped = some (.file f)) ∧
      ∀ found, w.files.discover (a.given.map Path.ofText) = .ok found →
        ∃ t, Divided l w.files found t ∧ t.Shares found ∧ (check w a).escaped = none ∧
          (check w a).printed = t.printed ∧
          (check w a).exit = if t.findings = [] then 0 else 1 := by
  have hcourse := course_check w a
  generalize check w a = o at hcourse
  cases hcourse with
  | refused hrefusal => exact absurd ⟨_, hrefusal⟩ hgoes
  | untold hstops =>
    cases (missing?_of_stopsAt hstops).symm.trans (missing?_eq_none_iff.mpr hpresent)
  | unreported _ hc hf => cases hf.symm.trans (calm.configured hpresent _ hc)
  | @lost env l f _ hc hs =>
    have hlost : w.files.discover (a.given.map Path.ofText) = .error f := by
      rw [Files.discover, Files.Search.result, ← search, hs]
    have hquiet : (report (w.started a) env l (search w a).found).escaped = none :=
      (exists_account _ _ (by rw [files_started]; exact calm.linted hpresent env l hc)).1
    refine ⟨env, l, hc, fun g hg => ?_, fun found hfound => ?_⟩
    · obtain rfl := Except.error.inj (hlost.symm.trans hg)
      simp [Outcome.thenFault, hquiet, Outcome.ofEscape]
    · cases hlost.symm.trans hfound
  | @finished env l _ hc hs =>
    have hdone : w.files.discover (a.given.map Path.ofText) = .ok (search w a).found :=
      Files.discover_eq_ok_iff.mpr ⟨hs, rfl⟩
    refine ⟨env, l, hc, fun g hg => ?_, fun found hfound => ?_⟩
    · cases hdone.symm.trans hg
    · obtain rfl := Except.ok.inj (hdone.symm.trans hfound)
      obtain ⟨hquiet, t, ht, hprinted, hexit⟩ := exists_account (w.started a) env
        (by rw [files_started]; exact calm.linted hpresent env l hc)
      rw [files_started] at ht
      exact ⟨t, ht, ht.shares, hquiet, hprinted, hexit⟩

/-- Where the configuration has no fault that is not reported and linting has none, a check exits
with 2 exactly when it is refused: when the first path that is not seen to exist does not exist, or
the paths are there and the configuration has a fault. Then it prints the reason and has not looked
at the tree of any file. A path of which the system does not tell whether it exists ends the check
by that fault, and so does a search for files that it refuses. Otherwise the check divides the files
it discovers into those that are unsupported, unreadable and checked, prints these with the findings
in the files that were checked, in order, and exits with 1 if there are any and with 0 if not. -/
theorem check_accounts (w : World) (a : CheckArguments) (calm : Calm w a) :
    ((check w a).exit = 2 ↔ ∃ o, Refusal w a o) ∧
    (∀ o, Refusal w a o → check w a = o ∧
      ∀ fs : Files, w.files.Alike fs → check { w with files := fs } a = check w a) ∧
    (∀ p f, StopsAt w.files a.given p (.error f) → check w a = .ofEscape (.file f)) ∧
    (Present w a → (¬ ∃ o, Refusal w a o) →
      ∃ env l, configure (w.started a) a a.given = .ok (env, l) ∧
        (∀ f, w.files.discover (a.given.map Path.ofText) = .error f →
          (check w a).exit = 1 ∧ (check w a).printed = [] ∧ (check w a).escaped = some (.file f)) ∧
        ∀ found, w.files.discover (a.given.map Path.ofText) = .ok found →
          ∃ t, Divided l w.files found t ∧ t.Shares found ∧ (check w a).escaped = none ∧
            (check w a).printed = t.printed ∧
            (check w a).exit = if t.findings = [] then 0 else 1) := by
  refine ⟨exit_check_iff, fun o ho => ⟨check_of_refusal ho, fun fs halike => ?_⟩,
    fun p f => check_of_stopsAt, calm.exists_finished⟩
  exact check_congr_of_exit (exit_check_iff.mpr ⟨o, ho⟩) halike

/-- A file with two mutations, one of no supported type and one that is not text. -/
def mixedFiles : Files :=
  ⟨[([Text.ofString "a.js"], .file "a.b = c++".toUTF8 nestedMutations), textFile "b.txt" "notes",
    ([Text.ofString "c.js"], .file ⟨#[0xFF]⟩ (.mk "program" true none ⟨0, 1, 0, 0⟩ []))],
    [], by decide⟩

def mixedWorld : World := ⟨mixedFiles, .empty, .utf8⟩

def mixedArguments : CheckArguments := { paths := ["a.js", "b.txt", "c.js"] }

def mixedFound : List Path := [.ofText "a.js", .ofText "b.txt", .ofText "c.js"]

theorem lintFile_mixedWorld : ∃ r findings,
    standardLinter.lintFile mixedWorld.files (.ofText "a.js") = .ok (some r) ∧
      r.result = .ok findings ∧ findings.map (·.category) = [.reassignment, .increment] := by
  have htext : (String.fromUTF8? "a.b = c++".toUTF8).isSome = true := by decide +kernel
  have hfind : mixedWorld.files.find (.ofText "a.js") =
      .ok (.file "a.b = c++".toUTF8 nestedMutations) := by rfl
  have hsource : mixedWorld.files.source? (.ofText "a.js") =
      .ok (some ("a.b = c++".toUTF8, nestedMutations)) := by
    rw [Files.source?, hfind]
    exact congrArg Except.ok (if_pos htext)
  have hlanguage : Language.ofPath? (.ofText "a.js") = some .javascript := by decide +kernel
  have hcategories : (standardLinter.lintSource ⟨"a.b = c++".toUTF8⟩ "javascript" nestedMutations
      (some "a.js")).result.toOption.map (·.map (·.category)) =
        some [.reassignment, .increment] := by cbv
  obtain ⟨findings, hfindings, hcategories⟩ := Option.map_eq_some_iff.mp hcategories
  refine ⟨_, findings, ?_, eq_ok_of_toOption hfindings, hcategories⟩
  rw [Linter.lintFile, hlanguage]
  dsimp only
  rw [hsource]
  rfl

theorem present_mixedWorld : Present mixedWorld mixedArguments := by
  have hthere : ∀ p ∈ mixedArguments.given,
      (mixedFiles.contains (.ofText p)).toOption = some true := by decide +kernel
  exact fun p hp => eq_ok_of_toOption (hthere p hp)

theorem configure_mixedWorld : ∃ env, configure (mixedWorld.started mixedArguments) mixedArguments
    mixedArguments.given = .ok (env, standardLinter) := by
  have hactive : (configure (mixedWorld.started mixedArguments) mixedArguments
      mixedArguments.given).toOption.map (·.2.active) = some standardLinter.active := by
    decide +kernel
  obtain ⟨⟨env, l⟩, hmade, hl⟩ := Option.map_eq_some_iff.mp hactive
  obtain rfl : l = standardLinter := congrArg Linter.mk hl
  exact ⟨env, eq_ok_of_toOption hmade⟩

/-- The three files go to three lists, and the mutations in the first set the exit code. -/
theorem mixedWorld_accounts :
    Calm mixedWorld mixedArguments ∧ Present mixedWorld mixedArguments ∧
    (¬ ∃ o, Refusal mixedWorld mixedArguments o) ∧ (check mixedWorld mixedArguments).exit = 1 ∧
    ∃ t : Account, t.Shares mixedFound ∧ t.unsupported = [.ofText "b.txt"] ∧
      t.unreadable = [.ofText "c.js"] ∧ t.checked.length = 1 ∧ t.findings ≠ [] ∧
      (check mixedWorld mixedArguments).printed = t.printed := by
  have calm : Calm mixedWorld mixedArguments :=
    calm_of_escaped (Option.isNone_iff_eq_none.mp (by decide +kernel))
  obtain ⟨made, hmade⟩ := configure_mixedWorld
  have hgoes := not_exists_refusal present_mixedWorld hmade
  obtain ⟨-, -, -, haccount⟩ := check_accounts mixedWorld mixedArguments calm
  obtain ⟨env, l, hc, -, hfinished⟩ := haccount present_mixedWorld hgoes
  obtain ⟨t, ht, hshares, -, hprinted, hexit⟩ := hfinished mixedFound (by rfl)
  cases hc.symm.trans hmade
  obtain ⟨hunsupported, hunreadable, -, hfindings⟩ := ht.outcomes_eq
  have hlists : t.unsupported = [.ofText "b.txt"] ∧ t.unreadable = [.ofText "c.js"] := by
    rw [← hunsupported, ← hunreadable]
    decide +kernel
  have hchecked : t.checked.length = 1 := by
    have hlength : t.checked.length + t.unsupported.length + t.unreadable.length = 3 :=
      hshares.length_eq
    rw [hlists.1, hlists.2, List.length_singleton, List.length_singleton] at hlength
    omega
  have hsome : t.findings ≠ [] := by
    obtain ⟨r, findings, hlint, hr, hcategories⟩ := lintFile_mixedWorld
    rw [← hfindings, mixedFound, outcomes_cons, List.flatMap_cons, outcomeOf_of_checked hlint]
    rw [findings_of_checked hr]
    intro h
    rw [(List.append_eq_nil_iff.mp h).1] at hcategories
    cases hcategories
  exact ⟨calm, present_mixedWorld, hgoes, by rw [hexit, if_neg hsome], t, hshares, hlists.1,
    hlists.2, hchecked, hsome, hprinted⟩

def bareWorld : World := ⟨.bare [], .empty, .utf8⟩

/-- A path with a name that is longer than the system takes. -/
def longArguments : CheckArguments := { paths := [.ofChars (List.replicate 256 'c')] }

theorem stopsAt_longArguments : StopsAt bareWorld.files longArguments.given
    (.ofChars (List.replicate 256 'c')) (.error .nameTooLong) := by
  have htold : (bareWorld.files.contains (.ofText (.ofChars (List.replicate 256 'c')))) =
      .error .nameTooLong := by decide +kernel
  exact .here htold (by simp)

/-- It is not so that every path at which nothing is makes the check exit with 2: the system does
not tell that nothing is at a name it does not take. -/
theorem not_forall_absent_refused :
    ¬ ∀ (w : World) (a : CheckArguments), Calm w a →
      (∃ p ∈ a.given, ∀ e, w.files.find (.ofText p) ≠ .ok e) → (check w a).exit = 2 := by
  intro h
  have hstops := stopsAt_longArguments
  have habsent : ¬ Present bareWorld longArguments := fun hpresent => by
    cases (missing?_of_stopsAt hstops).symm.trans (missing?_eq_none_iff.mpr hpresent)
  have calm : Calm bareWorld longArguments :=
    ⟨(absurd · habsent), (absurd · habsent)⟩
  have hnothing : ∃ p ∈ longArguments.given, ∀ e, bareWorld.files.find (.ofText p) ≠ .ok e := by
    simp only [Present, Files.contains_eq_true_iff, not_forall, not_exists,
      exists_prop] at habsent
    exact habsent
  have hexit := h bareWorld longArguments calm hnothing
  rw [check_of_stopsAt hstops] at hexit
  cases hexit

end Command
end MutationLint
