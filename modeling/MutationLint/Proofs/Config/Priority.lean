import Mathlib
import MutationLint.Config.Load
import MutationLint.Proofs.Node.Assembly

/-! The sources of a configuration in order of priority. The first one that applies decides: what
lies behind it is not looked at, and may be malformed, be missing or be changed without a trace. -/

namespace MutationLint

/-! ### What files show -/

inductive Sight where
  | nothing
  | directory
  | file (bytes : ByteArray)

def Sight.bytes : Sight → Except FileFault ByteArray
  | .nothing => .error .notFound
  | .directory => .error .isDirectory
  | .file bytes => .ok bytes

namespace Files

/-- What the files show at a path, unless the system refuses to look. -/
def view (fs : Files) (p : Path) : Except FileFault Sight :=
  match fs.find p with
  | .ok .directory => .ok .directory
  | .ok (.file bytes _) => .ok (.file bytes)
  | .error f => if f.isAbsence then .ok .nothing else .error f

theorem bytes_of_view {fs : Files} {p : Path} {s : Sight} (h : fs.view p = .ok s)
    (hs : s ≠ .nothing) : fs.bytes p = s.bytes := by
  rw [view] at h
  rw [Files.bytes]
  cases hf : fs.find p with
  | ok e =>
    rw [hf] at h
    cases e <;> cases h <;> rfl
  | error f =>
    rw [hf] at h
    cases ha : f.isAbsence with
    | true => exact absurd (by simpa [ha] using h.symm) hs
    | false => simp [ha] at h

theorem bytes_of_view_error {fs : Files} {p : Path} {f : FileFault} (h : fs.view p = .error f) :
    fs.bytes p = .error f := by
  rw [view] at h
  rw [Files.bytes]
  cases hf : fs.find p with
  | ok e =>
    rw [hf] at h
    cases e <;> cases h
  | error g =>
    rw [hf] at h
    cases ha : g.isAbsence with
    | true => simp [ha] at h
    | false =>
      obtain rfl : g = f := by simpa [ha] using h
      rfl

end Files

namespace Config

theorem ifThere_eq {α : Type} (fs : Files) (p : Path) (body other : Except ConfigFault α) :
    (do if ← isThere fs p then body else other) =
      match fs.view p with
      | .error f => .error (.file f)
      | .ok .nothing => other
      | .ok _ => body := by
  rw [isThere, Files.contains, Files.ask, Files.view]
  cases fs.find p with
  | ok e => cases e <;> rfl
  | error f => cases hf : f.isAbsence <;> simp [hf] <;> rfl

section
variable {fs fs' : Files} {p : Path}

theorem ifThere_congr {α : Type} (h : fs.view p = fs'.view p)
    {body body' other : Except ConfigFault α} (hbody : fs.bytes p = fs'.bytes p → body = body') :
    (do if ← isThere fs p then body else other) =
      (do if ← isThere fs' p then body' else other) := by
  rw [ifThere_eq, ifThere_eq, ← h]
  cases hv : fs.view p with
  | error f => rfl
  | ok s =>
    have hseen (hs : s ≠ .nothing) : body = body' :=
      hbody ((Files.bytes_of_view hv hs).trans (Files.bytes_of_view (h ▸ hv) hs).symm)
    cases s with
    | nothing => rfl
    | directory => exact hseen (by simp)
    | file bytes => exact hseen (by simp)

theorem readText_congr (h : fs.bytes p = fs'.bytes p) : readText fs p = readText fs' p := by
  rw [readText, readText, h]

theorem readJson_congr (h : fs.bytes p = fs'.bytes p) : readJson fs p = readJson fs' p := by
  rw [readJson, readJson, readText_congr h]

theorem jsonProject_congr (h : fs.bytes p = fs'.bytes p) :
    jsonProject fs p = jsonProject fs' p := by
  rw [jsonProject, jsonProject, readJson_congr h]

theorem tomlSection?_congr (h : fs.bytes p = fs'.bytes p) :
    tomlSection? fs p = tomlSection? fs' p := by
  rw [tomlSection?, tomlSection?, readText_congr h]

theorem packageSection?_congr (h : fs.bytes p = fs'.bytes p) :
    packageSection? fs p = packageSection? fs' p := by
  rw [packageSection?, packageSection?, readJson_congr h]

end

/-! ### Sources -/

/-- What a configuration is asked for: the variables, the directory of the project and the file that
the caller names. -/
structure Request where
  env : Environment
  root : Path
  config : Option Path

inductive Origin where
  | explicit
  | rcFile
  | toml
  | package
  deriving DecidableEq, Repr

namespace Origin

def all : List Origin := [.explicit, .rcFile, .toml, .package]

def before (o : Origin) : List Origin := all.takeWhile (· ≠ o)

def path? (q : Request) : Origin → Option Path
  | .explicit => q.config.or (namedFile? q.env)
  | .rcFile => some (q.root.child Config.rcFile)
  | .toml => some (q.root.child tomlFile)
  | .package => some (q.root.child packageFile)

/-- A file is there and is malformed or has a section for the project. -/
def HasSection (fs : Files) (p : Path) (reading : Except ConfigFault (Option Value)) : Prop :=
  fs.view p ≠ .ok .nothing ∧ ((∃ fault, reading = .error fault) ∨ ∃ v, reading = .ok (some v))

/-- A source applies: a file that is named does in any case, the rc file when it is there, the
others when they are malformed or have a section for the project. -/
def Applies (q : Request) (fs : Files) : Origin → Prop
  | .explicit => ∃ p, path? q .explicit = some p
  | .rcFile => fs.view (q.root.child Config.rcFile) ≠ .ok .nothing
  | .toml => HasSection fs (q.root.child tomlFile) (tomlSection? fs (q.root.child tomlFile))
  | .package =>
    HasSection fs (q.root.child packageFile) (packageSection? fs (q.root.child packageFile))

def offer (q : Request) (fs : Files) : Origin → Offer
  | .explicit => Config.explicit fs q.env q.config
  | .rcFile => fromRcFile fs q.root
  | .toml => fromToml fs q.root
  | .package => fromPackage fs q.root

section
variable {q : Request} {fs fs' : Files} {o : Origin} {project : Project}

theorem offer_congr (h : ∀ p ∈ o.path? q, fs.view p = fs'.view p) :
    o.offer q fs = o.offer q fs' := by
  cases o with
  | explicit =>
    simp only [offer, Config.explicit]
    cases hp : q.config.or (namedFile? q.env) with
    | none => rfl
    | some p => exact ifThere_congr (h p hp) fun hb => by rw [jsonProject_congr hb]
  | rcFile => exact ifThere_congr (h _ rfl) fun hb => by rw [jsonProject_congr hb]
  | toml => exact ifThere_congr (h _ rfl) fun hb => by rw [tomlSection?_congr hb]
  | package => exact ifThere_congr (h _ rfl) fun hb => by rw [packageSection?_congr hb]

theorem map_some_ne {ε α : Type} (x : Except ε α) : some <$> x ≠ .ok none := by
  cases x <;> simp [Functor.map, Except.map]

/-- Where a file is there, only one that has been read and has no section offers nothing. -/
theorem fromSection_of_seen {p : Path} {s : Sight} {reading : Except ConfigFault (Option Value)}
    (hv : fs.view p = .ok s) (hs : s ≠ .nothing) : fromSection fs p reading = .ok none ↔
      ¬ ((∃ fault, reading = .error fault) ∨ ∃ v, reading = .ok (some v)) := by
  rw [fromSection, ifThere_eq, hv]
  cases s with
  | nothing => exact absurd rfl hs
  | _ =>
    cases reading with
    | error fault => simp [bind, Except.bind]
    | ok found =>
      cases found with
      | none => simp [bind, Except.bind, pure, Except.pure]
      | some v => simpa [bind, Except.bind] using map_some_ne (Project.ofValue v (some p))

theorem fromSection_eq_none_iff {p : Path} {reading : Except ConfigFault (Option Value)}
    (hunseen : ∀ f, fs.view p = .error f → ∃ fault, reading = .error fault) :
    fromSection fs p reading = .ok none ↔ ¬ HasSection fs p reading := by
  rw [HasSection]
  cases hv : fs.view p with
  | error f =>
    obtain ⟨fault, rfl⟩ := hunseen f hv
    simp [fromSection, ifThere_eq, hv]
  | ok s =>
    by_cases hs : s = .nothing
    · simp [fromSection, ifThere_eq, hv, hs, pure, Except.pure]
    · simp [fromSection_of_seen hv hs, hs]

theorem readText_of_view_error {p : Path} {f : FileFault} (h : fs.view p = .error f) :
    readText fs p = .error (.file f) := by
  rw [readText, Files.bytes_of_view_error h]
  rfl

/-- The sources that offer nothing are those that do not apply. -/
theorem offer_eq_none_iff : o.offer q fs = .ok none ↔ ¬ o.Applies q fs := by
  cases o with
  | explicit =>
    rw [offer, Config.explicit.eq_def, Applies, path?]
    cases q.config.or (namedFile? q.env) with
    | none => simp
    | some p =>
      simp only [ifThere_eq]
      cases fs.view p with
      | error f => simp
      | ok s => cases s <;> simp [map_some_ne]
  | rcFile =>
    rw [offer, fromRcFile, Applies, ifThere_eq]
    cases fs.view (q.root.child Config.rcFile) with
    | error f => simp
    | ok s => cases s <;> simp [map_some_ne, pure, Except.pure]
  | toml =>
    refine fromSection_eq_none_iff fun f hf => ⟨.file f, ?_⟩
    rw [tomlSection?, readText_of_view_error hf]
    rfl
  | package =>
    refine fromSection_eq_none_iff fun f hf => ⟨.file f, ?_⟩
    rw [packageSection?, readJson, readText_of_view_error hf]
    rfl

theorem source_of_ofValue {raw : Value} {source : Option Path}
    (h : Project.ofValue raw source = .ok project) : project.source = source := by
  rw [Project.ofValue.eq_def] at h
  split at h
  · simp only at h
    split at h
    · cases h
      rfl
    · split at h <;> cases h
      rfl
  · cases h

theorem source_of_map_jsonProject {p : Path}
    (h : some <$> jsonProject fs p = .ok (some project)) : project.source = some p := by
  obtain ⟨project', hp, he⟩ := exists_of_bind_eq_ok (f := fun a => .ok (some a)) h
  cases he
  obtain ⟨v, -, hv⟩ := exists_of_bind_eq_ok hp
  exact source_of_ofValue hv

theorem of_ifThere {α : Type} {p : Path} {body other : Except ConfigFault α} {a : α}
    (h : (do if ← isThere fs p then body else other) = .ok a) : body = .ok a ∨ other = .ok a := by
  obtain ⟨there, -, h⟩ := exists_of_bind_eq_ok h
  cases there with
  | true => exact Or.inl h
  | false => exact Or.inr h

theorem source_of_fromSection {p : Path} {reading : Except ConfigFault (Option Value)}
    (h : fromSection fs p reading = .ok (some project)) : project.source = some p := by
  rcases of_ifThere h with h | h
  · obtain ⟨found, -, h⟩ := exists_of_bind_eq_ok h
    cases found with
    | none => cases h
    | some v =>
      obtain ⟨project', hp, he⟩ := exists_of_bind_eq_ok (f := fun a => .ok (some a)) h
      cases he
      exact source_of_ofValue hp
  · cases h

theorem source_of_offer (h : o.offer q fs = .ok (some project)) : project.source = o.path? q := by
  cases o with
  | explicit =>
    rw [offer, Config.explicit.eq_def] at h
    rw [path?]
    cases hp : q.config.or (namedFile? q.env) with
    | none => rw [hp] at h; cases h
    | some p =>
      rw [hp] at h
      rcases of_ifThere h with h | h
      · exact source_of_map_jsonProject h
      · cases h
  | rcFile =>
    rcases of_ifThere h with h | h
    · exact source_of_map_jsonProject h
    · cases h
  | toml => exact source_of_fromSection h
  | package => exact source_of_fromSection h

theorem load_eq (q : Request) (fs : Files) :
    load fs q.env q.root q.config = firstOf (all.map fun o _ => o.offer q fs) := rfl

end

end Origin

/-! ### The first source -/

section
variable {offer offer' : Origin → Offer}

/-- Sources that offer nothing are passed over, and those behind the first that offers something are
not asked. -/
theorem firstOf_congr {origins : List Origin}
    (h : ∀ o ∈ origins, (∀ b ∈ origins.takeWhile (· ≠ o), offer b = .ok none) →
      offer o = offer' o) :
    firstOf (origins.map fun o _ => offer o) = firstOf (origins.map fun o _ => offer' o) := by
  induction origins with
  | nil => rfl
  | cons first rest ih =>
    have hfirst : offer first = offer' first := h first List.mem_cons_self (by simp)
    simp only [List.map_cons, firstOf, ← hfirst]
    cases hf : offer first with
    | error f => rfl
    | ok found =>
      cases found with
      | some p => rfl
      | none =>
        refine ih fun o ho hbefore => ?_
        by_cases he : o = first
        · rw [he, hfirst]
        · refine h o (List.mem_cons_of_mem _ ho) fun b hb => ?_
          rw [List.takeWhile_cons_of_pos (by simpa using Ne.symm he)] at hb
          rcases List.mem_cons.mp hb with rfl | hb
          · exact hf
          · exact hbefore b hb

theorem offer_of_firstOf {origins : List Origin} {o : Origin} {p : Project} (ho : o ∈ origins)
    (hbefore : ∀ b ∈ origins.takeWhile (· ≠ o), offer b = .ok none) (hsome : offer o ≠ .ok none)
    (h : firstOf (origins.map fun o _ => offer o) = .ok p) : offer o = .ok (some p) := by
  induction origins with
  | nil => cases ho
  | cons first rest ih =>
    rw [List.map_cons, firstOf] at h
    by_cases he : first = o
    · subst he
      split at h
      · cases h
      · rename_i found
        obtain rfl := Except.ok.inj h
        exact found
      · rename_i hnone
        exact absurd hnone hsome
    · rw [List.takeWhile_cons_of_pos (by simpa using he)] at hbefore
      rw [hbefore first List.mem_cons_self] at h
      exact ih ((List.mem_cons.mp ho).resolve_left (Ne.symm he))
        (fun b hb => hbefore b (List.mem_cons_of_mem _ hb)) h

end

theorem Origin.mem_all (o : Origin) : o ∈ Origin.all := by
  cases o <;> decide

/-- Files that show the same at every source up to the first that applies give the same
configuration or the same fault, whatever they hold at the sources behind it; and the configuration
names the file of the source that applies. -/
theorem load_eq_of_agree (q : Request) {fs₁ fs₂ : Files}
    (agree : ∀ o : Origin, (∀ b ∈ o.before, ¬ b.Applies q fs₁) →
      ∀ p ∈ o.path? q, fs₁.view p = fs₂.view p) :
    load fs₁ q.env q.root q.config = load fs₂ q.env q.root q.config ∧
      ∀ o : Origin, (∀ b ∈ o.before, ¬ b.Applies q fs₁) → o.Applies q fs₁ →
        ∀ project, load fs₁ q.env q.root q.config = .ok project → project.source = o.path? q := by
  simp only [Origin.load_eq]
  constructor
  · refine firstOf_congr fun o _ hbefore => Origin.offer_congr (agree o fun b hb => ?_)
    exact Origin.offer_eq_none_iff.mp (hbefore b hb)
  · intro o hbefore happlies project hload
    have hnone : ∀ b ∈ o.before, b.offer q fs₁ = .ok none := fun b hb =>
      Origin.offer_eq_none_iff.mpr (hbefore b hb)
    have hsome : o.offer q fs₁ ≠ .ok none := fun h => Origin.offer_eq_none_iff.mp h happlies
    exact Origin.source_of_offer (offer_of_firstOf o.mem_all hnone hsome hload)

def textFile (name content : String) : List Text × Entry :=
  ([Text.ofString name], .file content.toUTF8 (.mk "program" true none ⟨0, 0, 0, 0⟩ []))

/-- A project configured in its TOML file, beside a package file that is malformed. -/
def tomlFiles : Files :=
  ⟨[textFile "pyproject.toml" "[tool.better-mutation]\ncommonjs = true\n",
    textFile "package.json" "\x7b"], [], by decide⟩

/-- The same project with other options in the package file. -/
def otherFiles : Files :=
  ⟨[textFile "package.json" "\x7b\"betterMutation\": \x7b\"commonjs\": false\x7d\x7d",
    textFile "pyproject.toml" "[tool.better-mutation]\ncommonjs = true\n"], [], by decide⟩

def plainRequest : Request := ⟨.empty, .here, none⟩

/-- Neither the malformed package file nor its options are noticed. -/
theorem tomlFiles_load_eq_otherFiles :
    (∀ o : Origin, (∀ b ∈ o.before, ¬ b.Applies plainRequest tomlFiles) →
      ∀ p ∈ o.path? plainRequest, tomlFiles.view p = otherFiles.view p) ∧
    load tomlFiles .empty .here none = load otherFiles .empty .here none ∧
    ∃ project, load tomlFiles .empty .here none = .ok project ∧
      project.source = some (Path.here.child tomlFile) := by
  have hsection : tomlSection? tomlFiles (Path.here.child tomlFile) =
      .ok (some (.object [("commonjs", .bool true)])) := by cbv
  have htoml : Origin.toml.Applies plainRequest tomlFiles := by
    refine ⟨fun h => ?_, Or.inr ⟨_, hsection⟩⟩
    have hview : tomlFiles.view (Path.here.child tomlFile) =
        .ok (.file "[tool.better-mutation]\ncommonjs = true\n".toUTF8) := by rfl
    cases hview.symm.trans h
  have hagree : ∀ o : Origin, (∀ b ∈ o.before, ¬ b.Applies plainRequest tomlFiles) →
      ∀ p ∈ o.path? plainRequest, tomlFiles.view p = otherFiles.view p := by
    intro o hbefore p hp
    cases o with
    | explicit => cases hp
    | rcFile => cases hp; rfl
    | toml => cases hp; rfl
    | package => exact absurd htoml (hbefore .toml (by decide))
  obtain ⟨hequal, hsource⟩ := load_eq_of_agree plainRequest hagree
  have hload : load tomlFiles .empty .here none =
      .ok ⟨.ofList [("commonjs", .bool true)], .empty, some (Path.here.child tomlFile)⟩ := by
    have hexplicit : Config.explicit tomlFiles .empty none = .ok none := rfl
    have hrc : fromRcFile tomlFiles .here = .ok none := rfl
    simp only [load, firstOf, hexplicit, hrc, fromToml, hsection]
    rfl
  have hfirst : ∀ b ∈ Origin.toml.before, ¬ b.Applies plainRequest tomlFiles := by
    intro b hb
    have hb : b = .explicit ∨ b = .rcFile := by simpa [Origin.before, Origin.all] using hb
    rcases hb with rfl | rfl
    · rintro ⟨p, hp⟩
      cases hp
    · have hrc : tomlFiles.view (Path.here.child rcFile) = .ok .nothing := by rfl
      exact fun h => h hrc
  exact ⟨hagree, hequal, _, hload, hsource .toml hfirst htoml _ hload⟩

end Config
end MutationLint
