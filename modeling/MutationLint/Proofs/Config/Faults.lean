import MutationLint.Proofs.Config.Options
import MutationLint.Proofs.Config.Priority

/-! The faults of a configuration that nobody reports. Where the files of the sources are files,
there are two: a table of tools that is not a table, and the name of a file that the system refuses
to look up. Whatever else is wrong with a configuration is reported to the user. -/

namespace MutationLint

namespace Files

/-- Following components fails where nothing is, or at a name that is too long. -/
theorem follow_error {fs : Files} {f : FileFault} {parts : List Text} :
    ∀ {place : List Text}, fs.follow place parts = .error f →
      f.isAbsence = true ∨ f = .nameTooLong := by
  induction parts with
  | nil => intro place h; cases h
  | cons part rest ih =>
    intro place h
    rw [follow] at h
    split at h
    · cases h
      exact .inl rfl
    · cases h
      exact .inl rfl
    · split_ifs at h
      · exact ih h
      · cases h
        exact .inr rfl
      · exact ih h

theorem locate_error {fs : Files} {p : Path} {f : FileFault} (h : fs.locate p = .error f) :
    f.isAbsence = true ∨ f = .nameTooLong := by
  rw [locate] at h
  split at h
  · rename_i hf
    cases h
    rw [Path.fault?] at hf
    split_ifs at hf <;> cases hf
    · exact .inl rfl
    · exact .inl rfl
    · exact .inr rfl
  · exact follow_error h

theorem find_error {fs : Files} {p : Path} {f : FileFault} (h : fs.find p = .error f) :
    f.isAbsence = true ∨ f = .nameTooLong := by
  rcases bind_eq_error_iff.mp h with h | ⟨place, -, h⟩
  · exact locate_error h
  · split at h
    · cases h
    · cases h
      exact .inl rfl

/-- The system refuses to look only at names that are too long. -/
theorem view_error {fs : Files} {p : Path} {f : FileFault} (h : fs.view p = .error f) :
    f = .nameTooLong := by
  rw [view] at h
  split at h
  · cases h
  · cases h
  · rename_i g hg
    split_ifs at h with ha
    cases h
    exact (find_error hg).resolve_left ha

theorem view_of_bytes {fs : Files} {p : Path} {bytes : ByteArray} (h : fs.bytes p = .ok bytes) :
    fs.view p = .ok (.file bytes) := by
  obtain ⟨e, he, h⟩ := exists_of_bind_eq_ok h
  cases e with
  | directory => cases h
  | file b tree =>
    cases h
    rw [view, he]

end Files

/-! ### Faults that are not reported -/

def Escapes {α : Type} (x : Except ConfigFault α) : Prop :=
  ∃ f, x = .error f ∧ f.isReported = false

section
variable {α β ε : Type}

theorem not_escapes_ok (a : α) : ¬ Escapes (.ok a) := by
  rintro ⟨f, h, -⟩
  cases h

theorem escapes_error {f : ConfigFault} :
    Escapes (.error f : Except ConfigFault α) ↔ f.isReported = false := by
  constructor
  · rintro ⟨g, h, hg⟩
    cases h
    exact hg
  · exact fun h => ⟨f, rfl, h⟩

theorem escapes_bind {x : Except ConfigFault α} {next : α → Except ConfigFault β} :
    Escapes (x >>= next) ↔ Escapes x ∨ ∃ a, x = .ok a ∧ Escapes (next a) := by
  simp only [Escapes, bind_eq_error_iff]
  constructor
  · rintro ⟨f, h | ⟨a, ha, h⟩, hf⟩
    · exact .inl ⟨f, h, hf⟩
    · exact .inr ⟨a, ha, f, h, hf⟩
  · rintro (⟨f, h, hf⟩ | ⟨a, ha, f, h, hf⟩)
    · exact ⟨f, .inl h, hf⟩
    · exact ⟨f, .inr ⟨a, ha, h⟩, hf⟩

theorem escapes_map {g : α → β} {x : Except ConfigFault α} : Escapes (g <$> x) ↔ Escapes x := by
  cases x with
  | error f => exact escapes_error.trans escapes_error.symm
  | ok a => exact iff_of_false (not_escapes_ok _) (not_escapes_ok _)

theorem mapError_eq_ok {g : ε → ConfigFault} {x : Except ε α} {a : α} :
    x.mapError g = .ok a ↔ x = .ok a := by
  cases x <;> simp [Except.mapError]

theorem mapError_eq_error_iff {g : ε → ConfigFault} {x : Except ε α}
    {f : ConfigFault} : x.mapError g = .error f ↔ ∃ e, x = .error e ∧ g e = f := by
  cases x <;> simp [Except.mapError]

theorem escapes_mapError {g : ε → ConfigFault} {x : Except ε α} :
    Escapes (x.mapError g) ↔ ∃ e, x = .error e ∧ (g e).isReported = false := by
  simp only [Escapes, mapError_eq_error_iff]
  constructor
  · rintro ⟨f, ⟨e, he, rfl⟩, hf⟩
    exact ⟨e, he, hf⟩
  · rintro ⟨e, he, hf⟩
    exact ⟨g e, ⟨e, he, rfl⟩, hf⟩

/-- Faults that are reported whatever they are leave nothing to escape. -/
theorem not_escapes_mapError {g : ε → ConfigFault} (hg : ∀ e, (g e).isReported = true)
    (x : Except ε α) : ¬ Escapes (x.mapError g) := by
  rw [escapes_mapError]
  rintro ⟨e, -, he⟩
  simp [hg] at he

end

/-! ### Readers -/

namespace Config

section
variable {fs : Files} {p : Path}

theorem not_escapes_readText {bytes : ByteArray} (h : fs.view p = .ok (.file bytes)) :
    ¬ Escapes (readText fs p) := by
  rw [readText, Files.bytes_of_view h (by simp)]
  exact not_escapes_mapError (fun _ => rfl) _

theorem isReported_ofReadFault {malformed : String → ConfigFault}
    (h : ∀ detail, (malformed detail).isReported = true) (f : ReadFault) :
    (ofReadFault malformed f).isReported = true := by
  cases f with
  | malformed detail => exact h detail
  | tooManyDigits n => rfl

theorem not_escapes_readJson {bytes : ByteArray} (h : fs.view p = .ok (.file bytes)) :
    ¬ Escapes (readJson fs p) := by
  rw [readJson, escapes_bind, not_or]
  refine ⟨not_escapes_readText h, ?_⟩
  rintro ⟨text, -, he⟩
  exact not_escapes_mapError (isReported_ofReadFault fun _ => rfl) _ he

theorem not_escapes_ofValue (raw : Value) (source : Option Path) :
    ¬ Escapes (Project.ofValue raw source) := by
  rw [Project.ofValue.eq_def]
  split
  · dsimp only
    split
    · exact not_escapes_ok _
    · split
      · exact not_escapes_ok _
      · simp [escapes_error, ConfigFault.isReported]
  · simp [escapes_error, ConfigFault.isReported]

theorem not_escapes_jsonProject {bytes : ByteArray} (h : fs.view p = .ok (.file bytes)) :
    ¬ Escapes (jsonProject fs p) := by
  rw [jsonProject, escapes_bind, not_or]
  refine ⟨not_escapes_readJson h, ?_⟩
  rintro ⟨v, -, he⟩
  exact not_escapes_ofValue _ _ he

theorem not_escapes_packageSection? {bytes : ByteArray} (h : fs.view p = .ok (.file bytes)) :
    ¬ Escapes (packageSection? fs p) := by
  rw [packageSection?, escapes_bind, not_or]
  refine ⟨not_escapes_readJson h, ?_⟩
  rintro ⟨v, -, he⟩
  split at he <;> exact not_escapes_ok _ he

/-- The file is TOML in which `tool` is something other than a table. -/
def HasBadTool (fs : Files) (p : Path) : Prop :=
  ∃ text data v, readText fs p = .ok text ∧ Toml.read text = .ok data ∧
    data.get? "tool" = some v ∧ v.object? = none

theorem HasBadTool.exists_view (h : HasBadTool fs p) : ∃ bytes, fs.view p = .ok (.file bytes) := by
  obtain ⟨text, data, v, htext, -⟩ := h
  obtain ⟨bytes, hbytes, -⟩ := exists_of_bind_eq_ok htext
  exact ⟨bytes, Files.view_of_bytes (mapError_eq_ok.mp hbytes)⟩

theorem escapes_tomlSection? {bytes : ByteArray} (h : fs.view p = .ok (.file bytes)) :
    Escapes (tomlSection? fs p) ↔ HasBadTool fs p := by
  have hread (text : String) :
      ¬ Escapes ((Toml.read text).mapError (ofReadFault (.toml p))) :=
    not_escapes_mapError (isReported_ofReadFault fun _ => rfl) _
  simp only [tomlSection?, escapes_bind, not_escapes_readText h, hread, false_or, mapError_eq_ok]
  constructor
  · rintro ⟨text, htext, data, hdata, he⟩
    split at he
    · exact absurd he (not_escapes_ok _)
    · rename_i v hv
      split at he
      · exact absurd he (not_escapes_ok _)
      · rename_i hno
        exact ⟨text, data, v, htext, hdata, hv, hno⟩
  · rintro ⟨text, data, v, htext, hdata, hv, hno⟩
    refine ⟨text, htext, data, hdata, ?_⟩
    simp only [hv, hno]
    exact escapes_error.mpr rfl

end

/-! ### Sources -/

namespace Origin

section
variable {q : Request} {fs : Files}

/-- The paths of the sources at which something is lead to files. -/
def Regular (q : Request) (fs : Files) : Prop :=
  ∀ o : Origin, ∀ p ∈ o.path? q, fs.view p ≠ .ok .directory

theorem escapes_ifThere {α : Type} {p : Path} {body other : Except ConfigFault α} {P : Prop}
    (hregular : fs.view p ≠ .ok .directory) (hother : ¬ Escapes other)
    (hbody : ∀ bytes, fs.view p = .ok (.file bytes) → (Escapes body ↔ P))
    (hP : P → ∃ bytes, fs.view p = .ok (.file bytes)) :
    Escapes (do if ← isThere fs p then body else other) ↔
      fs.view p = .error .nameTooLong ∨ P := by
  rw [ifThere_eq]
  have hunseen (hno : ∀ bytes, fs.view p ≠ .ok (.file bytes)) : ¬ P := fun h =>
    (hP h).elim hno
  cases hv : fs.view p with
  | error f =>
    obtain rfl := Files.view_error hv
    simp [escapes_error, ConfigFault.isReported]
  | ok s =>
    cases s with
    | nothing => simpa [hother] using hunseen (by simp [hv])
    | directory => exact absurd hv hregular
    | file bytes => simpa using hbody bytes hv

theorem escapes_jsonSource {p : Path} {other : Offer} (hregular : fs.view p ≠ .ok .directory)
    (hother : ¬ Escapes other) :
    Escapes (do if ← isThere fs p then some <$> jsonProject fs p else other) ↔
      fs.view p = .error .nameTooLong := by
  rw [escapes_ifThere hregular hother (P := False) ?_ False.elim, or_false]
  intro bytes hv
  rw [escapes_map, iff_false]
  exact not_escapes_jsonProject hv

theorem escapes_fromSection {p : Path} {reading : Except ConfigFault (Option Value)} {P : Prop}
    (hregular : fs.view p ≠ .ok .directory)
    (hreading : ∀ bytes, fs.view p = .ok (.file bytes) → (Escapes reading ↔ P))
    (hP : P → ∃ bytes, fs.view p = .ok (.file bytes)) :
    Escapes (fromSection fs p reading) ↔ fs.view p = .error .nameTooLong ∨ P := by
  rw [fromSection]
  refine escapes_ifThere hregular (not_escapes_ok _) (fun bytes hv => ?_) hP
  rw [escapes_bind, hreading bytes hv, or_iff_left]
  rintro ⟨found, -, he⟩
  cases found with
  | none => exact not_escapes_ok _ he
  | some v => exact not_escapes_ofValue _ _ (escapes_map.mp he)

theorem escapes_offer_iff (regular : Regular q fs) (o : Origin) : Escapes (o.offer q fs) ↔
    (∃ p ∈ o.path? q, fs.view p = .error .nameTooLong) ∨
      o = .toml ∧ HasBadTool fs (q.root.child tomlFile) := by
  cases o with
  | explicit =>
    have hpath := regular .explicit
    rw [offer, Config.explicit.eq_def, path?]
    rw [path?] at hpath
    cases hp : q.config.or (namedFile? q.env) with
    | none => simpa using not_escapes_ok _
    | some p =>
      have hmissing : ¬ Escapes (.error (.missing p) : Offer) := by
        simp [escapes_error, ConfigFault.isReported]
      simpa using escapes_jsonSource (hpath p hp) hmissing
  | rcFile =>
    rw [offer, fromRcFile]
    simpa [path?, pure, Except.pure] using
      escapes_jsonSource (regular .rcFile _ rfl) (not_escapes_ok none)
  | toml =>
    rw [offer, fromToml]
    simpa [path?] using escapes_fromSection (regular .toml _ rfl)
      (fun bytes => escapes_tomlSection?) HasBadTool.exists_view
  | package =>
    rw [offer, fromPackage]
    simpa [path?] using escapes_fromSection (P := False) (regular .package _ rfl)
      (fun bytes hv => iff_false_intro (not_escapes_packageSection? hv)) False.elim

end

end Origin

/-- Asking sources in turn ends with such a fault at the first that offers something, if it does
there. -/
theorem escapes_firstOf {offer : Origin → Offer} {origins : List Origin} :
    Escapes (firstOf (origins.map fun o _ => offer o)) ↔
      ∃ o ∈ origins, (∀ b ∈ origins.takeWhile (· ≠ o), offer b = .ok none) ∧
        Escapes (offer o) := by
  induction origins with
  | nil => simpa [firstOf] using not_escapes_ok _
  | cons first rest ih =>
    simp only [List.map_cons, firstOf]
    constructor
    · intro h
      cases hf : offer first with
      | error f =>
        rw [hf] at h
        exact ⟨first, List.mem_cons_self, by simp, hf ▸ escapes_error.mpr (escapes_error.mp h)⟩
      | ok found =>
        cases found with
        | some p => simp [hf, not_escapes_ok] at h
        | none =>
          simp only [hf] at h
          obtain ⟨o, ho, hbefore, he⟩ := ih.mp h
          refine ⟨o, List.mem_cons_of_mem _ ho, fun b hb => ?_, he⟩
          by_cases hne : first = o
          · simp [hne] at hb
          · rw [List.takeWhile_cons_of_pos (by simpa using hne)] at hb
            rcases List.mem_cons.mp hb with rfl | hb
            · exact hf
            · exact hbefore b hb
    · rintro ⟨o, ho, hbefore, he⟩
      by_cases hne : first = o
      · subst hne
        obtain ⟨f, hf, hr⟩ := he
        simpa [hf, escapes_error] using hr
      · rw [List.takeWhile_cons_of_pos (by simpa using hne)] at hbefore
        simp only [hbefore first List.mem_cons_self]
        exact ih.mpr ⟨o, (List.mem_cons.mp ho).resolve_left (Ne.symm hne),
          fun b hb => hbefore b (List.mem_cons_of_mem _ hb), he⟩

/-- The sources up to one of them do not apply, and that one has a path whose name is too long, or
is a TOML file in which `tool` is not a table. -/
def HasUnreported (q : Request) (fs : Files) : Prop :=
  ∃ o : Origin, (∀ b ∈ o.before, ¬ b.Applies q fs) ∧
    ((∃ p ∈ o.path? q, fs.view p = .error .nameTooLong) ∨
      o = .toml ∧ HasBadTool fs (q.root.child tomlFile))

theorem escapes_load_iff {q : Request} {fs : Files} (regular : Origin.Regular q fs) :
    Escapes (load fs q.env q.root q.config) ↔ HasUnreported q fs := by
  rw [Origin.load_eq, escapes_firstOf]
  constructor
  · rintro ⟨o, -, hbefore, he⟩
    exact ⟨o, fun b hb => Origin.offer_eq_none_iff.mp (hbefore b hb),
      (Origin.escapes_offer_iff regular o).mp he⟩
  · rintro ⟨o, hbefore, he⟩
    exact ⟨o, o.mem_all, fun b hb => Origin.offer_eq_none_iff.mpr (hbefore b hb),
      (Origin.escapes_offer_iff regular o).mpr he⟩

end Config
end MutationLint
