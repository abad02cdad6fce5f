import Mathlib.Data.List.Lex
import MutationLint.Proofs.Command.Configuration

/-! What the search for files finds. A file stands for itself. A directory stands for the supported
files below it that no component from there on excludes, each once and in the order of components,
as long as the system takes the paths it is asked about. -/

namespace MutationLint

/-! ### Letters and their order -/

theorem Mark.code_char_ne (c : Char) (i : Fin 0x800) : (Mark.char c).code ≠ (Mark.half i).code := by
  have hvalid : c.toNat.isValidChar := c.valid
  rw [Nat.isValidChar] at hvalid
  simp only [code]
  omega

theorem Mark.code_injective : Function.Injective Mark.code := by
  intro a b h
  rcases a with c | i <;> rcases b with d | j
  · exact congrArg Mark.char (Char.toNat_inj.mp h)
  · exact absurd h (code_char_ne c j)
  · exact absurd h.symm (code_char_ne d i)
  · exact congrArg Mark.half (Fin.ext (Nat.add_left_cancel h))

namespace Text

def codes (t : Text) : List Nat := t.marks.map Mark.code

theorem codes_injective : Function.Injective codes := fun _ _ h =>
  congrArg Text.mk (List.map_injective_iff.mpr Mark.code_injective h)

theorem byteSize_eq_sum (t : Text) : t.byteSize = (t.marks.map markBytes).sum := by
  rw [byteSize, List.sum_eq_foldl]

set_option maxRecDepth 2000 in
/-- Up to the plain letters only the plain capitals have small ones. -/
theorem smallCode_eq {code : Nat} (h : code < 128) :
    smallCode code = if 65 ≤ code ∧ code ≤ 90 then code + 32 else code := by
  have hranges : ∀ r ∈ capitalRanges, r = (65, 90, 1, 32) ∨ 128 ≤ r.1 := by decide
  rw [smallCode]
  split
  · rename_i first last step shift hfind
    have hmeets := List.find?_some hfind
    simp only [Bool.and_eq_true, decide_eq_true_eq] at hmeets
    rcases hranges _ (List.mem_of_find?_eq_some hfind) with heq | hfar
    · cases heq
      rw [if_pos ⟨hmeets.1.1, hmeets.1.2⟩]
      rfl
    · dsimp only at hfar
      omega
  · rename_i hfind
    have hmisses := List.find?_eq_none.mp hfind (65, 90, 1, 32) List.mem_cons_self
    simp only [Nat.mod_one, decide_true, Bool.and_true, Bool.and_eq_true, decide_eq_true_eq]
      at hmisses
    rw [if_neg hmisses]

theorem small_char {c : Char} (h : c.toNat < 128) (before after : List Mark) :
    small before after (.char c) = [.char c.toLower] := by
  have hplain : ∀ n < 128, Char.ofNat (if 65 ≤ n ∧ n ≤ 90 then n + 32 else n) =
      (Char.ofNat n).toLower := by decide
  have hne {d : Char} (hd : 128 ≤ d.toNat) : c ≠ d := by
    rintro rfl
    omega
  have hsigma : Mark.char c ≠ capitalSigma := fun he => hne (by decide) (Mark.char.inj he)
  rw [small, if_neg hsigma, if_neg (hne (by decide)), smallCode_eq h, hplain _ h, Char.ofNat_toNat]

theorem lower_ofChars {cs : List Char} (h : ∀ c ∈ cs, c.toNat < 128) :
    (ofChars cs).lower = ofChars (cs.map Char.toLower) := by
  have hfrom : ∀ before, lowerFrom before (cs.map .char) = (cs.map Char.toLower).map .char := by
    induction cs with
    | nil => exact fun _ => rfl
    | cons c rest ih =>
      rw [List.forall_mem_cons] at h
      intro before
      rw [List.map_cons, lowerFrom, small_char h.1, ih h.2]
      rfl
  rw [lower, marks_ofChars, hfrom]
  rfl

theorem le_iff_codes {a b : Text} : a.le b = true ↔ a.codes ≤ b.codes := by
  rw [le, Bool.not_eq_true', decide_eq_false_iff_not]
  exact not_lt

end Text

namespace Path

/-- The code points of components. Lists of lists are in order when the first that differ are. -/
def codes (parts : List Text) : List (List Nat) := parts.map Text.codes

theorem codes_injective : Function.Injective codes :=
  List.map_injective_iff.mpr Text.codes_injective

theorem partsLe_iff {a b : List Text} : partsLe a b = true ↔ codes a ≤ codes b := by
  rw [← not_lt]
  induction a generalizing b with
  | nil => exact iff_of_true rfl (List.not_lt_nil _)
  | cons x as ih =>
    cases b with
    | nil => exact iff_of_false Bool.false_ne_true (not_not_intro (List.nil_lt_cons _ _))
    | cons y bs =>
      have hcons : codes (y :: bs) < codes (x :: as) ↔
          y.codes < x.codes ∨ y.codes = x.codes ∧ codes bs < codes as := List.cons_lt_cons_iff
      rw [partsLe, hcons, Text.codes_injective.eq_iff]
      split_ifs with h
      · simp [h, ih]
      · simp [Text.le_iff_codes, Ne.symm h]

theorem partsLe_trans (a b c : List Text) (hab : partsLe a b = true) (hbc : partsLe b c = true) :
    partsLe a c = true :=
  partsLe_iff.mpr ((partsLe_iff.mp hab).trans (partsLe_iff.mp hbc))

theorem partsLe_total (a b : List Text) : (partsLe a b || partsLe b a) = true := by
  rw [Bool.or_eq_true, partsLe_iff, partsLe_iff]
  exact le_total _ _

theorem codes_append_lt (p : Path) {a b : List Text} (h : codes a < codes b) :
    codes (p.append a).parts < codes (p.append b).parts := by
  have hcodes (rel : List Text) : codes (p.append rel).parts = codes p.parts ++ codes rel :=
    List.map_append
  rw [hcodes, hcodes]
  exact List.Lex.append_left _ h _

theorem suffix_append (p : Path) {parts : List Text} (h : parts ≠ []) :
    (p.append parts).suffix = suffix ⟨"", parts⟩ := by
  have hname : (p.append parts).fileName = fileName ⟨"", parts⟩ := by
    rw [fileName, fileName, append, List.getLast?_append_of_ne_nil _ h]
  rw [suffix, hname, suffix]

end Path

namespace Files

/-! ### What is below a directory -/

/-- A file to lint below the place that a path leads to, by the components to it from there. -/
structure Lintable (fs : Files) (p : Path) (place rel : List Text) : Prop where
  below : rel ≠ []
  isFile : fs.isFileAt (place ++ rel) = true
  supported : (p.append rel).suffix.lower ∈ Language.suffixes.map Prod.fst
  included : ∀ part ∈ rel, part ∉ excluded

section
variable {fs : Files} {p : Path} {place rel : List Text} {entry : Entry}

theorem continues_iff {e : List Text × Entry} :
    (if place.isPrefixOf e.1 && place.length < e.1.length then some (e.1.drop place.length, e.2)
      else none) = some (rel, entry) ↔ rel ≠ [] ∧ e = (place ++ rel, entry) := by
  obtain ⟨whole, e⟩ := e
  rw [Option.ite_none_right_eq_some, Bool.and_eq_true, List.isPrefixOf_iff_prefix,
    decide_eq_true_iff]
  constructor
  · rintro ⟨⟨⟨rest, rfl⟩, hlength⟩, h⟩
    obtain ⟨rfl, rfl⟩ := Prod.mk.inj (Option.some.inj h)
    rw [List.length_append] at hlength
    rw [List.drop_left]
    exact ⟨List.ne_nil_of_length_pos (by omega), rfl⟩
  · rintro ⟨hne, h⟩
    obtain ⟨rfl, rfl⟩ := Prod.mk.inj h
    have hpos := List.length_pos_iff.mpr hne
    rw [List.length_append, List.drop_left]
    exact ⟨⟨List.prefix_append _ _, by omega⟩, rfl⟩

theorem mem_below_iff : (rel, entry) ∈ fs.below place ↔
    rel ≠ [] ∧ (place ++ rel, entry) ∈ fs.entries := by
  simp only [below, List.mem_filterMap, continues_iff]
  constructor
  · rintro ⟨e, hmem, hne, rfl⟩
    exact ⟨hne, hmem⟩
  · rintro ⟨hne, hmem⟩
    exact ⟨_, hmem, hne, rfl⟩

theorem pairwise_below (fs : Files) (place : List Text) :
    (fs.below place).Pairwise fun a b => a.1 ≠ b.1 := by
  refine List.Pairwise.filterMap _ ?_ (List.pairwise_map.mp fs.distinct)
  intro e e' hne a ha b hb
  obtain ⟨-, rfl⟩ := continues_iff.mp ha
  obtain ⟨-, rfl⟩ := continues_iff.mp hb
  exact fun heq => hne (congrArg (place ++ ·) heq)

theorem at?_eq_some_iff (hne : place ≠ []) :
    fs.at? place = some entry ↔ (place, entry) ∈ fs.entries := by
  rw [at?, if_neg (by simpa using hne)]
  refine ⟨fun hlookup => ?_, lookup_of_mem fs.distinct⟩
  obtain ⟨before, after, he, -⟩ := List.lookup_eq_some_iff.mp hlookup
  rw [he]
  exact List.mem_append_right _ List.mem_cons_self

theorem mem_below_iff_at? : (rel, entry) ∈ fs.below place ↔
    rel ≠ [] ∧ fs.at? (place ++ rel) = some entry := by
  rw [mem_below_iff]
  refine and_congr_right fun hne => (at?_eq_some_iff ?_).symm
  exact List.append_ne_nil_of_right_ne_nil _ hne

/-! ### What is to be linted -/

theorem isSome_ofPath?_iff : (Language.ofPath? p).isSome = true ↔
    p.suffix.lower ∈ Language.suffixes.map Prod.fst := by
  rw [Language.ofPath?, Option.isSome_iff_ne_none, Ne, List.lookup_eq_none_iff, List.mem_map]
  simp only [bne_iff_ne, ne_eq, not_forall, not_not, exists_prop]
  exact exists_congr fun _ => and_congr_right fun _ => eq_comm

theorem kept?_eq_some_iff {e : List Text × Entry} : kept? e = some rel ↔ e.1 = rel ∧
    e.2.isFile = true ∧ (Path.suffix ⟨"", rel⟩).lower ∈ Language.suffixes.map Prod.fst ∧
    ∀ part ∈ rel, part ∉ excluded := by
  simp only [kept?, Option.ite_none_right_eq_some, Bool.and_eq_true, Bool.not_eq_true',
    List.any_eq_false, List.contains_iff_mem, isSome_ofPath?_iff, Option.some.injEq]
  constructor
  · rintro ⟨⟨⟨hfile, hsupported⟩, hincluded⟩, rfl⟩
    exact ⟨rfl, hfile, hsupported, hincluded⟩
  · rintro ⟨rfl, hfile, hsupported, hincluded⟩
    exact ⟨⟨⟨hfile, hsupported⟩, hincluded⟩, rfl⟩

theorem supported_of_plain (cs : List Char) (h : ∀ c ∈ cs, c.toNat < 128)
    (supported : Text × Language) (hmem : supported ∈ Language.suffixes)
    (hs : p.suffix = .ofChars cs) (hsmall : Text.ofChars (cs.map Char.toLower) = supported.1) :
    p.suffix.lower ∈ Language.suffixes.map Prod.fst := by
  rw [hs, Text.lower_ofChars h, hsmall]
  exact List.mem_map_of_mem hmem

theorem isFileAt_iff : fs.isFileAt place = true ↔
    ∃ entry, fs.at? place = some entry ∧ entry.isFile = true := by
  rw [isFileAt]
  cases fs.at? place <;> simp

theorem mem_lintable :
    rel ∈ fs.lintable place ↔ fs.Lintable p place rel := by
  rw [lintable, List.mem_mergeSort, List.mem_filterMap]
  constructor
  · rintro ⟨⟨parts, entry⟩, hmem, hkept⟩
    obtain ⟨rfl, hfile, hsupported, hincluded⟩ := kept?_eq_some_iff.mp hkept
    obtain ⟨hne, hentry⟩ := mem_below_iff_at?.mp hmem
    rw [← p.suffix_append hne] at hsupported
    exact ⟨hne, isFileAt_iff.mpr ⟨entry, hentry, hfile⟩, hsupported, hincluded⟩
  · rintro ⟨hne, hfile, hsupported, hincluded⟩
    rw [p.suffix_append hne] at hsupported
    obtain ⟨entry, hentry, hfile⟩ := isFileAt_iff.mp hfile
    exact ⟨(rel, entry), mem_below_iff_at?.mpr ⟨hne, hentry⟩,
      kept?_eq_some_iff.mpr ⟨rfl, hfile, hsupported, hincluded⟩⟩

theorem nodup_lintable (fs : Files) (place : List Text) :
    (fs.lintable place).Nodup := by
  rw [lintable, (List.mergeSort_perm _ _).nodup_iff]
  refine List.Pairwise.filterMap _ ?_ (fs.pairwise_below place)
  intro e e' hne a ha b hb
  obtain ⟨rfl, -⟩ := kept?_eq_some_iff.mp ha
  obtain ⟨rfl, -⟩ := kept?_eq_some_iff.mp hb
  exact hne

theorem pairwise_lintable (fs : Files) (p : Path) (place : List Text) :
    ((fs.lintable place).map p.append).Pairwise fun a b =>
      Path.codes a.parts < Path.codes b.parts := by
  have hsorted : (fs.lintable place).Pairwise fun a b => Path.partsLe a b = true :=
    List.pairwise_mergeSort Path.partsLe_trans Path.partsLe_total _
  refine List.pairwise_map.mpr ((hsorted.and (fs.nodup_lintable place)).imp ?_)
  rintro a b ⟨hle, hne⟩
  exact p.codes_append_lt (lt_of_le_of_ne (Path.partsLe_iff.mp hle) (Path.codes_injective.ne hne))

theorem mem_map_append {q : Path} :
    q ∈ (fs.lintable place).map p.append ↔ ∃ rel, fs.Lintable p place rel ∧ q = p.append rel := by
  rw [List.mem_map]
  exact exists_congr fun rel => and_congr mem_lintable eq_comm

end

/-! ### The search -/

/-- The system takes the paths that the search of a directory asks about: those of the directories
below it and of the files it is to find. -/
structure Reaches (fs : Files) (p : Path) (place : List Text) : Prop where
  directories : ∀ rel, rel ≠ [] → fs.at? (place ++ rel) = some .directory →
    (p.append rel).isShort = true
  files : ∀ rel, fs.Lintable p place rel → (p.append rel).isShort = true

/-- The same of a path, if it leads to a directory. -/
def Searchable (fs : Files) (p : Path) : Prop :=
  ∀ place, fs.locate p = .ok place → fs.at? place = some .directory → fs.Reaches p place

/-- What a path stands for: a file for itself, and a directory for the files to lint below it, each
once and in order. -/
inductive StandsFor (fs : Files) (p : Path) : List Path → Prop
  | file : fs.isFile p = .ok true → StandsFor fs p [p]
  | directory {place : List Text} {found : List Path} : fs.locate p = .ok place →
      fs.at? place = some .directory →
      (∀ q, q ∈ found ↔ ∃ rel, fs.Lintable p place rel ∧ q = p.append rel) →
      (found.Pairwise fun a b => Path.codes a.parts < Path.codes b.parts) → StandsFor fs p found

section
variable {fs : Files} {p : Path} {place : List Text}

theorem reaches_iff : fs.Reaches p place ↔
    ((fs.below place).all fun (parts, entry) => entry.isFile || (p.append parts).isShort) = true ∧
      ∀ q ∈ (fs.lintable place).map p.append, q.isShort = true := by
  rw [List.all_eq_true, List.forall_mem_map]
  constructor
  · intro hr
    refine ⟨?_, fun rel hrel => hr.files rel (mem_lintable.mp hrel)⟩
    rintro ⟨rel, entry⟩ hmem
    obtain ⟨hne, hentry⟩ := mem_below_iff_at?.mp hmem
    rcases entry with _ | ⟨bytes, tree⟩
    · exact hr.directories rel hne hentry
    · rfl
  · rintro ⟨hdirectories, hfiles⟩
    refine ⟨fun rel hne hentry => ?_, fun rel hrel => hfiles rel (mem_lintable.mpr hrel)⟩
    exact hdirectories (rel, .directory) (mem_below_iff_at?.mpr ⟨hne, hentry⟩)

theorem searchBelow_of_reaches (hr : fs.Reaches p place) :
    fs.searchBelow p place = { found := (fs.lintable place).map p.append } := by
  obtain ⟨hdirectories, hfiles⟩ := reaches_iff.mp hr
  rw [searchBelow, if_pos hdirectories, List.takeWhile_eq_self_iff.mpr hfiles,
    if_pos (List.all_eq_true.mpr hfiles)]

theorem fault?_searchBelow (hr : ¬ fs.Reaches p place) :
    (fs.searchBelow p place).fault? = some .nameTooLong := by
  rw [reaches_iff, ← List.all_eq_true] at hr
  rw [searchBelow]
  by_cases hdirectories : ((fs.below place).all fun (parts, entry) =>
      entry.isFile || (p.append parts).isShort) = true
  · rw [if_pos hdirectories]
    exact if_neg fun hfiles => hr ⟨hdirectories, hfiles⟩
  · rw [if_neg hdirectories]

theorem exists_locate (h : fs.contains p = .ok true) :
    ∃ place entry, fs.locate p = .ok place ∧ fs.at? place = some entry := by
  obtain ⟨entry, hfind⟩ := contains_eq_true_iff.mp h
  obtain ⟨place, hplace, hentry⟩ := exists_of_bind_eq_ok hfind
  refine ⟨place, entry, hplace, ?_⟩
  split at hentry
  · rename_i e he
    rw [he, Except.ok.inj hentry]
  · cases hentry

theorem isFile_of_locate {entry : Entry} (hplace : fs.locate p = .ok place)
    (hentry : fs.at? place = some entry) : fs.isFile p = .ok entry.isFile := by
  have hfind : fs.find p = .ok entry := by
    simp only [find, hplace, bind, Except.bind, hentry]
    rfl
  rw [isFile, ask, hfind]

theorem searchAt_of_directory (hplace : fs.locate p = .ok place)
    (hentry : fs.at? place = some .directory) : fs.searchAt p = fs.searchBelow p place := by
  rw [searchAt, hplace]
  dsimp only
  rw [hentry]

theorem searchAt_of_file {bytes : ByteArray} {tree : SyntaxTree} (hplace : fs.locate p = .ok place)
    (hentry : fs.at? place = some (.file bytes tree)) : fs.searchAt p = { found := [p] } := by
  rw [searchAt, hplace]
  dsimp only
  rw [hentry]

/-- A path that exists and can be searched gives what it stands for. -/
theorem searchAt_of_searchable (hthere : fs.contains p = .ok true)
    (hs : fs.Searchable p) :
    ∃ found, fs.StandsFor p found ∧ fs.searchAt p = { found := found } := by
  obtain ⟨place, entry, hplace, hentry⟩ := exists_locate hthere
  rcases entry with _ | ⟨bytes, tree⟩
  · rw [searchAt_of_directory hplace hentry, searchBelow_of_reaches (hs place hplace hentry)]
    exact ⟨_, .directory hplace hentry (fun _ => mem_map_append) (fs.pairwise_lintable p place),
      rfl⟩
  · exact ⟨[p], .file (isFile_of_locate hplace hentry), searchAt_of_file hplace hentry⟩

theorem fault?_searchAt (hs : ¬ fs.Searchable p) :
    (fs.searchAt p).fault? = some .nameTooLong := by
  obtain ⟨place, hs⟩ := not_forall.mp hs
  obtain ⟨hplace, hs⟩ := Classical.not_imp.mp hs
  obtain ⟨hentry, hs⟩ := Classical.not_imp.mp hs
  rw [searchAt_of_directory hplace hentry]
  exact fault?_searchBelow hs

end

/-! ### Discovery -/

section
variable {fs : Files} {paths : List Path}

theorem search_of_searchable
    (hexist : ∀ p ∈ paths, fs.contains p = .ok true) (hs : ∀ p ∈ paths, fs.Searchable p) :
    ∃ lists, List.Forall₂ fs.StandsFor paths lists ∧
      fs.search paths = { found := lists.flatten } := by
  induction paths with
  | nil => exact ⟨[], .nil, rfl⟩
  | cons p rest ih =>
    rw [List.forall_mem_cons] at hexist hs
    obtain ⟨found, hfound, hsearch⟩ := searchAt_of_searchable hexist.1 hs.1
    obtain ⟨lists, hlists, hrest⟩ := ih hexist.2 hs.2
    refine ⟨found :: lists, .cons hfound hlists, ?_⟩
    rw [search, hsearch, hrest]
    rfl

/-- The first path that cannot be searched ends the search. -/
theorem fault?_search
    (hexist : ∀ p ∈ paths, fs.contains p = .ok true) (hs : ¬ ∀ p ∈ paths, fs.Searchable p) :
    (fs.search paths).fault? = some .nameTooLong := by
  induction paths with
  | nil => exact absurd (List.forall_mem_nil _) hs
  | cons p rest ih =>
    rw [List.forall_mem_cons] at hexist hs
    rw [search, Search.andThen]
    by_cases hp : fs.Searchable p
    · obtain ⟨found, -, hsearch⟩ := searchAt_of_searchable hexist.1 hp
      rw [hsearch, if_neg (by simp)]
      exact ih hexist.2 fun hrest => hs ⟨hp, hrest⟩
    · have hfault := fault?_searchAt hp
      rw [if_pos (by simp [hfault]), hfault]

end

/-- Discovery gives what the paths stand for, one after the other: a file stands for itself, and a
directory for just those files below it that have a supported suffix and none of whose components
from there on is excluded, each once and in the order of components. It fails only where the search
asks the system about a path that is too long. -/
theorem discover_exact (fs : Files) (paths : List Path)
    (hexist : ∀ p ∈ paths, fs.contains p = .ok true) :
    ((∀ p ∈ paths, fs.Searchable p) → ∃ lists, List.Forall₂ fs.StandsFor paths lists ∧
      fs.discover paths = .ok lists.flatten) ∧
    ((¬ ∀ p ∈ paths, fs.Searchable p) → fs.discover paths = .error .nameTooLong) := by
  refine ⟨fun hs => ?_, fun hs => ?_⟩
  · obtain ⟨lists, hlists, hsearch⟩ := search_of_searchable hexist hs
    refine ⟨lists, hlists, ?_⟩
    rw [discover, hsearch]
    rfl
  · rw [discover, Search.result, fault?_search hexist hs]

/-! ### A path that is too long to be searched -/

def blankFile : Entry := .file "".toUTF8 .blank

def nestedFiles : Files := ⟨[(["a"], .directory), (["a", "x.js"], blankFile)], [], by decide⟩

/-- A path that goes into the directory `a` and out again so many times before it goes on. -/
def winding (times : Nat) (parts : List Text) : Path :=
  ⟨"", (List.replicate times [Text.ofString "a", Path.up]).flatten ++ parts⟩

theorem follow_winding (times : Nat) (parts : List Text) :
    nestedFiles.follow [] (winding times parts).parts = nestedFiles.follow [] parts := by
  induction times with
  | zero => rfl
  | succ times ih =>
    rw [← ih]
    have hparts : (winding (times + 1) parts).parts =
        Text.ofString "a" :: Path.up :: (winding times parts).parts := rfl
    rw [hparts]
    generalize (winding times parts).parts = rest
    rfl

theorem marks_text {parts : List Text} (h : parts ≠ []) :
    (Path.mk "" parts).text.marks =
      List.intercalate (Text.ofString "/").marks (parts.map Text.marks) := by
  rw [Path.text, if_neg (by simpa using h)]
  rfl

theorem marks_winding (times : Nat) {parts : List Text} (h : parts ≠ []) :
    (winding times parts).text.marks =
      (List.replicate times (Text.ofString "a/../").marks).flatten ++
        (winding 0 parts).text.marks := by
  induction times with
  | zero => rfl
  | succ times ih =>
    have hne : (winding times parts).parts ≠ [] := List.append_ne_nil_of_right_ne_nil _ h
    have hloop : (Text.ofString "a/../").marks = (Text.ofString "a").marks ++
        (Text.ofString "/").marks ++ (Path.up.marks ++ (Text.ofString "/").marks) := by
      decide
    calc (winding (times + 1) parts).text.marks
        = List.intercalate (Text.ofString "/").marks ((Text.ofString "a").marks :: Path.up.marks ::
            (winding times parts).parts.map Text.marks) := marks_text (List.cons_ne_nil _ _)
      _ = (Text.ofString "a/../").marks ++ (winding times parts).text.marks := by
          rw [List.intercalate_cons_cons, List.intercalate_cons_of_ne_nil (by simpa using hne),
            ← marks_text hne, hloop, List.append_assoc _ _ (winding times parts).text.marks]
          rfl
      _ = _ := by rw [ih, List.replicate_succ, List.flatten_cons, List.append_assoc]

theorem byteSize_winding (times : Nat) {parts : List Text} (h : parts ≠ []) :
    (winding times parts).text.byteSize = times * 5 + (winding 0 parts).text.byteSize := by
  have hloop : ((Text.ofString "a/../").marks.map Text.markBytes).sum = 5 := by decide
  rw [Text.byteSize_eq_sum, Text.byteSize_eq_sum, marks_winding times h, List.map_append,
    List.sum_append, List.map_flatten, List.map_replicate, List.sum_flatten, List.map_replicate,
    List.sum_replicate, hloop, smul_eq_mul]

theorem mem_of_mem_winding {times : Nat} {m : Mark} (hm : m ∈ (winding times ["a"]).text.marks) :
    m ∈ (Text.ofString "a/../").marks := by
  rw [marks_winding times (List.cons_ne_nil _ _), List.mem_append] at hm
  rcases hm with hm | hm
  · obtain ⟨l, hl, hm⟩ := List.mem_flatten.mp hm
    rwa [List.eq_of_mem_replicate hl] at hm
  · have hend : ∀ m ∈ (winding 0 ["a"]).text.marks, m ∈ (Text.ofString "a/../").marks := by
      decide
    exact hend m hm

/-- The directory is there by every such path that is not too long. -/
theorem locate_winding {times : Nat} (h : times * 5 + 1 ≤ Path.maxLength) :
    nestedFiles.locate (winding times ["a"]) = .ok [Text.ofString "a"] := by
  have hencodable : (winding times ["a"]).text.isEncodable = true := by
    refine List.all_eq_true.mpr fun m hm => ?_
    have hloop : (Text.ofString "a/../").isEncodable = true := by decide
    exact List.all_eq_true.mp hloop m (mem_of_mem_winding hm)
  have hzero : (winding times ["a"]).text.containsChar '\x00' = false := by
    refine Bool.eq_false_iff.mpr fun hm => ?_
    have hloop : Mark.char '\x00' ∉ (Text.ofString "a/../").marks := by decide
    exact hloop (mem_of_mem_winding (List.contains_iff_mem.mp hm))
  have hshort : (winding times ["a"]).isShort = true := by
    have hend : (winding 0 ["a"]).text.byteSize = 1 := by decide
    rw [Path.isShort, byteSize_winding times (List.cons_ne_nil _ _), hend]
    exact decide_eq_true h
  have hfault : (winding times ["a"]).fault? = none := by
    rw [Path.fault?, hencodable, hzero, hshort]
    rfl
  rw [locate, hfault]
  exact follow_winding times ["a"]

theorem lintable_winding (times : Nat) :
    nestedFiles.Lintable (winding times ["a"]) ["a"] ["x.js"] := by
  refine ⟨by decide, by decide, ?_, by decide⟩
  rw [Path.suffix_append _ (List.cons_ne_nil _ _)]
  exact supported_of_plain ['.', 'j', 's'] (by simp) (".js", .javascript)
    (by simp [Language.suffixes]) rfl rfl

theorem not_searchable_winding {times : Nat} (h : times * 5 + 1 ≤ Path.maxLength)
    (hlong : Path.maxLength < times * 5 + 6) : ¬ nestedFiles.Searchable (winding times ["a"]) := by
  intro hs
  have happend : (winding times ["a"]).append ["x.js"] = winding times ["a", "x.js"] :=
    congrArg (Path.mk "") (List.append_assoc _ _ _)
  have hend : (winding 0 ["a", "x.js"]).text.byteSize = 6 := by decide
  have hshort := (hs _ (locate_winding h) rfl).files _ (lintable_winding times)
  rw [happend, Path.isShort, byteSize_winding times (List.cons_ne_nil _ _), hend,
    decide_eq_true_iff] at hshort
  omega

theorem contains_winding {times : Nat} (h : times * 5 + 1 ≤ Path.maxLength) :
    nestedFiles.contains (winding times ["a"]) = .ok true := by
  refine contains_eq_true_iff.mpr ⟨.directory, ?_⟩
  rw [find, locate_winding h]
  rfl

/-- Not every path that exists can be searched: one can be so long that the paths of the files below
it are too long for the system. -/
theorem not_forall_discover_lists : ¬ ∀ (fs : Files) (paths : List Path),
    (∀ p ∈ paths, fs.contains p = .ok true) → ∃ lists, List.Forall₂ fs.StandsFor paths lists ∧
      fs.discover paths = .ok lists.flatten := by
  intro h
  obtain ⟨times, hexist, hlong⟩ : ∃ times, times * 5 + 1 ≤ Path.maxLength ∧
      Path.maxLength < times * 5 + 6 := ⟨818, by decide, by decide⟩
  have hthere : ∀ p ∈ [winding times ["a"]], nestedFiles.contains p = .ok true :=
    List.forall_mem_singleton.mpr (contains_winding hexist)
  obtain ⟨lists, -, hdiscover⟩ := h nestedFiles [winding times ["a"]] hthere
  have hfault := fault?_search hthere fun hs =>
    not_searchable_winding hexist hlong (List.forall_mem_singleton.mp hs)
  rw [discover, Search.result, hfault] at hdiscover
  cases hdiscover

/-! ### A tree that is searched -/

/-- An excluded name in front of files and behind, a directory that is named like a file, and a file
of no supported type in the working directory. -/
def builtFiles : Files :=
  ⟨[(["build"], .directory), (["build", "B.TSX"], blankFile), (["build", "vendor"], .directory),
    (["build", "vendor", "d.js"], blankFile), (["build", "x.js"], .directory),
    (["build", "x.js", "c.ts"], blankFile), (["work"], .directory),
    (["work", "notes"], blankFile)], ["work"], by decide⟩

def builtPaths : List Path := [.ofText "notes", .ofText "/build"]

def builtNames : List (List Text) := [["B.TSX"], ["x.js", "c.ts"]]

theorem lintable_builtFiles : builtFiles.lintable ["build"] = builtNames := by
  have hcapitals : kept? (["B.TSX"], blankFile) = some [Text.ofString "B.TSX"] := by
    refine kept?_eq_some_iff.mpr ⟨rfl, rfl, ?_, by decide⟩
    exact supported_of_plain ['.', 'T', 'S', 'X'] (by simp) (".tsx", .tsx)
      (by simp [Language.suffixes]) rfl rfl
  have hbelow : kept? (["x.js", "c.ts"], blankFile) =
      some [Text.ofString "x.js", Text.ofString "c.ts"] := by
    refine kept?_eq_some_iff.mpr ⟨rfl, rfl, ?_, by decide⟩
    exact supported_of_plain ['.', 't', 's'] (by simp) (".ts", .typescript)
      (by simp [Language.suffixes]) rfl rfl
  have hvendor : kept? (["vendor", "d.js"], blankFile) = none :=
    Option.eq_none_iff_forall_ne_some.mpr fun rel hrel => by
      obtain ⟨rfl, -, -, hincluded⟩ := kept?_eq_some_iff.mp hrel
      exact hincluded "vendor" List.mem_cons_self (by decide)
  have hkept : (builtFiles.below ["build"]).filterMap kept? = builtNames := by
    change List.filterMap kept? [(["B.TSX"], blankFile), (["vendor"], .directory),
      (["vendor", "d.js"], blankFile), (["x.js"], .directory), (["x.js", "c.ts"], blankFile)] = _
    rw [List.filterMap_cons_some hcapitals, List.filterMap_cons_none rfl,
      List.filterMap_cons_none hvendor, List.filterMap_cons_none rfl,
      List.filterMap_cons_some hbelow]
    rfl
  rw [lintable, hkept]
  exact List.mergeSort_of_pairwise (by decide)

theorem locate_notes :
    builtFiles.locate (.ofText "notes") = .ok [Text.ofString "work", Text.ofString "notes"] := by
  rfl

theorem locate_build : builtFiles.locate (.ofText "/build") = .ok [Text.ofString "build"] := by rfl

theorem reaches_build : builtFiles.Reaches (.ofText "/build") ["build"] := by
  rw [reaches_iff, lintable_builtFiles]
  exact ⟨rfl, by decide⟩

theorem searchable_builtPaths : ∀ p ∈ builtPaths, builtFiles.Searchable p := by
  refine List.forall_mem_cons.mpr ⟨fun place hplace hentry => ?_,
    List.forall_mem_singleton.mpr fun place hplace _ => ?_⟩
  · obtain rfl := Except.ok.inj (locate_notes.symm.trans hplace)
    cases hentry
  · obtain rfl := Except.ok.inj (locate_build.symm.trans hplace)
    exact reaches_build

/-- The file of no supported type stands for itself. Files of either case are found, also below the
directory that is named like one; the one behind an excluded name is not, though the path itself has
such a name. -/
theorem builtPaths_discovered :
    (∀ p ∈ builtPaths, builtFiles.contains p = .ok true) ∧
    (∀ p ∈ builtPaths, builtFiles.Searchable p) ∧
    ∃ lists, List.Forall₂ builtFiles.StandsFor builtPaths lists ∧
      builtFiles.discover builtPaths = .ok lists.flatten ∧
      lists.flatten = [.ofText "notes", .ofText "/build/B.TSX", .ofText "/build/x.js/c.ts"] := by
  have hexist : ∀ p ∈ builtPaths, builtFiles.contains p = .ok true :=
    List.forall_mem_cons.mpr ⟨by rfl, List.forall_mem_singleton.mpr (by rfl)⟩
  obtain ⟨lists, hlists, hdiscover⟩ :=
    (discover_exact builtFiles builtPaths hexist).1 searchable_builtPaths
  refine ⟨hexist, searchable_builtPaths, lists, hlists, hdiscover, ?_⟩
  have hsearch : builtFiles.search builtPaths =
      { found := [.ofText "notes", .ofText "/build/B.TSX", .ofText "/build/x.js/c.ts"] } := by
    rw [builtPaths, search, search, search, searchAt_of_file locate_notes rfl,
      searchAt_of_directory locate_build rfl,
      searchBelow_of_reaches reaches_build, lintable_builtFiles]
    rfl
  rw [discover, hsearch] at hdiscover
  exact (Except.ok.inj hdiscover).symm

end Files
end MutationLint
