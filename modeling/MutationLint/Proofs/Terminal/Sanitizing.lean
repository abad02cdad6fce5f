import Mathlib.Data.List.Basic
import Mathlib.Data.List.Pairwise
import MutationLint.Terminal.Console
import MutationLint.Terminal.Trace

/-! Replacing the icons of a text one after the other is one pass over it, as long as no ASCII form
holds an icon that is replaced later. No form in use holds an icon at all, so a text that has been
sanitized stays as it is, and the console and the traces may be given such texts. -/

namespace MutationLint.Terminal

/-! ### Tables of icons -/

/-- What one pass writes for a mark: the form of an icon, and any other mark as it is. -/
def formOf (table : List (Char × String)) (m : Mark) : List Mark :=
  match m.char?.bind fun c => table.lookup c with
  | some form => (Text.ofString form).marks
  | none => [m]

def IconFree (table : List (Char × String)) (marks : List Mark) : Prop :=
  ∀ icon ∈ table, Mark.char icon.1 ∉ marks

instance (table : List (Char × String)) (marks : List Mark) : Decidable (IconFree table marks) :=
  inferInstanceAs (Decidable (∀ icon ∈ table, Mark.char icon.1 ∉ marks))

/-- No form holds an icon that is replaced later. -/
def Layered (table : List (Char × String)) : Prop :=
  table.Pairwise fun icon later => Mark.char later.1 ∉ (Text.ofString icon.2).marks

def Settled (table : List (Char × String)) : Prop :=
  ∀ icon ∈ table, IconFree table (Text.ofString icon.2).marks

instance (table : List (Char × String)) : Decidable (Settled table) :=
  inferInstanceAs (Decidable (∀ icon ∈ table, IconFree table (Text.ofString icon.2).marks))

section
variable {table : List (Char × String)} {marks : List Mark}

theorem Settled.layered (h : Settled table) : Layered table :=
  List.pairwise_of_forall_mem_list h

theorem formOf_cons (icon : Char × String) (rest : List (Char × String)) (m : Mark) :
    formOf (icon :: rest) m =
      if m = .char icon.1 then (Text.ofString icon.2).marks else formOf rest m := by
  obtain ⟨c, form⟩ := icon
  cases m with
  | half i => rfl
  | char d =>
    by_cases hd : d = c
    · simp [formOf, Mark.char?, hd]
    · simp [formOf, Mark.char?, List.lookup_cons, hd, beq_false_of_ne hd]

theorem formOf_cases (table : List (Char × String)) (m : Mark) :
    (∃ icon ∈ table, m = .char icon.1 ∧ formOf table m = (Text.ofString icon.2).marks) ∨
      IconFree table [m] ∧ formOf table m = [m] := by
  induction table with
  | nil => exact .inr ⟨by simp [IconFree], by cases m <;> rfl⟩
  | cons icon rest ih =>
    rw [formOf_cons]
    split_ifs with hm
    · exact .inl ⟨icon, List.mem_cons_self, hm, rfl⟩
    · obtain ⟨other, hother, hform⟩ | ⟨hfree, hform⟩ := ih
      · exact .inl ⟨other, List.mem_cons_of_mem _ hother, hform⟩
      · exact .inr ⟨List.forall_mem_cons.mpr ⟨by simpa using Ne.symm hm, hfree⟩, hform⟩

theorem formOf_of_iconFree (h : IconFree table marks) {m : Mark} (hm : m ∈ marks) :
    formOf table m = [m] := by
  obtain ⟨icon, hicon, rfl, -⟩ | ⟨-, hform⟩ := formOf_cases table m
  · exact absurd hm (h icon hicon)
  · exact hform

theorem flatMap_formOf_of_iconFree (h : IconFree table marks) :
    marks.flatMap (formOf table) = marks := by
  rw [List.flatMap_congr fun m hm => formOf_of_iconFree h hm, List.flatMap_singleton']

/-- Replacement after replacement is one pass: what the first brings in is left alone by those that
follow it. -/
theorem foldl_replace_eq_flatMap (h : Layered table) (marks : List Mark) :
    table.foldl replace marks = marks.flatMap (formOf table) := by
  induction table generalizing marks with
  | nil => exact (flatMap_formOf_of_iconFree (by simp [IconFree])).symm
  | cons icon rest ih =>
    obtain ⟨hform, hrest⟩ := List.pairwise_cons.mp h
    rw [List.foldl_cons, ih hrest, replace, List.flatMap_assoc]
    refine List.flatMap_congr fun m _ => ?_
    rw [formOf_cons]
    split_ifs with hm
    · exact flatMap_formOf_of_iconFree hform
    · exact List.flatMap_singleton _ m

-- In a table that is not layered the bullets of one form are replaced in their turn.
example : [('…', "•••"), ('•', "*")].foldl replace [.char '…'] ≠
    [Mark.char '…'].flatMap (formOf [('…', "•••"), ('•', "*")]) := by decide

theorem Settled.iconFree_flatMap (h : Settled table) (marks : List Mark) :
    IconFree table (marks.flatMap (formOf table)) := by
  intro icon hicon hmem
  obtain ⟨m, -, hm⟩ := List.mem_flatMap.mp hmem
  obtain ⟨other, hother, -, hform⟩ | ⟨hfree, hform⟩ := formOf_cases table m
  · exact h other hother icon hicon (hform ▸ hm)
  · exact hfree icon hicon (hform ▸ hm)

end

/-! ### Texts -/

/-- All that is asked of the table in use, and so of an icon that is added to it. -/
theorem icons_settled : Settled icons := by decide

section
variable {t : Terminal} (h : t.takesUtf8 = false)
include h

theorem sanitize_eq_flatMap (text : Text) :
    t.sanitize text = ⟨text.marks.flatMap (formOf icons)⟩ := by
  rw [sanitize, h, if_neg Bool.false_ne_true, plain,
    foldl_replace_eq_flatMap icons_settled.layered]

theorem sanitize_append (a b : Text) : t.sanitize (a ++ b) = t.sanitize a ++ t.sanitize b := by
  simp only [sanitize_eq_flatMap h, Text.marks_append, List.flatMap_append]
  rfl

theorem iconFree_sanitize (text : Text) : IconFree icons (t.sanitize text).marks := by
  rw [sanitize_eq_flatMap h]
  exact icons_settled.iconFree_flatMap text.marks

theorem sanitize_eq_self_iff {text : Text} :
    t.sanitize text = text ↔ IconFree icons text.marks := by
  constructor
  · intro hself
    rw [← hself]
    exact iconFree_sanitize h text
  · intro hfree
    rw [sanitize_eq_flatMap h, flatMap_formOf_of_iconFree hfree]

theorem sanitize_sanitize (text : Text) : t.sanitize (t.sanitize text) = t.sanitize text :=
  (sanitize_eq_self_iff h).mpr (iconFree_sanitize h text)

end

/-! ### The console and the traces -/

section
variable {t : Terminal} (h : t.takesUtf8 = false)
include h

theorem sanitized_sanitized (v : Value) : t.sanitized (t.sanitized v) = t.sanitized v := by
  cases v with
  | string s => exact congrArg Value.string (sanitize_sanitize h s)
  | _ => rfl

theorem handed_map_sanitized (values : List Value) :
    t.handed (values.map t.sanitized) = t.handed values := by
  have hpass (vs : List Value) : t.handed vs = vs.map t.sanitized :=
    if_neg (by rw [h]; exact Bool.false_ne_true)
  rw [hpass, hpass, List.map_map]
  exact List.map_congr_left fun v _ => sanitized_sanitized h v

theorem iconFree_of_mem_handed {values : List Value} {text : Text}
    (hmem : .string text ∈ t.handed values) : IconFree icons text.marks := by
  rw [handed, h, if_neg Bool.false_ne_true] at hmem
  obtain ⟨v, -, hv⟩ := List.mem_map.mp hmem
  cases v with
  | string s =>
    obtain rfl : t.sanitize s = text := Value.string.inj hv
    exact iconFree_sanitize h s
  | _ => cases hv

theorem line_sanitize (space text : Text) :
    Trace.line t space (t.sanitize text) = Trace.line t space text := by
  rw [Trace.line, Trace.line, sanitize_append h, sanitize_append h _ text, sanitize_sanitize h]

theorem sanitize_line (space text : Text) :
    t.sanitize (Trace.line t space text) = Trace.line t space text := by
  have hend : t.sanitize (Text.ofString "\n") = "\n" :=
    (sanitize_eq_self_iff h).mpr (by decide)
  rw [Trace.line, sanitize_append h, sanitize_sanitize h, hend]

theorem map_sanitize_write (debug : Option Text) (space message : Text) (args : List Text) :
    (Trace.write t debug space message args).map t.sanitize =
      Trace.write t debug space message args := by
  have hnone : t.sanitize (Text.ofString "") = "" := (sanitize_eq_self_iff h).mpr (by decide)
  unfold Trace.write
  split_ifs with hoff hargs
  · exact congrArg Except.ok hnone
  · exact congrArg Except.ok (sanitize_line h space message)
  · cases Trace.fill message.marks args with
    | error e => rfl
    | ok marks => exact congrArg Except.ok (sanitize_line h space ⟨marks⟩)

end

/-- On a terminal that does not take UTF-8, sanitizing is one pass that writes the ASCII form of
each icon and every other mark as it is. So it goes through concatenation, leaves no icon, changes
exactly the texts that hold one, and does nothing the second time: strings may be sanitized before
they are printed, which hands the same values to the console, or traced, and a trace after it is
written. -/
theorem sanitize_single_pass {t : Terminal} (h : t.takesUtf8 = false) :
    (∀ text : Text, t.sanitize text = ⟨text.marks.flatMap (formOf icons)⟩) ∧
    (∀ a b : Text, t.sanitize (a ++ b) = t.sanitize a ++ t.sanitize b) ∧
    (∀ text : Text, t.sanitize (t.sanitize text) = t.sanitize text) ∧
    (∀ text : Text, IconFree icons (t.sanitize text).marks) ∧
    (∀ text : Text, t.sanitize text = text ↔ IconFree icons text.marks) ∧
    (∀ values : List Value, t.handed (values.map t.sanitized) = t.handed values ∧
      ∀ text : Text, .string text ∈ t.handed values → IconFree icons text.marks) ∧
    (∀ space text : Text, Trace.line t space (t.sanitize text) = Trace.line t space text) ∧
    ∀ (debug : Option Text) (space message : Text) (args : List Text),
      (Trace.write t debug space message args).map t.sanitize =
        Trace.write t debug space message args :=
  ⟨sanitize_eq_flatMap h, sanitize_append h, sanitize_sanitize h, iconFree_sanitize h,
    fun _ => sanitize_eq_self_iff h,
    fun values => ⟨handed_map_sanitized h values, fun _ => iconFree_of_mem_handed h⟩,
    line_sanitize h, map_sanitize_write h⟩

/-- A terminal with an encoding of one byte per character. -/
def codePage : Terminal := ⟨some (Text.ofString "CP1252"), none⟩

/-- Icons and ASCII forms side by side; a list keeps its icons. -/
theorem codePage_single_pass :
    codePage.takesUtf8 = false ∧
    codePage.sanitize (Text.ofString "✓ a ✗ b ⚠ [OK]" ++ Text.ofString " → • … │ ─") =
      Text.ofString "[OK] a [FAIL] b [WARN] [OK]" ++ Text.ofString " -> * ... | -" ∧
    codePage.sanitize (Text.ofString "→ [OK] ->") ≠ Text.ofString "→ [OK] ->" ∧
    codePage.sanitize (Text.ofString "[OK] ->") = Text.ofString "[OK] ->" ∧
    codePage.handed [.string (codePage.sanitize "⚠ x"), .list [.string "⚠"]] =
      codePage.handed [.string "⚠ x", .list [.string "⚠"]] ∧
    Trace.line codePage "files" (codePage.sanitize "→ a.js") =
      Trace.line codePage "files" "→ a.js" := by
  have hcode : codePage.takesUtf8 = false := by decide +kernel
  obtain ⟨hpass, happend, -, -, hself, hhanded, hline, -⟩ := sanitize_single_pass hcode
  refine ⟨hcode, ?_, fun he => ?_, (hself _).mpr (by decide),
    (hhanded [.string "⚠ x", .list [.string "⚠"]]).1, hline "files" "→ a.js"⟩
  · rw [happend, hpass, hpass]
    decide
  · exact absurd ((hself _).mp he) (by decide)

end MutationLint.Terminal
