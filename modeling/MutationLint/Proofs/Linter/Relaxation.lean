import MutationLint.Proofs.Linter.Outcome
import MutationLint.Proofs.Rule.Relaxation

/-! More permissive options take findings away and leave the others as they were: the findings of a
run are a sublist of those of the same run under stricter options. -/

namespace MutationLint

open List (Sublist Forall₂)

/-! ### Sublists -/

/-- What one function picks is found among the picks of another that agrees wherever it picks. -/
theorem filterMap_sublist_filterMap {α β : Type} {f g : α → Option β} {l : List α}
    (h : ∀ a ∈ l, ∀ b, g a = some b → f a = some b) : Sublist (l.filterMap g) (l.filterMap f) := by
  induction l with
  | nil => exact Sublist.refl _
  | cons a rest ih =>
    have ih := ih fun b hb => h b (List.mem_cons_of_mem a hb)
    cases hg : g a with
    | none =>
      rw [List.filterMap_cons_none hg]
      cases hf : f a with
      | none => rwa [List.filterMap_cons_none hf]
      | some b => exact (List.filterMap_cons_some hf) ▸ ih.cons b
    | some b =>
      rw [List.filterMap_cons_some hg, List.filterMap_cons_some (h a List.mem_cons_self b hg)]
      exact ih.cons_cons b

section
variable {α : Type} {le : α → α → Bool}

/-- In a sorted list cut at a point, the first part is what stands strictly below the point. -/
theorem filter_not_le_of_sorted {l₁ l₂ : List α} {a : α}
    (hsorted : (l₁ ++ a :: l₂).Pairwise fun x y => le x y = true)
    (hbelow : ∀ b ∈ l₁, (!le a b) = true) : (l₁ ++ l₂).filter (fun b => !le a b) = l₁ := by
  have habove : ∀ b ∈ l₂, le a b = true :=
    (List.pairwise_cons.mp (List.pairwise_append.mp hsorted).2.1).1
  rw [List.filter_append, List.filter_eq_self.mpr hbelow, List.filter_eq_nil_iff.mpr,
    List.append_nil]
  intro b hb
  simp [habove b hb]

theorem filter_le_of_sorted {l₁ l₂ : List α} {a : α}
    (hsorted : (l₁ ++ a :: l₂).Pairwise fun x y => le x y = true)
    (hbelow : ∀ b ∈ l₁, (!le a b) = true) : (l₁ ++ l₂).filter (fun b => le a b) = l₂ := by
  have habove : ∀ b ∈ l₂, le a b = true :=
    (List.pairwise_cons.mp (List.pairwise_append.mp hsorted).2.1).1
  rw [List.filter_append, List.filter_eq_self.mpr habove, List.filter_eq_nil_iff.mpr,
    List.nil_append]
  intro b hb
  simpa using hbelow b hb

theorem mergeSort_sublist_mergeSort (trans : ∀ a b c, le a b = true → le b c = true → le a c = true)
    (total : ∀ a b, (le a b || le b a) = true) {l₁ l₂ : List α} (h : Sublist l₁ l₂) :
    Sublist (l₁.mergeSort le) (l₂.mergeSort le) := by
  induction h with
  | slnil => exact Sublist.refl _
  | @cons l₁ l₂ a _ ih =>
    obtain ⟨front, back, hwith, hwithout, -⟩ := List.mergeSort_cons trans total a l₂
    rw [hwith]
    rw [hwithout] at ih
    exact ih.middle a
  | @cons_cons l₁ l₂ a _ ih =>
    -- the new element cuts both lists, and what lies below it in one lies below it in the other
    obtain ⟨front₁, back₁, hwith₁, hwithout₁, hbelow₁⟩ := List.mergeSort_cons trans total a l₁
    obtain ⟨front₂, back₂, hwith₂, hwithout₂, hbelow₂⟩ := List.mergeSort_cons trans total a l₂
    have hsorted₁ := List.pairwise_mergeSort trans total (a :: l₁)
    have hsorted₂ := List.pairwise_mergeSort trans total (a :: l₂)
    rw [hwith₁] at hsorted₁ ⊢
    rw [hwith₂] at hsorted₂ ⊢
    rw [hwithout₁, hwithout₂] at ih
    have hfront := ih.filter fun b => !le a b
    rw [filter_not_le_of_sorted hsorted₁ hbelow₁, filter_not_le_of_sorted hsorted₂ hbelow₂]
      at hfront
    have hback := ih.filter fun b => le a b
    rw [filter_le_of_sorted hsorted₁ hbelow₁, filter_le_of_sorted hsorted₂ hbelow₂] at hback
    exact hfront.append (hback.cons_cons a)

end

/-! ### Runs -/

namespace Rule

/-- What is reported under the more permissive options is reported, just so, under the others. -/
theorem check_of_relaxed {r : Rule} {o₁ o₂ : Options} (h : o₁.RelaxedBy o₂) {c : FileContext}
    {s : Site} {v : Verdict} {f : Finding} (h₁ : r.check o₁ c s = .ok v)
    (h₂ : r.check o₂ c s = .ok (.reported f)) : v = .reported f := by
  have hv : r.Violates o₁ s := by
    rcases settles_of_check h₂ with ⟨hv, -⟩ | ⟨-, hf⟩
    · exact h.violates hv
    · cases hf
  rcases settles_of_check h₁ with ⟨-, g, rfl, -⟩ | ⟨hn, -⟩
  · have hfg := (findingAt_of_check h₁).symm.trans (findingAt_of_check h₂)
    rw [Except.ok.inj hfg]
  · exact absurd hv hn

end Rule

namespace Linter

def RelaxedBy (l₁ l₂ : Linter) : Prop :=
  Forall₂ (fun a b => a.1 = b.1 ∧ a.2.RelaxedBy b.2) l₁.active l₂.active

theorem relaxedBy_of_create {options₁ options₂ : OptionSource} {names : Option (List Text)}
    {l₁ l₂ : Linter} (h : ∀ r, (options₁.get r).RelaxedBy (options₂.get r))
    (h₁ : create options₁ names = .ok l₁) (h₂ : create options₂ names = .ok l₂) :
    l₁.RelaxedBy l₂ := by
  obtain ⟨-, rfl⟩ := create_eq_ok_iff.mp h₁
  obtain ⟨-, rfl⟩ := create_eq_ok_iff.mp h₂
  rw [RelaxedBy, List.forall₂_map_left_iff, List.forall₂_map_right_iff, List.forall₂_same]
  exact fun r _ => ⟨rfl, h r⟩

variable {c : FileContext} {program : Node}

/-- One rule, when its run under the stricter options returns, reports less under the others. -/
theorem findingsOf_sublist {r : Rule} {o₁ o₂ : Options} (h : o₁.RelaxedBy o₂)
    (hok : ∀ s ∈ Site.walk program, ∃ v, r.check o₁ c s = .ok v) :
    Sublist (findingsOf c program (r, o₂)) (findingsOf c program (r, o₁)) := by
  rw [findingsOf, findingsOf]
  refine filterMap_sublist_filterMap fun s hs f hf => ?_
  obtain ⟨v₂, hv₂, hf⟩ := Option.bind_eq_some_iff.mp hf
  cases v₂ with
  | reported g =>
    obtain rfl := Option.some.inj hf
    obtain ⟨v₁, hv₁⟩ := hok s hs
    obtain rfl := Rule.check_of_relaxed h hv₁ (eq_ok_of_toOption hv₂)
    simp only [hv₁]
    rfl
  | allowed => cases hf
  | noted note => cases hf

theorem flatMap_findingsOf_sublist {as bs : List (Rule × Options)}
    (h : Forall₂ (fun a b => a.1 = b.1 ∧ a.2.RelaxedBy b.2) as bs)
    (hok : ∀ a ∈ as, ∀ s ∈ Site.walk program, ∃ v, a.1.check a.2 c s = .ok v) :
    Sublist (bs.flatMap (findingsOf c program)) (as.flatMap (findingsOf c program)) := by
  induction h with
  | nil => exact Sublist.refl _
  | @cons a b as bs hab _ ih =>
    obtain ⟨r, o₁⟩ := a
    obtain ⟨r', o₂⟩ := b
    obtain ⟨rfl, hrelaxed⟩ : r = r' ∧ o₁.RelaxedBy o₂ := hab
    rw [List.flatMap_cons, List.flatMap_cons]
    refine (findingsOf_sublist hrelaxed (hok (r, o₁) List.mem_cons_self)).append (ih ?_)
    exact fun x hx => hok x (List.mem_cons_of_mem _ hx)

/-- The findings of a run are among those of the run with stricter options: the same findings, in
the same order. -/
theorem lintSource_findings_sublist {options₁ options₂ : OptionSource}
    (relaxed : ∀ rule, (options₁.get rule).RelaxedBy (options₂.get rule))
    {names : Option (List Text)} {l₁ l₂ : Linter} (h₁ : create options₁ names = .ok l₁)
    (h₂ : create options₂ names = .ok l₂) (source : Source) (language : Text) (tree : SyntaxTree)
    (filePath : Option Text) {f₁ f₂ : List Finding}
    (returned₁ : (l₁.lintSource source language tree filePath).result = .ok f₁)
    (returned₂ : (l₂.lintSource source language tree filePath).result = .ok f₂) :
    Sublist f₂ f₁ := by
  obtain ⟨-, program, hp₁, hrun₁⟩ := lintSource_eq_ok_iff.mp returned₁
  obtain ⟨-, program', hp₂, hrun₂⟩ := lintSource_eq_ok_iff.mp returned₂
  obtain rfl : program = program' := Except.ok.inj (hp₁.symm.trans hp₂)
  obtain ⟨hreturns, rfl⟩ := lintProgram_eq_ok_iff.mp hrun₁
  obtain ⟨-, rfl⟩ := lintProgram_eq_ok_iff.mp hrun₂
  refine mergeSort_sublist_mergeSort Finding.le_trans Finding.le_total ?_
  exact flatMap_findingsOf_sublist (relaxedBy_of_create relaxed h₁ h₂) hreturns

end Linter

def writableA : Options := { exceptions := [⟨some "a", none, false⟩] }

theorem nestedMutations_findings_sublist :
    (∀ rule, ((OptionSource.shared {}).get rule).RelaxedBy
      ((OptionSource.shared writableA).get rule)) ∧
    ∃ l₁ l₂ f₁ f₂, Linter.create (.shared {}) none = .ok l₁ ∧
      Linter.create (.shared writableA) none = .ok l₂ ∧
      (l₁.lintSource (.ofText "a.b = c++") "javascript" nestedMutations none).result = .ok f₁ ∧
      (l₂.lintSource (.ofText "a.b = c++") "javascript" nestedMutations none).result = .ok f₂ ∧
      f₁.map (·.category) = [.reassignment, .increment] ∧ f₂.map (·.category) = [.increment] ∧
      Sublist f₂ f₁ := by
  have hrelaxed : ∀ rule, ((OptionSource.shared {}).get rule).RelaxedBy
      ((OptionSource.shared writableA).get rule) := fun _ =>
    ⟨id, id, id, id, List.nil_subset _, List.Subset.refl _, List.nil_subset _, id⟩
  have hcreate (o : Options) : Linter.create (.shared o) none =
      .ok ⟨[(.noMutation, o), (.noMutatingFunctions, o)]⟩ := by rfl
  have hc₁ : (Linter.lintSource ⟨[(.noMutation, {}), (.noMutatingFunctions, {})]⟩
      (.ofText "a.b = c++") "javascript" nestedMutations none).result.toOption.map
        (·.map (·.category)) = some [.reassignment, .increment] := by cbv
  have hc₂ : (Linter.lintSource ⟨[(.noMutation, writableA), (.noMutatingFunctions, writableA)]⟩
      (.ofText "a.b = c++") "javascript" nestedMutations none).result.toOption.map
        (·.map (·.category)) = some [.increment] := by cbv
  obtain ⟨f₁, hf₁, hcat₁⟩ := Option.map_eq_some_iff.mp hc₁
  obtain ⟨f₂, hf₂, hcat₂⟩ := Option.map_eq_some_iff.mp hc₂
  have hr₁ := eq_ok_of_toOption hf₁
  have hr₂ := eq_ok_of_toOption hf₂
  exact ⟨hrelaxed, _, _, f₁, f₂, hcreate {}, hcreate writableA, hr₁, hr₂, hcat₁, hcat₂,
    Linter.lintSource_findings_sublist hrelaxed (hcreate {}) (hcreate writableA) _ _ _ _ hr₁ hr₂⟩

end MutationLint
