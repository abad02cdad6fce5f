import MutationLint.Proofs.Node.ObjectChain
import MutationLint.Proofs.Rule.Violation

/-! Options that allow more. Every gate a site may pass is passed under more permissive options too,
so these have fewer violations, and what is reported of a violation does not depend on them. -/

namespace MutationLint

/-- The second options allow whatever the first ones do. Looking out for the imported functions of
lodash forbids more, so it counts the other way round. -/
structure Options.RelaxedBy (o₁ o₂ : Options) : Prop where
  commonjs : o₁.commonjs = true → o₂.commonjs = true
  prototypes : o₁.prototypes = true → o₂.prototypes = true
  allowThis : o₁.allowThis = true → o₂.allowThis = true
  functionProps : o₁.functionProps = true → o₂.functionProps = true
  exceptions : o₁.exceptions ⊆ o₂.exceptions
  reducers : o₁.reducers ⊆ o₂.reducers
  ignoredMethods : o₁.ignoredMethods ⊆ o₂.ignoredMethods
  lodashImports : o₂.lodashImports = true → o₁.lodashImports = true

/-! ### The gates -/

theorem Pattern.anyMatches_mono {ps qs : List Pattern} (h : ps ⊆ qs) {n : Node}
    (hn : anyMatches ps n = true) : anyMatches qs n = true := by
  rw [anyMatches_eq_any, List.any_eq_true] at hn ⊢
  obtain ⟨m, hm, hp⟩ := hn
  obtain ⟨p, hp, hpm⟩ := List.any_eq_true.mp hp
  exact ⟨m, hm, List.any_eq_true.mpr ⟨p, h hp, hpm⟩⟩

theorem Callee.isMutating_mono {b₁ b₂ : Bool} (h : b₁ = true → b₂ = true) {name : String}
    (hn : isMutating b₁ name = true) : isMutating b₂ name = true := by
  unfold isMutating at hn ⊢
  rw [Bool.or_eq_true] at hn ⊢
  refine hn.imp_right fun hl => ?_
  cases hs : (splitLast name.toList).1.isEmpty with
  | true =>
    simp only [hs, if_true, Bool.and_eq_true] at hl ⊢
    exact ⟨h hl.1, hl.2⟩
  | false => simpa only [hs, Bool.false_eq_true, if_false] using hl

theorem Target.isFresh_mono {b₁ b₂ : Bool} (h : b₁ = true → b₂ = true) {t : Target}
    (ht : t.isFresh b₁ = true) : t.isFresh b₂ = true := by
  rw [isFresh, Bool.or_eq_true, Bool.and_eq_true] at ht ⊢
  exact ht.imp_left fun hf => ⟨h hf.1, hf.2⟩

namespace Site

variable {rs₁ rs₂ : List Text} {s : Site}

theorem inReducer_mono (h : rs₁ ⊆ rs₂) (hs : s.inReducer rs₁ = true) : s.inReducer rs₂ = true := by
  unfold inReducer at hs ⊢
  cases hcall : s.block?.bind parent? with
  | none => simp [hcall] at hs
  | some call =>
    simp only [hcall, Bool.and_eq_true] at hs ⊢
    refine ⟨hs.1, ?_⟩
    cases hname : (call.node.child? .callee).bind Node.calleeName? with
    | none => simp [hname] at hs
    | some name =>
      simp only [hname, List.contains_iff_mem] at hs ⊢
      exact h hs.2

theorem isReducerResult_mono (h : rs₁ ⊆ rs₂) (hs : s.isReducerResult rs₁ = true) :
    s.isReducerResult rs₂ = true := by
  unfold isReducerResult at hs ⊢
  cases hr : s.resultOf? with
  | none => simp [hr] at hs
  | some callback =>
    simp only [hr] at hs ⊢
    exact inReducer_mono h hs

theorem parentInReducer_mono (h : rs₁ ⊆ rs₂) (hs : s.parentInReducer rs₁ = true) :
    s.parentInReducer rs₂ = true := by
  unfold parentInReducer at hs ⊢
  cases hp : s.parent? with
  | none => simp [hp] at hs
  | some p =>
    simp only [hp, Option.map_some, Option.getD_some] at hs ⊢
    exact inReducer_mono h hs

theorem writesException_mono {ps qs : List Pattern} (h : ps ⊆ qs)
    (hs : s.writesException ps = true) : s.writesException qs = true := by
  unfold writesException at hs ⊢
  cases hl : s.left? with
  | none => simp [hl] at hs
  | some left =>
    simp only [hl, Option.map_some, Option.getD_some] at hs ⊢
    exact Pattern.anyMatches_mono h hs

end Site

/-! ### Violations -/

namespace Options.RelaxedBy

variable {o₁ o₂ : Options} (h : o₁.RelaxedBy o₂) {s : Site}
include h

theorem patterns_subset : o₁.patterns ⊆ o₂.patterns := by
  intro p hp
  unfold patterns at hp ⊢
  cases ht : o₁.allowThis with
  | false =>
    have hp : p ∈ o₁.exceptions := by simpa [ht] using hp
    split
    · exact List.mem_append_left _ (h.exceptions hp)
    · exact h.exceptions hp
  | true =>
    rw [if_pos ht, List.mem_append] at hp
    rw [if_pos (h.allowThis ht), List.mem_append]
    exact hp.imp_left fun hp => h.exceptions hp

theorem isExempt (hs : s.isExempt o₁ = true) : s.isExempt o₂ = true := by
  simp only [Site.isExempt, Bool.or_eq_true, Bool.and_eq_true] at hs ⊢
  rcases hs with ((hs | hs) | hs) | hs
  · exact Or.inl (Or.inl (Or.inl ⟨h.commonjs hs.1, hs.2⟩))
  · exact Or.inl (Or.inl (Or.inr ⟨h.prototypes hs.1, hs.2⟩))
  · exact Or.inl (Or.inr (Site.writesException_mono h.patterns_subset hs))
  · exact Or.inr (Site.parentInReducer_mono h.reducers hs)

theorem isLocal {target : Option Node} {start : Option Site}
    (ht : Rule.isLocal o₁ target start = true) : Rule.isLocal o₂ target start = true := by
  unfold Rule.isLocal at ht ⊢
  split
  · rename_i hbare
    rwa [if_pos hbare] at ht
  · rename_i hbare
    rw [if_neg hbare] at ht
    exact Target.isFresh_mono h.functionProps ht

theorem freshFirst (hs : Rule.freshFirst o₁ s = true) : Rule.freshFirst o₂ s = true := by
  unfold Rule.freshFirst at hs ⊢
  cases hargs : s.node.childrenIn .arguments with
  | nil => simp [hargs] at hs
  | cons target rest =>
    simp only [hargs, Bool.or_eq_true] at hs ⊢
    exact hs.imp_right (Target.isFresh_mono h.functionProps)

/-- What violates a rule under more permissive options violates it under stricter ones. -/
theorem violates {r : Rule} (hv : r.Violates o₂ s) : r.Violates o₁ s := by
  -- a gate that is closed under the permissive options is closed under the strict ones
  have closed {a b : Bool} (hab : a = true → b = true) (hb : b = false) : a = false :=
    Bool.eq_false_iff.mpr fun ha => absurd (hab ha) (by simp [hb])
  unfold Rule.Violates at hv ⊢
  split at hv
  · exact ⟨closed h.isExempt hv.1, closed h.isLocal hv.2⟩
  · exact closed h.isLocal hv
  · obtain ⟨name, hname, hmutating, hignored, hfresh, hresult⟩ := hv
    refine ⟨name, hname, Callee.isMutating_mono h.lodashImports hmutating, ?_,
      closed h.freshFirst hfresh, closed (Site.isReducerResult_mono h.reducers) hresult⟩
    exact fun hi => hignored ⟨hi.1, h.ignoredMethods hi.2⟩
  · exact hv

end Options.RelaxedBy

/-! ### What is reported -/

namespace Rule

variable {o : Options} {c : FileContext} {s : Site} {f : Finding}

def findingAt (r : Rule) (c : FileContext) (s : Site) : Except Text.Utf8.Fault Finding :=
  match s.label with
  | .assignment _ => do
    return c.report r s.node s.category (some ("assignee", ← c.text s.left?))
  | .update _ _ => .ok (c.report r s.node s.category none)
  | _ => .ok (c.report r s.node s.category
      (((s.node.child? .callee).bind Node.qualifiedName?).map ("name", ·)))

theorem findingAt_of_check {r : Rule} (h : r.check o c s = .ok (.reported f)) :
    r.findingAt c s = .ok f := by
  unfold check at h
  split at h
  · rename_i operator hl
    unfold checkAssignment at h
    split at h
    · cases ht : c.text s.left? <;> simp [ht, bind, Except.bind, pure, Except.pure] at h
    · split at h
      · cases h
      · simp only [findingAt, hl, Site.category]
        cases ht : c.text s.left? with
        | error e => simp [ht, bind, Except.bind] at h
        | ok assignee =>
          simpa [ht, bind, Except.bind, pure, Except.pure] using h
  · rename_i operator leading hl
    unfold checkUpdate at h
    split at h
    · cases h
    · simpa [findingAt, hl, Site.category] using h
  · rename_i optional hl
    unfold checkCall at h
    split at h
    · cases h
    · rename_i name hname
      split at h
      · cases h
      · split at h
        · cases h
        · split at h
          · cases h
          · simpa [findingAt, hl, Site.category, hname] using h
  · cases h

end Rule
end MutationLint
