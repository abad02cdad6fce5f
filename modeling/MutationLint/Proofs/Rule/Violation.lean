import MutationLint.Rule.Check

/-! What the rules object to, said without running them: which sites violate a rule, the category a
violation belongs to, and that a check which returns reports exactly the violations. -/

namespace MutationLint

/-- The rule objects to the site. -/
def Rule.Violates (r : Rule) (o : Options) (s : Site) : Prop :=
  match r, s.label with
  | .noMutation, .assignment _ =>
    s.isExempt o = false ∧ isLocal o s.left? s.parent? = false
  | .noMutation, .update _ _ => isLocal o (s.node.child? .argument) (some s) = false
  | .noMutatingFunctions, .call _ =>
    ∃ name, (s.node.child? .callee).bind Node.qualifiedName? = some name ∧
      Callee.isMutating o.lodashImports name = true ∧
      ¬ (s.node.childrenIn .arguments ≠ [] ∧ Text.ofString name ∈ o.ignoredMethods) ∧
      freshFirst o s = false ∧ s.isReducerResult o.reducers = false
  | _, _ => False

def Site.category (s : Site) : Category :=
  match s.label with
  | .assignment _ => s.errorType.category
  | .update operator _ => operator.category
  | _ => .mutatingFunction

/-- The finding tells of the rule's violation at the site. -/
structure Describes (filePath : Option Text) (v : Rule × Site) (f : Finding) : Prop where
  rule : f.rule = v.1
  node : f.node = v.2.node
  line : f.line = v.2.node.extent.line
  column : f.column = v.2.node.extent.column
  category : f.category = v.2.category
  filePath : f.filePath = filePath

theorem describes_report (c : FileContext) (r : Rule) {s : Site} {k : Category}
    (hk : s.category = k) (named : Option (String × String)) :
    Describes c.filePath (r, s) (c.report r s.node k named) :=
  ⟨rfl, rfl, rfl, rfl, hk.symm, rfl⟩

def Verdict.category? (v : Verdict) : Option Category := v.finding?.map (·.category)

namespace Rule

/-- A verdict that agrees with the violations: it reports one, or there is none. -/
def Settles (r : Rule) (o : Options) (c : FileContext) (s : Site) (v : Verdict) : Prop :=
  (r.Violates o s ∧ ∃ f, v = .reported f ∧ Describes c.filePath (r, s) f) ∨
    (¬ r.Violates o s ∧ v.finding? = none)

section
variable {o : Options} {c : FileContext} {s : Site} {v : Verdict}

theorem settles_checkAssignment {operator : String} (hl : s.label = .assignment operator)
    (h : checkAssignment o c s = .ok v) : noMutation.Settles o c s v := by
  unfold checkAssignment at h
  unfold Settles Violates
  simp only [hl]
  by_cases he : s.isExempt o = true
  · rw [if_pos he] at h
    cases ht : c.text s.left? with
    | error f => simp [ht, bind, Except.bind] at h
    | ok t =>
      simp only [ht, bind, Except.bind, pure, Except.pure, Except.ok.injEq] at h
      subst h
      exact Or.inr ⟨fun hv => absurd he (by simp [hv.1]), rfl⟩
  · rw [if_neg he] at h
    by_cases hloc : isLocal o s.left? s.parent? = true
    · rw [if_pos hloc] at h
      simp only [pure, Except.pure, Except.ok.injEq] at h
      subst h
      exact Or.inr ⟨fun hv => absurd hloc (by simp [hv.2]), rfl⟩
    · rw [if_neg hloc] at h
      cases ht : c.text s.left? with
      | error f => simp [ht, bind, Except.bind] at h
      | ok t =>
        simp only [ht, bind, Except.bind, pure, Except.pure, Except.ok.injEq] at h
        refine Or.inl ⟨⟨by simpa using he, by simpa using hloc⟩, _, h.symm, ?_⟩
        exact describes_report c _ (by simp [Site.category, hl]) _

theorem settles_checkUpdate {operator : UpdateOperator} {leading : Bool}
    (hl : s.label = .update operator leading) :
    noMutation.Settles o c s (checkUpdate o c operator s) := by
  unfold checkUpdate Settles Violates
  simp only [hl]
  by_cases hloc : isLocal o (s.node.child? .argument) (some s) = true
  · rw [if_pos hloc]
    exact Or.inr ⟨by simp [hloc], rfl⟩
  · rw [if_neg hloc]
    refine Or.inl ⟨by simpa using hloc, _, rfl, ?_⟩
    exact describes_report c _ (by simp [Site.category, hl]) _

theorem settles_checkCall {optional : Bool} (hl : s.label = .call optional) :
    noMutatingFunctions.Settles o c s (checkCall o c s) := by
  unfold checkCall Settles Violates
  simp only [hl]
  split
  · exact Or.inr ⟨fun ⟨name, hn, _⟩ => by simp_all, rfl⟩
  · rename_i name hname
    -- a callee has one name, so each test of the check settles the statement about some name
    have hone : ∀ other, (s.node.child? .callee).bind Node.qualifiedName? = some other →
        other = name := fun other ho => Option.some.inj (ho.symm.trans hname)
    split
    · rename_i hm
      refine Or.inr ⟨?_, rfl⟩
      rintro ⟨other, ho, hm', -⟩
      rw [hone other ho] at hm'
      simp [hm'] at hm
    · rename_i hm
      split
      · rename_i hi
        refine Or.inr ⟨?_, rfl⟩
        rintro ⟨other, ho, -, hi', -⟩
        rw [hone other ho] at hi'
        simp only [Bool.and_eq_true, Bool.not_eq_true', List.isEmpty_eq_false_iff,
          List.contains_iff_mem] at hi
        exact hi' hi
      · rename_i hi
        split
        · rename_i hf
          refine Or.inr ⟨?_, rfl⟩
          rintro ⟨other, ho, -, -, hf', hr'⟩
          simp [hf', hr'] at hf
        · rename_i hf
          refine Or.inl ⟨⟨name, hname, by simpa using hm, ?_, ?_⟩, _, rfl, ?_⟩
          · simpa only [Bool.and_eq_true, Bool.not_eq_true', List.isEmpty_eq_false_iff,
              List.contains_iff_mem] using hi
          · simpa using hf
          · exact describes_report c _ (by simp [Site.category, hl]) _

/-- A check that returns reports exactly the violations. -/
theorem settles_of_check {r : Rule} (h : r.check o c s = .ok v) : r.Settles o c s v := by
  unfold check at h
  split at h
  · rename_i operator hl
    exact settles_checkAssignment hl h
  · rename_i operator leading hl
    cases h
    exact settles_checkUpdate hl
  · rename_i optional hl
    cases h
    exact settles_checkCall hl
  · rename_i h1 h2 h3
    cases h
    refine Or.inr ⟨fun hv => ?_, rfl⟩
    unfold Violates at hv
    split at hv
    · exact h1 _ rfl ‹_›
    · exact h2 _ _ rfl ‹_›
    · exact h3 _ rfl ‹_›
    · exact hv

theorem check_of_not_handles {r : Rule} (h : r.handles s.label = false) :
    r.check o c s = .ok .allowed := by
  unfold check
  split <;> rename_i hl
  · simp [hl, handles, watches, Label.name] at h
  · simp [hl, handles, watches, Label.name] at h
  · simp [hl, handles, watches, Label.name] at h
  · rfl

end

end Rule
end MutationLint
