import Mathlib.Data.Finset.Card
import Mathlib.Data.Prod.Lex
import Mathlib.Order.WellFounded
import MutationLint.Proofs.Scope.CycleGuard

/-! Resolving names comes to an end. Whether a name is fresh asks whether its bindings are, a
binding asks about its initial value, and a value about its branches or about another name. Along
any chain of such questions no binding is considered twice, so that a search may be cut off at the
number of bindings without a change to any answer. -/

namespace MutationLint

open Site

/-- A question that comes up while names are resolved, with the bindings under consideration. -/
inductive Question where
  /-- Is the name fresh as seen from the site? -/
  | lookup (resolving : List Binding) (name : String) (start : Site)
  /-- Does the declarator, of the declaration, bind the name to a fresh value? -/
  | binding (resolving : List Binding) (name : String) (declaration declarator : Site)
  /-- Is the initial value fresh where the declaration stands? -/
  | value (resolving : List Binding) (init : Option Node) (declaration : Site)

namespace Site

/-- The binding of a name by the declarator that some declaration of the program has for it. -/
def Resolvable (program : Node) (b : Binding) : Prop :=
  ∃ d ∈ walk program, (d.declarator? b.1).map address = some b.2

instance (program : Node) : DecidablePred (Resolvable program) := fun b =>
  inferInstanceAs (Decidable (∃ d ∈ walk program, (d.declarator? b.1).map address = some b.2))

def resolvable (program : Node) : Finset Binding :=
  (bindings program).toFinset.filter (Resolvable program)

theorem mem_resolvable {program : Node} {b : Binding} :
    b ∈ resolvable program ↔ Resolvable program b := by
  rw [resolvable, Finset.mem_filter, and_iff_right_iff_imp, List.mem_toFinset]
  rintro ⟨d, hd, ha⟩
  obtain ⟨a, ha, he⟩ := Option.map_eq_some_iff.mp ha
  obtain ⟨name, _⟩ := b
  obtain rfl : a.address = _ := he
  exact mem_bindings hd ha

theorem resolvable_of_declarator? {program : Node} {d a : Site} {name : String}
    (hd : d ∈ walk program) (ha : d.declarator? name = some a) :
    (name, a.address) ∈ resolvable program :=
  mem_resolvable.mpr ⟨d, hd, by rw [ha]; rfl⟩

theorem card_resolvable_le (program : Node) :
    (resolvable program).card ≤ (bindings program).length :=
  (Finset.card_filter_le _ _).trans (List.toFinset_card_le _)

end Site

namespace Question

def resolving : Question → List Binding
  | .lookup r _ _ | .binding r _ _ _ | .value r _ _ => r

def Of (program : Node) : Question → Prop
  | .lookup _ _ s => s ∈ walk program
  | .binding _ name d a => d ∈ walk program ∧ d.declarator? name = some a
  | .value _ _ d => d ∈ walk program

/-- The binding whose initial value the question goes on to, unless it is under consideration. -/
def entered? : Question → Option Binding
  | .binding r name _ a => if (name, a.address) ∈ r then none else some (name, a.address)
  | _ => none

/-- The questions that an answer can depend on. -/
def asks : Question → List Question
  | .lookup r name s =>
    match s.declaring? name with
    | none => []
    | some owner =>
      (owner.declarationsOf name).filterMap fun d => (d.declarator? name).map (.binding r name d)
  | .binding r name d a =>
    if (name, a.address) ∈ r then []
    else [.value ((name, a.address) :: r) (a.node.child? .init) d]
  | .value _ none _ => []
  | .value r (some e) d =>
    if e.label.isConditional then
      [.value r (e.child? .alternate) d, .value r (e.child? .consequent) d]
    else if e.label.isReference then
      match e.base?, d.parent? with
      | some name, some owner => [.lookup r name owner]
      | _, _ => []
    else []

/-- The answer to a question, given those to the questions it asks: a conditional needs both
branches, anything else that is no literal one of them. -/
def respond (answer : Question → Bool) (q : Question) : Bool :=
  match q with
  | .value _ none _ => false
  | .value _ (some e) _ =>
    if e.label.isConditional then q.asks.all answer
    else e.label.isContainer || e.label.isLiteral || q.asks.any answer
  | _ => q.asks.any answer

/-- The answer of a search that goes through at most so many bindings. -/
def answerWithin : Nat → Question → Bool
  | depth, .lookup r name s => freshWithin depth r name s
  | 0, .binding _ _ _ _ => false
  | depth + 1, .binding r name d a =>
    !r.contains (name, a.address) &&
      initIsFresh
        (fun other => (d.parent?.map (freshWithin depth ((name, a.address) :: r) other)).getD false)
        (a.node.child? .init)
  | depth, .value r init d =>
    initIsFresh (fun name => (d.parent?.map (freshWithin depth r name)).getD false) init

/-! ### One step -/

section
variable {program : Node} {q c : Question} {r : List Binding} {name : String}

theorem mem_asks_lookup {s : Site} : c ∈ (lookup r name s).asks ↔
    ∃ owner d a, Nearest name s owner ∧ d ∈ owner.declarations ∧ d.declarator? name = some a ∧
      c = binding r name d a := by
  rw [asks]
  constructor
  · intro h
    split at h
    · cases h
    · rename_i owner ho
      obtain ⟨d, hd, h⟩ := List.mem_filterMap.mp h
      obtain ⟨a, ha, rfl⟩ := Option.map_eq_some_iff.mp h
      exact ⟨owner, d, a, declaring?_eq_some_iff.mp ho, (mem_declarationsOf.mp hd).1, ha, rfl⟩
  · rintro ⟨owner, d, a, ho, hd, ha, rfl⟩
    rw [declaring?_eq_some_iff.mpr ho]
    refine List.mem_filterMap.mpr ⟨d, mem_declarationsOf.mpr ⟨hd, declares_of_declarator? ha⟩, ?_⟩
    rw [ha]
    rfl

theorem mem_asks_binding {d a : Site} : c ∈ (binding r name d a).asks ↔
    (name, a.address) ∉ r ∧ c = value ((name, a.address) :: r) (a.node.child? .init) d := by
  rw [asks]
  split_ifs with h <;> simp [h]

/-- A value asks about a smaller value in the same declaration, or about a name where that stands.
-/
theorem of_mem_asks_value {init : Option Node} {d : Site} (h : c ∈ (value r init d).asks) :
    ∃ e, init = some e ∧
      ((∃ role, c = value r (e.child? role) d) ∨
        ∃ name owner, d.parent? = some owner ∧ c = lookup r name owner) := by
  cases init with
  | none => cases h
  | some e =>
    refine ⟨e, rfl, ?_⟩
    rw [asks] at h
    split_ifs at h
    · rcases List.mem_cons.mp h with rfl | h
      · exact Or.inl ⟨_, rfl⟩
      · exact Or.inl ⟨_, List.mem_singleton.mp h⟩
    · split at h
      · rename_i name owner _ ho
        exact Or.inr ⟨name, owner, ho, List.mem_singleton.mp h⟩
      · cases h
    · cases h

theorem Of.asks (hq : q.Of program) (hc : c ∈ q.asks) : c.Of program := by
  cases q with
  | lookup r name s =>
    obtain ⟨owner, d, a, ho, hd, ha, rfl⟩ := mem_asks_lookup.mp hc
    have how := ho.mem_walk hq
    exact ⟨mem_walk_of_mem_children how (mem_children_of_mem_declarations hd), ha⟩
  | binding r name d a =>
    obtain ⟨-, rfl⟩ := mem_asks_binding.mp hc
    exact hq.1
  | value r init d =>
    obtain ⟨e, -, ⟨role, rfl⟩ | ⟨name, owner, ho, rfl⟩⟩ := of_mem_asks_value hc
    · exact hq
    · exact mem_walk_of_parent? hq ho

/-- A question goes on with the bindings under consideration, and the one it enters. -/
theorem resolving_of_mem_asks (hc : c ∈ q.asks) :
    c.resolving = q.entered?.toList ++ q.resolving := by
  cases q with
  | lookup r name s =>
    obtain ⟨owner, d, a, -, -, -, rfl⟩ := mem_asks_lookup.mp hc
    rfl
  | binding r name d a =>
    obtain ⟨hnew, rfl⟩ := mem_asks_binding.mp hc
    rw [entered?, if_neg hnew]
    rfl
  | value r init d =>
    obtain ⟨e, -, ⟨role, rfl⟩ | ⟨name, owner, -, rfl⟩⟩ := of_mem_asks_value hc
    · rfl
    · rfl

theorem Of.entered? (hq : q.Of program) {b : Binding} (hb : q.entered? = some b) :
    b ∈ resolvable program ∧ b ∉ q.resolving := by
  cases q with
  | lookup r name s => cases hb
  | value r init d => cases hb
  | binding r name d a =>
    rw [Question.entered?] at hb
    split_ifs at hb with hnew
    obtain rfl := Option.some.inj hb
    exact ⟨resolvable_of_declarator? hq.1 hq.2, hnew⟩

end

/-! ### Chains -/

def Asks (q c : Question) : Prop := c ∈ q.asks

/-- What a question adds to the bindings under consideration: one that evaluates the initial value
of a binding adds that binding, which is new, and no other adds anything. -/
def Grows : Question → Question → Prop
  | .binding r name _ a, c => (name, a.address) ∉ r ∧ c.resolving = (name, a.address) :: r
  | q, c => c.resolving = q.resolving

def trail (chain : List Question) : List Binding := chain.filterMap entered?

theorem reverse_trail_cons (q : Question) (chain : List Question) :
    (trail (q :: chain)).reverse = (trail chain).reverse ++ q.entered?.toList := by
  rw [trail, List.filterMap_cons]
  cases q.entered? with
  | none => exact (List.append_nil _).symm
  | some b => exact List.reverse_cons

theorem Asks.grows {q c : Question} (h : Asks q c) : Grows q c := by
  have hresolving := resolving_of_mem_asks h
  cases q with
  | lookup r name s => exact hresolving
  | value r init d => exact hresolving
  | binding r name d a =>
    obtain ⟨hnew, rfl⟩ := mem_asks_binding.mp h
    exact ⟨hnew, rfl⟩

/-- What holds of the bindings under consideration at some point of a search. -/
structure Sound (program : Node) (resolving : List Binding) : Prop where
  nodup : resolving.Nodup
  resolvable : ∀ b ∈ resolving, b ∈ resolvable program

theorem Sound.length_le {program : Node} {resolving : List Binding}
    (h : Sound program resolving) : resolving.length ≤ (Site.resolvable program).card := by
  rw [← List.toFinset_card_of_nodup h.nodup]
  exact Finset.card_le_card fun b hb => h.resolvable b (List.mem_toFinset.mp hb)

section
variable {program : Node}

theorem Sound.entered {q : Question} (h : Sound program q.resolving) (hq : q.Of program) :
    Sound program (q.entered?.toList ++ q.resolving) := by
  cases hb : q.entered? with
  | none => exact h
  | some b =>
    obtain ⟨hmem, hnew⟩ := hq.entered? hb
    exact ⟨List.nodup_cons.mpr ⟨hnew, h.nodup⟩, List.forall_mem_cons.mpr ⟨hmem, h.resolvable⟩⟩

/-- Along a chain all that is under consideration stays so, and no binding is entered again. -/
theorem Sound.chain {q : Question} {chain : List Question} (h : Sound program q.resolving)
    (hq : q.Of program) (hchain : (q :: chain).IsChain Asks) :
    (∀ c ∈ q :: chain, Sound program c.resolving) ∧
      Sound program ((trail (q :: chain)).reverse ++ q.resolving) := by
  induction chain generalizing q with
  | nil =>
    refine ⟨List.forall_mem_singleton.mpr h, ?_⟩
    rw [reverse_trail_cons, List.append_assoc]
    exact h.entered hq
  | cons c rest ih =>
    rw [List.isChain_cons_cons] at hchain
    obtain ⟨hc, hchain⟩ := hchain
    have hresolving := resolving_of_mem_asks hc
    obtain ⟨hrest, htrail⟩ := ih (hresolving ▸ h.entered hq) (hq.asks hc) hchain
    refine ⟨List.forall_mem_cons.mpr ⟨h, hrest⟩, ?_⟩
    rw [reverse_trail_cons, List.append_assoc, ← hresolving]
    exact htrail

/-- What keeps a chain of questions within bounds. -/
structure Bounded (program : Node) (chain : List Question) : Prop where
  resolvable : ∀ c ∈ chain, ∀ b ∈ c.resolving, Resolvable program b
  grows : chain.IsChain Grows
  nodup : (trail chain).Nodup
  length_le : (trail chain).length ≤ (Site.resolvable program).card

theorem Of.bounded {q : Question} {chain : List Question} (hq : q.Of program)
    (hstart : q.resolving = []) (hchain : (q :: chain).IsChain Asks) :
    Bounded program (q :: chain) := by
  have hnil : Sound program q.resolving := by
    rw [hstart]
    exact ⟨List.nodup_nil, by simp⟩
  obtain ⟨hall, htrail⟩ := hnil.chain hq hchain
  rw [hstart, List.append_nil] at htrail
  refine ⟨?_, hchain.imp fun _ _ => Asks.grows, List.nodup_reverse.mp htrail.nodup, ?_⟩
  · intro c hc b hb
    exact mem_resolvable.mp ((hall c hc).resolvable b hb)
  · rw [← List.length_reverse]
    exact htrail.length_le

end

/-! ### Termination -/

def remaining (program : Node) (q : Question) : Nat :=
  (resolvable program \ q.resolving.toFinset).card

/-- How far a question is from entering a binding or coming to an end. -/
def rank : Question → Nat
  | .binding _ _ _ _ => 0
  | .lookup _ _ _ => 1
  | .value _ init _ => 2 + (init.map Node.size).getD 0

section
variable {program : Node} {q c : Question}

theorem remaining_le (program : Node) (q : Question) :
    q.remaining program ≤ (resolvable program).card :=
  Finset.card_le_card Finset.sdiff_subset

/-- What remains for the questions that a question asks: one binding less if it enters one. -/
theorem Of.remaining_eq (hq : q.Of program) : q.remaining program = q.entered?.toList.length +
    (resolvable program \ (q.entered?.toList ++ q.resolving).toFinset).card := by
  cases h : q.entered? with
  | none => exact (Nat.zero_add _).symm
  | some b =>
    obtain ⟨hmem, hnew⟩ := hq.entered? h
    have hsplit : resolvable program \ q.resolving.toFinset =
        insert b (resolvable program \ (b :: q.resolving).toFinset) := by
      ext x
      rcases eq_or_ne x b with rfl | hx
      · simp [hmem, hnew]
      · simp [hx]
    rw [remaining, hsplit, Finset.card_insert_of_notMem (by simp), Nat.add_comm]
    rfl

theorem remaining_of_mem_asks (hq : q.Of program) (hc : c ∈ q.asks) :
    q.remaining program = q.entered?.toList.length + c.remaining program := by
  rw [hq.remaining_eq, ← resolving_of_mem_asks hc]
  rfl

theorem rank_lt (hc : c ∈ q.asks) (h : q.entered? = none) : c.rank < q.rank := by
  cases q with
  | lookup r name s =>
    obtain ⟨owner, d, a, -, -, -, rfl⟩ := mem_asks_lookup.mp hc
    exact Nat.zero_lt_one
  | binding r name d a =>
    obtain ⟨hnew, -⟩ := mem_asks_binding.mp hc
    rw [entered?, if_neg hnew] at h
    cases h
  | value r init d =>
    obtain ⟨e, rfl, ⟨role, rfl⟩ | ⟨name, owner, -, rfl⟩⟩ := of_mem_asks_value hc
    · have hpos := e.size_pos
      cases hchild : e.child? role with
      | none =>
        simp only [rank, Option.map_none, Option.map_some, Option.getD_none,
          Option.getD_some]
        omega
      | some b =>
        have hlt := Node.size_lt_of_child? hchild
        simp only [rank, Option.map_some, Option.getD_some]
        omega
    · simp only [rank]
      omega

/-- Every question asks only such as come before it: fewer bindings remain, or as many and it is
nearer to its end. -/
theorem measure_lt (hq : q.Of program) (hc : c ∈ q.asks) :
    toLex (c.remaining program, c.rank) < toLex (q.remaining program, q.rank) := by
  rw [Prod.Lex.toLex_lt_toLex]
  have hremaining := remaining_of_mem_asks hq hc
  cases h : q.entered? with
  | none => exact Or.inr ⟨by simpa [h] using hremaining.symm, rank_lt hc h⟩
  | some b =>
    rw [h, Option.toList_some, List.length_singleton] at hremaining
    exact Or.inl (by dsimp only; omega)

/-- To prove something of the questions of a program, it may be assumed of those a question asks. -/
theorem Of.induction {motive : (q : Question) → q.Of program → Prop}
    (step : ∀ q (hq : q.Of program), (∀ c (hc : c ∈ q.asks), motive c (hq.asks hc)) → motive q hq)
    (hq : q.Of program) : motive q hq := by
  induction hm : toLex (q.remaining program, q.rank) using WellFoundedLT.induction
    generalizing q with
  | _ m ih => exact step q hq fun c hc => ih _ (hm ▸ measure_lt hq hc) (hq.asks hc) rfl

end

/-! ### Answers -/

theorem respond_congr {f g : Question → Bool} {q : Question} (h : ∀ c ∈ q.asks, f c = g c) :
    respond f q = respond g q := by
  have hany : q.asks.any f = q.asks.any g := by
    rw [Bool.eq_iff_iff, List.any_eq_true, List.any_eq_true]
    exact exists_congr fun c => and_congr_right fun hc => by rw [h c hc]
  have hall : q.asks.all f = q.asks.all g := by
    rw [Bool.eq_iff_iff, List.all_eq_true, List.all_eq_true]
    exact forall_congr' fun c => imp_congr_right fun hc => by rw [h c hc]
  unfold respond
  split <;> simp only [hany, hall]

section
variable {depth : Nat} {r : List Binding} {name : String}

theorem answerWithin_binding_succ {d a : Site} :
    answerWithin (depth + 1) (binding r name d a) =
      respond (answerWithin depth) (binding r name d a) := by
  change _ = (binding r name d a).asks.any (answerWithin depth)
  rw [asks, answerWithin]
  by_cases h : (name, a.address) ∈ r
  · simp [h]
  · simp [h, answerWithin]

theorem answerWithin_lookup {s : Site} : answerWithin depth (lookup r name s) =
    respond (answerWithin depth) (lookup r name s) := by
  change freshWithin depth r name s = (lookup r name s).asks.any (answerWithin depth)
  rw [Bool.eq_iff_iff, List.any_eq_true]
  cases depth with
  | zero =>
    refine iff_of_false (by simp [freshWithin]) ?_
    rintro ⟨c, hc, h⟩
    obtain ⟨owner, d, a, -, -, -, rfl⟩ := mem_asks_lookup.mp hc
    cases h
  | succ depth =>
    rw [freshWithin_succ_iff]
    constructor
    · rintro ⟨owner, d, a, ho, hd, ha, hnew, h⟩
      refine ⟨_, mem_asks_lookup.mpr ⟨owner, d, a, ho, hd, ha, rfl⟩, ?_⟩
      simpa [answerWithin, hnew, parent?_of_mem_declarations hd] using h
    · rintro ⟨c, hc, h⟩
      obtain ⟨owner, d, a, ho, hd, ha, rfl⟩ := mem_asks_lookup.mp hc
      refine ⟨owner, d, a, ho, hd, ha, ?_⟩
      simpa [answerWithin, parent?_of_mem_declarations hd] using h

theorem answerWithin_value {init : Option Node} {d : Site} :
    answerWithin depth (value r init d) = respond (answerWithin depth) (value r init d) := by
  cases init with
  | none => rfl
  | some e =>
    rw [answerWithin, respond]
    cases hc : e.label.isConditional with
    | true =>
      rw [initIsFresh_of_conditional hc, if_pos rfl, asks, if_pos hc, Bool.and_comm]
      simp [answerWithin]
    | false =>
      rw [initIsFresh_of_not_conditional hc, outcomeIsFresh, if_neg Bool.false_ne_true, asks,
        if_neg (by simp [hc])]
      congr 1
      cases e.label.isReference with
      | false => rfl
      | true => cases e.base? <;> cases d.parent? <;> simp [answerWithin]

/-- A search spends one step of its depth on each binding it enters. -/
theorem answerWithin_step (q : Question) : answerWithin (q.entered?.toList.length + depth) q =
    respond (answerWithin depth) q := by
  cases q with
  | lookup r name s =>
    change answerWithin (0 + depth) _ = _
    rw [Nat.zero_add, answerWithin_lookup]
  | value r init d =>
    change answerWithin (0 + depth) _ = _
    rw [Nat.zero_add, answerWithin_value]
  | binding r name d a =>
    by_cases h : (name, a.address) ∈ r
    · have hasks : (binding r name d a).asks = [] := if_pos h
      rw [entered?, if_pos h, Option.toList_none, List.length_nil, Nat.zero_add]
      cases depth with
      | zero =>
        change false = (binding r name d a).asks.any _
        rw [hasks, List.any_nil]
      | succ depth =>
        rw [answerWithin_binding_succ]
        exact respond_congr (by simp [hasks])
    · rw [entered?, if_neg h, Option.toList_some, List.length_singleton, Nat.add_comm,
        answerWithin_binding_succ]

end

section
variable {program : Node} {q : Question}

/-- A search that may enter as many bindings as remain finds what any deeper one does. -/
theorem Of.answerWithin_eq {n m : Nat} (hq : q.Of program) (hn : q.remaining program ≤ n)
    (hm : q.remaining program ≤ m) : answerWithin n q = answerWithin m q := by
  induction hq using Of.induction generalizing n m with
  | step q hq ih =>
    have hentered := hq.remaining_eq
    obtain ⟨n, rfl⟩ := Nat.exists_eq_add_of_le (show q.entered?.toList.length ≤ n by omega)
    obtain ⟨m, rfl⟩ := Nat.exists_eq_add_of_le (show q.entered?.toList.length ≤ m by omega)
    rw [answerWithin_step, answerWithin_step]
    refine respond_congr fun c hc => ?_
    have hremaining := remaining_of_mem_asks hq hc
    exact ih c hc (by omega) (by omega)

/-- Such a search answers as the recursion without a bound says. -/
theorem Of.answerWithin_eq_respond {depth : Nat} (hq : q.Of program)
    (h : q.remaining program ≤ depth) :
    answerWithin depth q = respond (answerWithin depth) q := by
  rw [← answerWithin_step]
  exact hq.answerWithin_eq h (Nat.le_add_left_of_le h)

/-- There is no other answer to the questions of a program than that of such a search. -/
theorem Of.eq_answerWithin {answer : Question → Bool} {depth : Nat}
    (hanswer : ∀ q, q.Of program → answer q = respond answer q) (hq : q.Of program)
    (h : q.remaining program ≤ depth) : answer q = answerWithin depth q := by
  induction hq using Of.induction with
  | step q hq ih =>
    rw [hanswer q hq, hq.answerWithin_eq_respond h]
    refine respond_congr fun c hc => ih c hc ?_
    have hremaining := remaining_of_mem_asks hq hc
    omega

theorem Of.acc (hq : q.Of program) : Acc (fun c q => Asks q c) q := by
  induction hq using Of.induction with
  | step q hq ih => exact Acc.intro q ih

end

/-! ### The searches of the linter -/

section
variable {program : Node} {s d a : Site} {name : String}

theorem remaining_lt_depth (hs : s ∈ walk program) (q : Question) :
    q.remaining program < s.depth := by
  have hle := q.remaining_le program
  have hcard := card_resolvable_le program
  rw [depth, top_of_mem_walk hs]
  omega

theorem isFresh_eq (hs : s ∈ walk program) :
    s.isFresh name = answerWithin (resolvable program).card (lookup [] name s) := by
  have hq : (lookup [] name s).Of program := hs
  exact hq.answerWithin_eq (remaining_lt_depth hs _).le (remaining_le _ _)

theorem initFresh_eq {init : Option Node} (hd : d ∈ walk program) :
    d.initFresh init = answerWithin (resolvable program).card (value [] init d) := by
  rw [initFresh, answerWithin]
  congr 1
  funext name
  cases hp : d.parent? with
  | none => rfl
  | some owner => exact isFresh_eq (mem_walk_of_parent? hd hp)

theorem declaresFresh_eq (hd : d ∈ walk program) : d.declaresFresh name =
    (d.declarator? name).any fun a =>
      answerWithin (resolvable program).card (binding [] name d a) := by
  cases ha : d.declarator? name with
  | none => rw [declaresFresh, ha, Option.any_none]
  | some a =>
    have hq : (binding [] name d a).Of program := ⟨hd, ha⟩
    have hdepth : answerWithin (resolvable program).card (binding [] name d a) =
        answerWithin (d.depth + 1) (binding [] name d a) :=
      hq.answerWithin_eq (remaining_le _ _) (remaining_lt_depth hd _).le.step
    rw [Option.any_some, hdepth, declaresFresh, ha, answerWithin]
    cases d.parent? <;> rfl

end

/-- Resolving names comes to an end. A chain of questions that starts with nothing under
consideration has only bindings of the program there, one more for each initial value it evaluates
and none of them twice. So the recursion is well-founded, and a search that is cut off at the number
of bindings gives the one answer it has, as the linter's own searches do. -/
theorem resolution_terminates (program : Node) :
    (∀ b, b ∈ resolvable program ↔ Resolvable program b) ∧
    (∀ q chain, q.Of program → q.resolving = [] → (q :: chain).IsChain Asks →
      Bounded program (q :: chain)) ∧
    (∀ q, q.Of program → Acc (fun c q => Asks q c) q ∧
      (∀ depth, (resolvable program).card ≤ depth →
        answerWithin depth q = answerWithin (resolvable program).card q) ∧
      answerWithin (resolvable program).card q =
        respond (answerWithin (resolvable program).card) q ∧
      ∀ answer, (∀ q, q.Of program → answer q = respond answer q) →
        answer q = answerWithin (resolvable program).card q) ∧
    ∀ s ∈ walk program, ∀ name init,
      s.isFresh name = answerWithin (resolvable program).card (lookup [] name s) ∧
      s.initFresh init = answerWithin (resolvable program).card (value [] init s) ∧
      s.declaresFresh name = (s.declarator? name).any fun a =>
        answerWithin (resolvable program).card (binding [] name s a) := by
  refine ⟨fun _ => mem_resolvable, fun q chain hq => hq.bounded, fun q hq => ⟨hq.acc, ?_, ?_, ?_⟩,
    fun s hs name init => ⟨isFresh_eq hs, initFresh_eq hs, declaresFresh_eq hs⟩⟩
  · intro depth hdepth
    exact hq.answerWithin_eq ((remaining_le _ _).trans hdepth) (remaining_le _ _)
  · exact hq.answerWithin_eq_respond (remaining_le _ _)
  · intro answer hanswer
    exact hq.eq_answerWithin hanswer (remaining_le _ _)

end Question
end MutationLint
