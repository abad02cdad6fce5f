import MutationLint.Exemption.Reducer
import MutationLint.Proofs.Node.Roles
import MutationLint.Proofs.Node.View

/-! Which code counts as a reducer callback. It is what stands in a function that is handed to a
call as an argument; a function that is called itself is none, for a callee that is a function has
no name. What a callback gives back stands in the callback. -/

namespace MutationLint

/-- The callee of the call is one of the names, or a member of that name. -/
inductive Node.Invokes (names : List Text) (call : Node) : Prop
  | bare {callee : Node} {name : String} : call.child? .callee = some callee →
      callee.label = .identifier name → Text.ofString name ∈ names → Invokes names call
  | member {callee property : Node} {name : String} {computed optional : Bool} :
      call.child? .callee = some callee → callee.label = .member computed optional →
      callee.child? .property = some property → property.label = .identifier name →
      Text.ofString name ∈ names → Invokes names call

namespace Node

theorem calleeName?_eq_some_iff {callee : Node} {name : String} :
    callee.calleeName? = some name ↔ callee.label = .identifier name ∨
      (∃ computed optional, callee.label = .member computed optional) ∧
        ∃ property, callee.child? .property = some property ∧
          property.label = .identifier name := by
  unfold calleeName?
  cases hl : callee.label <;>
    simp [Option.bind_eq_some_iff, identifier?_eq_some_iff]

theorem invokes_iff {names : List Text} {call : Node} : call.Invokes names ↔
    ∃ name, (call.child? .callee).bind calleeName? = some name ∧ Text.ofString name ∈ names := by
  constructor
  · rintro (⟨hc, hl, hn⟩ | ⟨hc, hl, hp, hname, hn⟩)
    · exact ⟨_, by rw [hc]; exact calleeName?_eq_some_iff.mpr (.inl hl), hn⟩
    · refine ⟨_, ?_, hn⟩
      rw [hc]
      exact calleeName?_eq_some_iff.mpr (.inr ⟨⟨_, _, hl⟩, _, hp, hname⟩)
  · rintro ⟨name, hname, hn⟩
    obtain ⟨callee, hc, hname⟩ := Option.bind_eq_some_iff.mp hname
    rcases calleeName?_eq_some_iff.mp hname with hl | ⟨⟨_, _, hl⟩, property, hp, hname⟩
    · exact .bare hc hl hn
    · exact .member hc hl hp hname hn

/-- A program, function or class has no name as a callee. -/
theorem calleeName?_of_endsBlock {n : Node} (h : n.label.endsBlock = true) :
    n.calleeName? = none := by
  unfold calleeName?
  cases hl : n.label <;> first | rfl | (rw [hl] at h; cases h)

end Node

namespace Site

/-- The second site is the nearest program, function or class at or above the first. -/
inductive Enclosed : Site → Site → Prop
  | here {s : Site} : s.label.endsBlock = true → Enclosed s s
  | up {s p block : Site} : s.label.endsBlock = false → s.parent? = some p → Enclosed p block →
      Enclosed s block

theorem Enclosed.endsBlock {s block : Site} (h : Enclosed s block) :
    block.label.endsBlock = true := by
  induction h with
  | here hb => exact hb
  | up _ _ _ ih => exact ih

theorem Enclosed.mem_walk {program : Node} {s block : Site} (h : Enclosed s block)
    (hs : s ∈ walk program) : block ∈ walk program := by
  induction h with
  | here _ => exact hs
  | up _ hp _ ih => exact ih (mem_walk_of_parent? hs hp)

theorem block?_eq (s : Site) :
    s.block? = if s.label.endsBlock then some s else s.parent?.bind block? := by
  unfold block? blockScope
  rw [upTo_eq, List.find?_cons]
  cases s.label.endsBlock with
  | true => rfl
  | false => cases s.parent? <;> rfl

theorem block?_eq_some_iff {s block : Site} : s.block? = some block ↔ Enclosed s block := by
  constructor
  · obtain ⟨n, path⟩ := s
    induction path generalizing n with
    | nil =>
      intro h
      rw [block?_eq] at h
      split_ifs at h with hb
      · cases h
        exact .here hb
      · cases h
    | cons step path ih =>
      intro h
      rw [block?_eq] at h
      split_ifs at h with hb
      · cases h
        exact .here hb
      · exact .up (by simpa using hb) rfl (ih step.parent h)
  · intro h
    induction h with
    | here hb => rw [block?_eq, if_pos hb]
    | up hb hp _ ih => rw [block?_eq, hb, hp]; exact ih

theorem Enclosed.block?_eq {s block : Site} (h : Enclosed s block) : block.block? = some block := by
  rw [Site.block?_eq, if_pos h.endsBlock]

theorem inReducer_congr {reducers : List Text} {s t : Site} (h : s.block? = t.block?) :
    s.inReducer reducers = t.inReducer reducers := by
  unfold inReducer
  rw [h]

/-- A callback is a function right below a call of one of the names. -/
theorem inReducer_iff {reducers : List Text} {s : Site} : s.inReducer reducers = true ↔
    ∃ block call, Enclosed s block ∧ block.parent? = some call ∧ call.label.isCall = true ∧
      call.node.Invokes reducers := by
  unfold inReducer
  constructor
  · intro h
    cases hcall : s.block?.bind parent? with
    | none => simp [hcall] at h
    | some call =>
      obtain ⟨block, hb, hp⟩ := Option.bind_eq_some_iff.mp hcall
      rw [hcall, Bool.and_eq_true] at h
      refine ⟨block, call, block?_eq_some_iff.mp hb, hp, h.1, Node.invokes_iff.mpr ?_⟩
      cases hname : (call.node.child? .callee).bind Node.calleeName? with
      | none => simp [hname] at h
      | some name => exact ⟨name, rfl, by simpa [hname] using h.2⟩
  · rintro ⟨block, call, hb, hp, hl, hinvokes⟩
    obtain ⟨name, hname, hn⟩ := Node.invokes_iff.mp hinvokes
    simp [block?_eq_some_iff.mpr hb, hp, hl, hname, hn]

/-- In a call of some name, a function can only be an argument. -/
theorem mem_arguments_of_invokes {source : Source} {tree : SyntaxTree} {program : Node}
    (hbuilt : tree.program source = .ok program) {block call : Site} (hb : block ∈ walk program)
    (hends : block.label.endsBlock = true) (hp : block.parent? = some call)
    (hcall : call.label.isCall = true) {names : List Text} (hinvokes : call.node.Invokes names) :
    block ∈ call.childrenIn .arguments := by
  have hholds := SyntaxTree.holds_of_mem_walk hbuilt (mem_walk_of_parent? hb hp)
  have hchild := mem_children_of_parent? hb hp
  obtain ⟨i, role, n, hn, rfl⟩ := mem_children.mp hchild
  have hmem := List.mem_of_getElem? hn
  have hrole : role = .callee ∨ role = .arguments := by
    have hknown := hholds.known role (List.mem_map_of_mem hmem)
    cases hl : call.label with
    | call _ | construct => simpa [hl, Label.singleRoles, Label.listRole?, eq_comm] using hknown
    | _ => simp [hl, Label.isCall] at hcall
  rcases hrole with rfl | rfl
  · -- as the callee it would be the one the call is known by
    exfalso
    have honce : (call.node.children.map (·.1)).count .callee ≤ 1 := by
      apply hholds.once
      cases hl : call.label with
      | call _ | construct => simp [Label.singleRoles]
      | _ => simp [hl, Label.isCall] at hcall
    obtain ⟨name, hname, -⟩ := Node.invokes_iff.mp hinvokes
    have hnone : n.calleeName? = none := Node.calleeName?_of_endsBlock hends
    rw [Node.child?_of_mem hmem honce, Option.bind_some, hnone] at hname
    cases hname
  · exact List.mem_filter.mpr ⟨hchild, by simp [role?, descend]⟩

/-- The function whose result a call is encloses the call. -/
theorem Enclosed.of_resultOf? {s callback : Site} {optional : Bool} (hl : s.label = .call optional)
    (h : s.resultOf? = some callback) : Enclosed s callback := by
  obtain ⟨p, hp, h⟩ := Option.bind_eq_some_iff.mp h
  refine .up (by rw [hl]; rfl) hp ?_
  split at h
  · split_ifs at h
    exact block?_eq_some_iff.mp h
  · rename_i hlabel
    split_ifs at h
    cases h
    exact .here (by rw [hlabel]; rfl)
  · cases h

end Site

open Site

/-- A site of a built program is exempt as a reducer callback exactly when the nearest program,
function or class around it is an argument of a call of one of the reducers. A call that a callback
gives back is so exempt. -/
theorem inReducer_iff_argument {source : Source} {tree : SyntaxTree} {program : Node}
    (hbuilt : tree.program source = .ok program) {m : Site} (hm : m ∈ walk program)
    (reducers : List Text) :
    (m.inReducer reducers = true ↔ ∃ block call : Site, Enclosed m block ∧
      block ∈ call.childrenIn .arguments ∧ call.label.isCall = true ∧
      call.node.Invokes reducers) ∧
    ∀ optional, m.label = .call optional → m.isReducerResult reducers = true →
      m.inReducer reducers = true := by
  constructor
  · rw [inReducer_iff]
    constructor
    · rintro ⟨block, call, hb, hp, hl, hinvokes⟩
      exact ⟨block, call, hb, mem_arguments_of_invokes hbuilt (hb.mem_walk hm) hb.endsBlock hp hl
        hinvokes, hl, hinvokes⟩
    · rintro ⟨block, call, hb, harg, hl, hinvokes⟩
      have hp := parent?_of_mem_children (mem_children_of_mem_childrenIn harg)
      exact ⟨block, call, hb, hp, hl, hinvokes⟩
  · intro optional hl h
    unfold isReducerResult at h
    split at h
    · rename_i callback hresult
      have hb := Enclosed.of_resultOf? hl hresult
      rwa [inReducer_congr ((block?_eq_some_iff.mpr hb).trans hb.block?_eq.symm)]
    · cases h

/-- The tree of `reduce(() => f())`. -/
def reducedCall : SyntaxTree :=
  .mk "program" true none ⟨0, 17, 0, 0⟩
    [.mk "expression_statement" true none ⟨0, 17, 0, 0⟩
      [.mk "call_expression" true none ⟨0, 17, 0, 0⟩
        [.mk "identifier" true (some "function") ⟨0, 6, 0, 0⟩ [],
          .mk "arguments" true (some "arguments") ⟨6, 17, 0, 6⟩
            [.mk "arrow_function" true none ⟨7, 16, 0, 7⟩
              [.mk "formal_parameters" true (some "parameters") ⟨7, 9, 0, 7⟩ [],
                .mk "=>" false none ⟨10, 12, 0, 10⟩ [],
                .mk "call_expression" true (some "body") ⟨13, 16, 0, 13⟩
                  [.mk "identifier" true (some "function") ⟨13, 14, 0, 13⟩ [],
                    .mk "arguments" true (some "arguments") ⟨14, 16, 0, 14⟩ []]]]]]]

/-- The call of `f` is what the callback gives back, and the callback is an argument of `reduce`. -/
theorem reducedCall_in_argument : ∃ program,
    reducedCall.program (.ofText "reduce(() => f())") = .ok program ∧
    ∃ m ∈ walk program, m.label = .call false ∧ m.isReducerResult ["reduce"] = true ∧
      m.inReducer ["reduce"] = true ∧
      ∃ block call : Site, Enclosed m block ∧ block ∈ call.childrenIn .arguments ∧
        call.label.isCall = true ∧ call.node.Invokes ["reduce"] := by
  have hc : (reducedCall.program (.ofText "reduce(() => f())")).toOption.map (fun program =>
      (walk program).any fun m => m.label = .call false && m.isReducerResult ["reduce"]) =
        some true := by decide +kernel
  obtain ⟨program, hp, h⟩ := Option.map_eq_some_iff.mp hc
  obtain ⟨m, hm, h⟩ := List.any_eq_true.mp h
  rw [Bool.and_eq_true, decide_eq_true_iff] at h
  obtain ⟨hl, hresult⟩ := h
  have hbuilt := eq_ok_of_toOption hp
  obtain ⟨hiff, himp⟩ := inReducer_iff_argument hbuilt hm ["reduce"]
  have hin := himp false hl hresult
  exact ⟨program, hbuilt, m, hm, hl, hresult, hin, hiff.mp hin⟩

end MutationLint
