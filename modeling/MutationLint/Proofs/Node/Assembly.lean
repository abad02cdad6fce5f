import MutationLint.Node.Build

/-! What it takes for a layout to be carried out. Each lemma turns a part that was made into the
parts that were made for it. -/

namespace MutationLint

theorem exists_of_bind_eq_ok {ε α β : Type} {x : Except ε α} {f : α → Except ε β} {b : β}
    (h : x >>= f = .ok b) : ∃ a, x = .ok a ∧ f a = .ok b := by
  cases x with
  | error e => cases h
  | ok a => exact ⟨a, rfl, h⟩

theorem lookup_of_mem {α β : Type} [BEq α] [LawfulBEq α] {l : List (α × β)} {a : α} {b : β}
    (hnodup : (l.map Prod.fst).Nodup) (h : (a, b) ∈ l) : l.lookup a = some b := by
  obtain ⟨before, after, rfl⟩ := List.append_of_mem h
  refine List.lookup_eq_some_iff.mpr ⟨before, after, rfl, fun p hp => ?_⟩
  rw [List.map_append, List.map_cons, List.nodup_append] at hnodup
  simpa using (hnodup.2.2 p.1 (List.mem_map_of_mem hp) a List.mem_cons_self).symm

theorem eq_ok_of_toOption {ε α : Type} {e : Except ε α} {a : α} (h : e.toOption = some a) :
    e = .ok a := by
  cases e with
  | error _ => cases h
  | ok b => exact congrArg Except.ok (Option.some.inj h)

namespace Layout

section
variable {source : Source} {build : SyntaxTree → Built} {b : Option Node}

theorem of_collect_cons {α β : Type} {make : α → Except BuildFault (Option β)} {role : Role}
    {a : α} {rest : List (Role × α)} {made : List (Role × β)}
    (h : collect make ((role, a) :: rest) = .ok made) :
    ∃ b others, make a = .ok b ∧ collect make rest = .ok others ∧
      made = b.toList.map (role, ·) ++ others := by
  obtain ⟨b, hb, h⟩ := exists_of_bind_eq_ok h
  obtain ⟨others, hothers, h⟩ := exists_of_bind_eq_ok h
  refine ⟨b, others, hb, hothers, (Except.ok.inj h).symm.trans ?_⟩
  cases b <;> rfl

theorem of_makePiece_declared {t : SyntaxTree}
    (h : makePiece source build (.declared t) = .ok b) :
    ∃ made, build t = .ok made ∧ b = made.map Node.asDeclaration := by
  obtain ⟨made, hmade, h⟩ := exists_of_bind_eq_ok h
  exact ⟨made, hmade, (Except.ok.inj h).symm⟩

theorem of_makePiece_spelled {t : SyntaxTree} (h : makePiece source build (.spelled t) = .ok b) :
    ∃ name, b = some (.mk (.identifier name) t.extent []) := by
  obtain ⟨name, -, h⟩ := exists_of_bind_eq_ok h
  exact ⟨name, (Except.ok.inj h).symm⟩

theorem of_optional_some {t? : Option SyntaxTree} {n : Node}
    (h : (t?.map build).getD (.ok none) = .ok (some n)) :
    ∃ t, t? = some t ∧ build t = .ok (some n) := by
  cases t? with
  | none => cases h
  | some t => exact ⟨t, rfl, h⟩

variable {extent : Extent}

theorem of_makePart_group {label : Label} {pieces : List (Role × Piece)}
    (h : makePart source build extent (.group label pieces) = .ok b) :
    ∃ children, collect (makePiece source build) pieces = .ok children ∧
      b = some (.mk label extent children) := by
  obtain ⟨children, hchildren, h⟩ := exists_of_bind_eq_ok h
  exact ⟨children, hchildren, (Except.ok.inj h).symm⟩

theorem of_assemble_identifier (h : Layout.identifier.assemble source build extent = .ok b) :
    ∃ name, b = some (.mk (.identifier name) extent []) := by
  obtain ⟨name, -, h⟩ := exists_of_bind_eq_ok h
  exact ⟨name, (Except.ok.inj h).symm⟩

theorem of_assemble_literal (h : Layout.literal.assemble source build extent = .ok b) :
    ∃ raw, b = some (.mk (.literal raw) extent []) := by
  obtain ⟨raw, -, h⟩ := exists_of_bind_eq_ok h
  exact ⟨raw, (Except.ok.inj h).symm⟩

theorem of_assemble_node {label : Label} {parts : List (Role × Part)}
    (h : (Layout.node label parts).assemble source build extent = .ok b) :
    ∃ children, collect (makePart source build extent) parts = .ok children ∧
      b = some (.mk (label.settle children) extent children) := by
  obtain ⟨children, hchildren, h⟩ := exists_of_bind_eq_ok h
  exact ⟨children, hchildren, (Except.ok.inj h).symm⟩

/-- A parameter is its pattern at another place, or the pattern with its default value. -/
theorem of_assemble_parameter {pattern value : Option SyntaxTree}
    (h : (Layout.parameter pattern value).assemble source build extent = .ok b) :
    ∃ p v, (pattern.map build).getD (.ok none) = .ok p ∧
      (value.map build).getD (.ok none) = .ok v ∧
      b = match v with
        | none => p.map (·.withExtent extent)
        | some v =>
          some (.mk .assignmentPattern extent (p.toList.map (.left, ·) ++ [(.right, v)])) := by
  obtain ⟨p, hp, h⟩ := exists_of_bind_eq_ok h
  obtain ⟨v, hv, h⟩ := exists_of_bind_eq_ok h
  exact ⟨p, v, hp, hv, (Except.ok.inj h).symm⟩

end

end Layout
end MutationLint
