import MutationLint.Node.Walk
import MutationLint.Scope.Declaration

/-! Whether a name holds a fresh value: one that was made in its own scope and that nothing outside
can see. Literals are fresh, and so is what a fresh local holds; a circle of names that refer to
one another is not. -/

namespace MutationLint

abbrev Binding := String × Address

namespace Site

def bindings (program : Node) : List Binding :=
  (walk program).flatMap fun d =>
    d.declarators.flatMap fun a => a.node.boundNames.map (·, a.address)

/-- Whether an initial value is fresh, given which names are fresh where its declaration stands. -/
def initIsFresh (isFresh : String → Bool) (init : Option Node) : Bool :=
  match init with
  | none => false
  | some e => e.outcomes.all fun o =>
    match o with
    | none => false
    | some v =>
      v.label.isContainer || v.label.isLiteral ||
        (v.label.isReference && match v.base? with
          | some name => isFresh name
          | none => false)

/-- Freshness of a name as seen from a site, leaving out bindings under consideration. The depth
bounds how many bindings are followed. -/
def freshWithin : Nat → List Binding → String → Site → Bool
  | 0, _, _, _ => false
  | depth + 1, resolving, name, start =>
    match start.declaring? name with
    | none => false
    | some owner =>
      (owner.declarationsOf name).any fun d =>
        match d.declarator? name with
        | none => false
        | some a =>
          !resolving.contains (name, a.address) &&
            initIsFresh
              (fun other => freshWithin depth ((name, a.address) :: resolving) other owner)
              (a.node.child? .init)

/-- A chain of bindings without repetition is no longer than the program's bindings. -/
def depth (s : Site) : Nat := (bindings s.top).length + 1

def isFresh (start : Site) (name : String) : Bool := freshWithin start.depth [] name start

def initFresh (declaration : Site) (init : Option Node) : Bool :=
  initIsFresh (fun name => match declaration.parent? with
    | some owner => owner.isFresh name
    | none => false) init

def declaresFresh (declaration : Site) (name : String) : Bool :=
  match declaration.declarator? name with
  | none => false
  | some a =>
    initIsFresh
      (fun other => match declaration.parent? with
        | some owner => freshWithin declaration.depth [(name, a.address)] other owner
        | none => false)
      (a.node.child? .init)

end Site
end MutationLint
