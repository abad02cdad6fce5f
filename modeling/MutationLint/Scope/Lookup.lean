import MutationLint.Scope.Freshness

/-! Look-ups of mutation targets. A bare name may be assigned when it is rebindable, a part of a
value may be written when the value is a fresh local, and a function or class declared in the block
may be given properties when that is allowed. -/

namespace MutationLint

namespace Site

/-- A `let` that binds the name; one that destructures must take a fresh value apart. -/
def isLetOf (declaration : Site) (name : String) : Bool :=
  declaration.node.declarationKind? == some "let" &&
    match declaration.declarator? name with
    | none => false
    | some a => if a.node.destructures then declaration.declaresFresh name else true

/-- The header of a loop that binds the name, other than by `const`. -/
def isLoopHeaderOf (declaration : Site) (name : String) : Bool :=
  declaration.label.isVariableDeclaration &&
    declaration.node.declarationKind? != some "const" &&
    (match declaration.parent? with
      | some loop => loop.label = .forStatement && declaration.role? == some .init
      | none => false) &&
    declaration.declares name

def isRebindableOf (declaration : Site) (name : String) : Bool :=
  declaration.isLetOf name || declaration.isLoopHeaderOf name

def isRebindable (start : Site) (name : String) : Bool :=
  match start.declaring? name with
  | none => false
  | some owner => (owner.declarationsOf name).any (·.isRebindableOf name)

end Site

namespace Node

/-- The statement declares, or exports, a function or class of that name. -/
def declaresFunction (statement : Node) (name : String) : Bool :=
  match if statement.label.isExport then statement.child? .declaration else some statement with
  | none => false
  | some d => d.label.isDeclaration && (d.child? .id).bind name? == some name

end Node

namespace Site

def hasFunction (start : Site) (name : String) : Bool :=
  start.blockScope.any fun s => s.node.statements.any (·.declaresFunction name)

end Site

/-- A mutation target and the site its look-up starts from. -/
structure Target where
  name : Option String
  start : Option Site

namespace Target

def of (node : Option Node) (start : Option Site) : Target := ⟨node.bind Node.base?, start⟩

def holds (t : Target) (p : Site → String → Bool) : Bool :=
  match t.name, t.start with
  | some name, some start => p start name
  | _, _ => false

def isRebindable (t : Target) : Bool := t.holds Site.isRebindable

def isFunction (t : Target) : Bool := t.holds Site.hasFunction

/-- The variable is a fresh local, or a local function where those count too. -/
def isFresh (t : Target) (functions : Bool) : Bool :=
  functions && t.isFunction || t.holds Site.isFresh

end Target
end MutationLint
