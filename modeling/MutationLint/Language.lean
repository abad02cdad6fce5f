import MutationLint.Files.Path
import MutationLint.Text.Case

/-! The languages that can be linted and the file suffixes that tell them. -/

namespace MutationLint

inductive Language where
  | javascript
  | typescript
  | tsx
  deriving DecidableEq, Repr

namespace Language

def all : List Language := [.javascript, .typescript, .tsx]

def name : Language → String
  | .javascript => "javascript"
  | .typescript => "typescript"
  | .tsx => "tsx"

def ofName? (name : Text) : Option Language := all.find? (Text.ofString ·.name == name)

def suffixes : List (Text × Language) :=
  [(".js", .javascript), (".jsx", .javascript), (".mjs", .javascript), (".cjs", .javascript),
    (".ts", .typescript), (".mts", .typescript), (".cts", .typescript), (".tsx", .tsx)]

/-- The language of a file, by its suffix in either case. -/
def ofPath? (p : Path) : Option Language := suffixes.lookup p.suffix.lower

end Language
end MutationLint
