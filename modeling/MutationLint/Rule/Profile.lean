import MutationLint.Rule.Check

/-! What a rule says about itself. -/

namespace MutationLint

structure Profile where
  name : String
  description : String
  categories : List Category
  /-- The node kinds it looks at, unless it has yet to say. -/
  watches : Option (List String)
  deriving DecidableEq, Repr

namespace Profile

def base : Profile := ⟨"", "", [], none⟩

def ofRule (r : Rule) : Profile := ⟨r.name, r.description, r.categories, some r.watches⟩

def find? (name : String) : Option Profile :=
  if name = "base" then some base else (Rule.ofName? name).map ofRule

end Profile
end MutationLint
