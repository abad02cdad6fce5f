import MutationLint.Command.Check

/-! Running the program on its arguments. -/

namespace MutationLint.Command

def version : Text := "better-mutation 1.0.0"

def rulesTable : Printed :=
  .table (.markup "Rules") [.markup "Rule", .markup "Description"]
    (Rule.all.map fun r => [.markup (Text.ofString r.name), .markup (Text.ofString r.description)])

def run (w : World) (args : List Text) : Outcome :=
  match read? args with
  | none => { exit := 2, printed := [] }
  | some .help => { exit := 0, printed := [] }
  | some .version => { exit := 0, printed := [.line [.markup version]] }
  | some .rules => { exit := 0, printed := [rulesTable] }
  | some (.check a) => check w a

end MutationLint.Command
