import MutationLint.Config.Environment
import MutationLint.Decimal.Integer
import MutationLint.Files.Basic
import MutationLint.Linter.Basic
import MutationLint.Text.Utf8

/-! What a project configures: options for all rules, entries for single rules, and the file they
come from. An option is taken from the most specific layer that has its key. -/

namespace MutationLint

structure Project where
  options : Fields
  rules : Fields
  source : Option Path

inductive ConfigFault where
  | missing (path : Path)
  | json (path : Path) (detail : String)
  | toml (path : Path) (detail : String)
  /-- An integer in a file has more digits than are read. -/
  | tooManyDigits (count : Nat)
  | notText (fault : Text.Utf8.Fault)
  | notObject (source : Option Path)
  | rulesNotObject (source : Option Path)
  | options (fault : OptionFault)
  | unknownRules (unknown : UnknownRules)
  /-- The table of tools is not a table. -/
  | toolNotTable
  /-- The file cannot be read at all. -/
  | file (fault : FileFault)
  /-- A variable cannot be set. -/
  | environment (fault : EnvFault)

namespace ConfigFault

def sourceText (source : Option Path) : Text := (source.map Path.text).getD "None"

def message : ConfigFault → Text
  | .missing p => Text.ofString "Config file not found: " ++ p.text
  | .json p detail => Text.ofString "Invalid JSON in " ++ p.text ++ ": " ++ detail
  | .toml p detail => Text.ofString "Invalid TOML in " ++ p.text ++ ": " ++ detail
  | .tooManyDigits n => Decimal.readLimit n
  | .notText f => f.message
  | .notObject s => Text.ofString "Configuration in " ++ sourceText s ++ " must be an object"
  | .rulesNotObject s => Text.ofString "'rules' in " ++ sourceText s ++ " must be an object"
  | .options f => f.message
  | .unknownRules u => u.message
  | .toolNotTable => "The table of tools must be a table"
  | .file .zeroByte => EnvFault.zeroByte.message
  | .file _ => "The file cannot be read"
  | .environment f => f.message

/-- A fault of the configuration itself, which is reported to the user. -/
def isReported : ConfigFault → Bool
  | .toolNotTable | .options .notObject | .environment .emptyName => false
  | .file f => f = .zeroByte
  | _ => true

end ConfigFault

namespace Project

def empty : Project := ⟨.empty, .empty, none⟩

def ofValue (raw : Value) (source : Option Path) : Except ConfigFault Project :=
  match raw.object? with
  | some fields =>
    let rules := (fields.get? "rules").getD .null
    let options := fields.erase "rules"
    if rules.isBare then .ok ⟨options, .empty, source⟩
    else match rules.object? with
      | some entries => .ok ⟨options, entries, source⟩
      | none => .error (.rulesNotObject source)
  | none => .error (.notObject source)

/-- A rule runs unless its entry is `false`. -/
def isEnabled (p : Project) (rule : Text) : Bool :=
  match p.rules.get? rule with
  | some (.bool false) => false
  | _ => true

def merged (p : Project) (rule : Text) (overrides : Fields) : Fields :=
  let entry := ((p.rules.get? rule).bind Value.object?).getD .empty
  (p.options.merge entry).merge overrides

def optionsFor (p : Project) (rule : Text) (overrides : Fields) : Except OptionFault Options :=
  Options.ofFields (p.merged rule overrides)

end Project
end MutationLint
