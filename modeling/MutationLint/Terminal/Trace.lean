import MutationLint.Terminal.Encoding

/-! Debug traces: one line per message, under the name of the part that wrote it, and only while
tracing is on. -/

namespace MutationLint.Trace

def switch : Text := "BETTER_MUTATION_DEBUG"

def isOn (value : Option Text) : Bool :=
  match value with
  | some v => (["1", "true", "yes", "on"] : List Text).contains v.lower
  | none => false

inductive Fault where
  | arguments
  deriving DecidableEq, Repr

/-- The message with each `%s` replaced by the next argument. -/
def fill : List Mark → List Text → Except Fault (List Mark)
  | .char '%' :: .char 's' :: rest, a :: args => return a.marks ++ (← fill rest args)
  | .char '%' :: .char 's' :: _, [] => .error .arguments
  | m :: rest, args => return m :: (← fill rest args)
  | [], [] => return []
  | [], _ :: _ => .error .arguments

def line (terminal : Terminal) (space text : Text) : Text :=
  terminal.sanitize (Text.ofString "better-mutation:" ++ space ++ " " ++ text) ++ "\n"

/-- What a trace writes. A message without arguments is taken as it is. -/
def write (terminal : Terminal) (debug : Option Text) (space message : Text)
    (args : List Text) : Except Fault Text :=
  if !isOn debug then .ok ""
  else if args.isEmpty then .ok (line terminal space message)
  else (fill message.marks args).map fun marks => line terminal space ⟨marks⟩

end MutationLint.Trace
