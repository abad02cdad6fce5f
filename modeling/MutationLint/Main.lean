import MutationLint.Command.Basic
import MutationLint.SyntaxTree.Dump

/-! The program. It reads the working directory, runs the command and prints what comes of it. The
syntax tree of `a.js` is read from `a.js.tree.json` beside it, where a parser has left it. -/

namespace MutationLint.Program

/-- Directories nested deeper than this are not read. -/
def maxDepth : Nat := 64

def treeFile (path : String) : String := path ++ ".tree.json"

/-- The tree beside a source file; without one the source counts as empty. -/
def readTree (path : String) : IO SyntaxTree := do
  try
    match Json.read (← IO.FS.readFile (treeFile path)) with
    | .ok v => return SyntaxTree.ofValue v
    | .error _ => return .blank
  catch _ => return .blank

def readBelow : Nat → String → List Text → IO (List (List Text × Entry))
  | 0, _, _ => return []
  | depth + 1, path, place => do
    let directory ← IO.FS.realPath path
    let mut found := []
    for item in ← directory.readDir do
      let path := path ++ "/" ++ item.fileName
      let place := place ++ [Text.ofString item.fileName]
      if ← item.path.isDir then
        found := found ++ (place, .directory) :: (← readBelow depth path place)
      else
        let tree ← if (Language.ofPath? ⟨"", place⟩).isSome then readTree path else pure .blank
        found := found ++ [(place, .file (← IO.FS.readBinFile path) tree)]
    return found

def readEnvironment (names : List Text) : IO Environment := do
  let mut env := Environment.empty
  for name in names do
    if let some value ← IO.getEnv name.plain then env := env.set name value
  return env

/-- The lines of what the console shows; the cells of a row stand side by side. -/
def lines : Command.Printed → List Text
  | .line fragments => [Markup.shown fragments]
  | .table title headers rows =>
    Markup.shown [title] :: (headers :: rows).map fun row =>
      Text.intercalate "  " (row.map fun cell => Markup.shown [cell])

def escapeMessage : Command.Escape → Text
  | .config f => f.message
  | .file f => (ConfigFault.file f).message
  | .lint (.language name) => LintFault.languageMessage name
  | .lint (.notText f) => f.message
  | .lint .kindless => "A declaration has no children"

def run (args : List String) : IO UInt32 := do
  let terminal := Terminal.utf8
  let here := (Path.ofText (Text.ofString (← IO.FS.realPath ".").toString)).parts
  let files := (← readBelow maxDepth "." here).foldl (fun fs e => fs.put e.1 e.2) (.bare here)
  let env ← readEnvironment [Config.fileVariable, Trace.switch]
  let outcome := Command.run ⟨files, env, terminal⟩ (args.map Text.ofString)
  IO.eprint outcome.trace.plain
  for printed in outcome.printed do
    for line in lines printed do IO.println (terminal.sanitize line).plain
  if let some e := outcome.escaped then IO.eprintln (escapeMessage e).plain
  return outcome.exit.toUInt32

end MutationLint.Program

def main (args : List String) : IO UInt32 := MutationLint.Program.run args
