import MutationLint.Files.Path
import MutationLint.SyntaxTree.Basic

/-! The files of a system, and its working directory. Each source file comes with the tree a parser
makes of it. Every directory on the way to an entry is an entry itself. -/

namespace MutationLint

inductive Entry where
  | directory
  | file (bytes : ByteArray) (tree : SyntaxTree)

namespace Entry

def isFile : Entry → Bool
  | .file _ _ => true
  | .directory => false

end Entry

/-- Places, by their components from the root on, with what is there. -/
structure Files where
  entries : List (List Text × Entry)
  /-- The place of the working directory. -/
  here : List Text
  distinct : (entries.map Prod.fst).Nodup

inductive FileFault where
  | notFound
  | isDirectory
  | notDirectory
  /-- Something of another kind is there already. -/
  | occupied
  | nameTooLong
  /-- The path holds a zero character. -/
  | zeroByte
  /-- The path cannot be put into bytes. -/
  | notEncodable
  deriving DecidableEq, Repr

namespace FileFault

/-- The faults that only mean that nothing is there. -/
def isAbsence : FileFault → Bool
  | .notFound | .notDirectory | .zeroByte | .notEncodable => true
  | _ => false

end FileFault

namespace Path

def maxName : Nat := 255

def maxLength : Nat := 4095

def isShort (p : Path) : Bool := p.text.byteSize ≤ maxLength

/-- What is wrong with a path whatever the files are. -/
def fault? (p : Path) : Option FileFault :=
  if !p.text.isEncodable then some .notEncodable
  else if p.text.containsChar '\x00' then some .zeroByte
  else if !p.isShort then some .nameTooLong
  else none

end Path

namespace Files

/-- Nothing but a working directory. -/
def bare (here : List Text) : Files where
  entries := (List.range here.length).map fun n => (here.take (n + 1), .directory)
  here := here
  distinct := by
    rw [List.map_map]
    refine List.pairwise_map.mpr (List.Pairwise.imp_of_mem ?_ List.pairwise_lt_range)
    intro m n hm hn hlt heq
    have hlength := congrArg List.length heq
    simp only [Function.comp_apply, List.length_take, List.mem_range] at hlength hm hn
    omega

/-- What is at a place; the root is always there. -/
def at? (fs : Files) (place : List Text) : Option Entry :=
  if place.isEmpty then some .directory else fs.entries.lookup place

def isFileAt (fs : Files) (place : List Text) : Bool := ((fs.at? place).map Entry.isFile).getD false

/-- Follows components from a place. Each step starts from a directory, and `..` goes back up,
though not out of the root. -/
def follow (fs : Files) : List Text → List Text → Except FileFault (List Text)
  | place, [] => .ok place
  | place, part :: rest =>
    match fs.at? place with
    | none => .error .notFound
    | some (.file _ _) => .error .notDirectory
    | some .directory =>
      if part = Path.up then follow fs place.dropLast rest
      else if Path.maxName < part.byteSize then .error .nameTooLong
      else follow fs (place ++ [part]) rest

/-- The place a path starts from. -/
def start (fs : Files) (p : Path) : List Text := if p.root.isEmpty then fs.here else []

/-- The place a path leads to, whether or not something is there. -/
def locate (fs : Files) (p : Path) : Except FileFault (List Text) :=
  match p.fault? with
  | some f => .error f
  | none => fs.follow (fs.start p) p.parts

def find (fs : Files) (p : Path) : Except FileFault Entry := do
  match fs.at? (← fs.locate p) with
  | some e => return e
  | none => throw .notFound

/-- Asks about what is at the end of a path. Where nothing is, the answer is no. -/
def ask (fs : Files) (p : Path) (question : Entry → Bool) : Except FileFault Bool :=
  match fs.find p with
  | .ok e => .ok (question e)
  | .error f => if f.isAbsence then .ok false else .error f

def contains (fs : Files) (p : Path) : Except FileFault Bool := fs.ask p fun _ => true

def isFile (fs : Files) (p : Path) : Except FileFault Bool := fs.ask p Entry.isFile

def isDirectory (fs : Files) (p : Path) : Except FileFault Bool := fs.ask p fun e => !e.isFile

def clear (fs : Files) (place : List Text) : Files :=
  { fs with
    entries := fs.entries.filter (·.1 != place)
    distinct := fs.distinct.sublist (List.filter_sublist.map _) }

def put (fs : Files) (place : List Text) (entry : Entry) : Files where
  entries := (place, entry) :: (fs.clear place).entries
  here := fs.here
  distinct := List.nodup_cons.mpr ⟨by simp [clear], (fs.clear place).distinct⟩

/-- The directories on the way to a place, from the top. -/
def above (place : List Text) : List (List Text) :=
  ((List.range place.length).drop 1).map place.take

def obstacle? (fs : Files) (place : List Text) (entry : Entry) : Option FileFault :=
  if place.any (Path.maxName < ·.byteSize) then some .nameTooLong
  else if fs.isFileAt place.dropLast then some .occupied
  else if (above place).any fs.isFileAt then some .notDirectory
  else match fs.at? place, entry with
    | some .directory, .file _ _ => some .isDirectory
    | some (.file _ _), .directory => some .occupied
    | _, _ => none

/-- Puts an entry at a path and directories where they are missing on the way. A file does not take
the place of a directory, nor a directory that of a file. -/
def write (fs : Files) (p : Path) (entry : Entry) : Except FileFault Files :=
  let place := p.flat (fs.start p)
  match p.fault?.or (fs.obstacle? place entry) with
  | some f => .error f
  | none =>
    let made := (above place).foldl
      (fun fs d => if (fs.at? d).isSome then fs else fs.put d .directory) fs
    .ok (made.put place entry)

def remove (fs : Files) (p : Path) : Except FileFault Files := do
  let place ← fs.locate p
  match fs.at? place with
  | some (.file _ _) => return fs.clear place
  | some .directory => throw .isDirectory
  | none => throw .notFound

def bytes (fs : Files) (p : Path) : Except FileFault ByteArray := do
  match ← fs.find p with
  | .file bytes _ => return bytes
  | .directory => throw .isDirectory

/-- The bytes and tree of a file whose bytes are text. -/
def source? (fs : Files) (p : Path) : Except FileFault (Option (ByteArray × SyntaxTree)) :=
  match fs.find p with
  | .ok (.file bytes tree) =>
    .ok (if (String.fromUTF8? bytes).isSome then some (bytes, tree) else none)
  | .ok .directory => .ok none
  | .error f => if f.isAbsence then .ok none else .error f

/-- The places below a place, by the components that lead there from it. -/
def below (fs : Files) (place : List Text) : List (List Text × Entry) :=
  fs.entries.filterMap fun e =>
    if place.isPrefixOf e.1 && place.length < e.1.length then some (e.1.drop place.length, e.2)
    else none

end Files
end MutationLint
