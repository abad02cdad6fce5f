import MutationLint.SyntaxTree.Basic
import MutationLint.Text.Utf8

/-! The bytes of a source file and the text of their stretches. -/

namespace MutationLint

structure Source where
  bytes : ByteArray

namespace Source

def ofText (s : String) : Source := ⟨s.toUTF8⟩

/-- The position that an offset means: one below zero counts from the end, and one beyond either
end is moved back to it. -/
def position (s : Source) (offset : Int) : Nat :=
  min (if offset < 0 then offset + s.bytes.size else offset).toNat s.bytes.size

def slice (s : Source) (start stop : Int) : Except Text.Utf8.Fault String :=
  Text.Utf8.decode (s.bytes.extract (s.position start) (s.position stop))

def text (s : Source) (e : Extent) : Except Text.Utf8.Fault String := s.slice e.start e.stop

end Source
end MutationLint
