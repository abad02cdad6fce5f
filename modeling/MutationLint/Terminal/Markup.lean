import MutationLint.Terminal.Encoding

/-! Text with tags in brackets, which tell the console about colours and are not shown. A backslash
before a tag makes plain text of it. -/

namespace MutationLint

inductive Fragment where
  | markup (m : Text)
  /-- A text that is shown as it is. -/
  | verbatim (t : Text)
  deriving DecidableEq, Repr

namespace Markup

def slash : Mark := .char '\\'

def opening : Mark := .char '['

def closing : Mark := .char ']'

def startsTag (m : Mark) : Bool :=
  m.meets fun c => ('a' ≤ c && c ≤ 'z') || c == '#' || c == '/' || c == '@'

/-- The tag, brackets included, that a text starts with, and the text behind it. -/
def tag? : List Mark → Option (List Mark × List Mark)
  | first :: second :: rest =>
    let name := rest.takeWhile fun m => m != opening && m != closing
    match rest.drop name.length with
    | last :: after =>
      if first = opening && startsTag second && last = closing then
        some (first :: second :: name ++ [last], after)
      else none
    | [] => none
  | _ => none

theorem length_of_tag? {ms tag after : List Mark} (h : tag? ms = some (tag, after)) :
    after.length < ms.length := by
  unfold tag? at h
  split at h
  · rename_i first second rest
    dsimp only at h
    split at h
    · rename_i last tail hdrop
      split at h
      · simp only [Option.some.injEq, Prod.mk.injEq] at h
        have hlen := congrArg List.length hdrop
        simp only [List.length_drop, List.length_cons] at hlen
        rw [← h.2]; simp only [List.length_cons]; omega
      · exact absurd h (by simp)
    · exact absurd h (by simp)
  · exact absurd h (by simp)

theorem length_of_tag?_drop {ms tag after : List Mark} {n : Nat}
    (h : tag? (ms.drop n) = some (tag, after)) : after.length < ms.length := by
  have hlt := length_of_tag? h
  rw [List.length_drop] at hlt
  omega

/-- A stretch of a text: one without tags, or a tag and the number of backslashes before it. -/
inductive Piece where
  | text (marks : List Mark)
  | tag (slashes : Nat) (marks : List Mark)
  deriving DecidableEq, Repr

namespace Piece

def push (m : Mark) : List Piece → List Piece
  | .text ms :: rest => .text (m :: ms) :: rest
  | ps => .text [m] :: ps

def split : List Mark → List Piece
  | [] => []
  | m :: rest =>
    let slashes := ((m :: rest).takeWhile (· == slash)).length
    match h : tag? ((m :: rest).drop slashes) with
    | some (found, after) =>
      have : after.length < (m :: rest).length := length_of_tag?_drop h
      .tag slashes found :: split after
    | none => push m (split rest)
  termination_by ms => ms.length
  decreasing_by
  · exact this
  · exact Nat.lt_succ_self rest.length

/-- The stretch with its tag made plain text: backslashes before it are doubled and one is added. -/
def escape : Piece → List Mark
  | .text ms => ms
  | .tag n ms => List.replicate (2 * n + 1) slash ++ ms

/-- A bracket that starts no tag loses one backslash before it. -/
def unslash : List Mark → List Mark
  | [] => []
  | m :: rest => if m = slash && rest.head? == some opening then unslash rest else m :: unslash rest

/-- What is shown of a stretch: two backslashes before a tag stand for one, and a tag is shown if
one is left over. -/
def shown : Piece → List Mark
  | .text ms => Terminal.shown (unslash ms)
  | .tag n ms =>
    List.replicate (n / 2) slash ++ if n % 2 = 1 then Terminal.shown ms else []

end Piece

/-- Markup that shows a text as it is. A backslash at the end is kept from touching a tag that
follows. -/
def escape (t : Text) : Text :=
  let marks := (Piece.split t.marks).flatMap Piece.escape
  if (marks.reverse.takeWhile (· == slash)).length = 1 then ⟨marks ++ [slash]⟩ else ⟨marks⟩

def written : Fragment → Text
  | .markup m => m
  | .verbatim t => escape t

def shown (fragments : List Fragment) : Text :=
  ⟨(Piece.split (Text.join (fragments.map written)).marks).flatMap Piece.shown⟩

end Markup
end MutationLint
