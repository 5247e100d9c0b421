import Pushdown.Fragment.Token

/-!
# Text with holes

A buffer is a sequence of segments, each a literal or a hole. Written text joins a literal at
the end of the buffer, so that no two literals are neighbours.
-/

namespace Pushdown

/-- A piece of a text with holes. -/
inductive Segment
  | literal (text : String)
  | hole (token : Token)
  deriving DecidableEq, Repr

/-- A text with holes that grows at its end. The segments are stored newest first. -/
structure Buffer where
  /-- The segments, newest first. -/
  newestFirst : List Segment := []
  deriving DecidableEq, Repr

namespace Buffer

/-- The segments in the order of the text. -/
def segments (b : Buffer) : List Segment := b.newestFirst.reverse

/-- The buffer with a text at its end. -/
def write (b : Buffer) (text : String) : Buffer :=
  match b.newestFirst with
  | .literal last :: older => ⟨.literal (last ++ text) :: older⟩
  | segments => ⟨.literal text :: segments⟩

/-- The buffer with a hole at its end. -/
def addHole (b : Buffer) (token : Token) : Buffer := ⟨.hole token :: b.newestFirst⟩

@[simp] theorem segments_addHole (b : Buffer) (token : Token) :
    (b.addHole token).segments = b.segments ++ [.hole token] := by
  simp [addHole, segments]

end Buffer

/-- The tokens of the holes, in the order of the text. -/
def holes : List Segment → List Token
  | [] => []
  | .literal _ :: rest => holes rest
  | .hole token :: rest => token :: holes rest

@[simp] theorem holes_append (a b : List Segment) : holes (a ++ b) = holes a ++ holes b := by
  induction a with
  | nil => rfl
  | cons s rest ih => cases s <;> simp [holes, ih]

/-- Written text adds no hole. -/
@[simp] theorem holes_segments_write (b : Buffer) (text : String) :
    holes (b.write text).segments = holes b.segments := by
  obtain ⟨stored⟩ := b
  cases stored with
  | nil => rfl
  | cons s older => cases s <;> simp [Buffer.write, Buffer.segments, holes]

end Pushdown
