import TagFormula.Buffer.Basic

/-!
# Rendering

A buffer is shown as a row of segments, from left to right: runs of plain text,
each with the offset where it starts, and tags. Its state can also be taken as a
value, with the tags in the same order.
-/

namespace TagFormula

/-- A piece of a rendered buffer. -/
inductive Segment where
  /-- Plain text. -/
  | text (start : Int) (text : Text)
  /-- A tag. -/
  | tag (tag : Tag)

namespace Segment

/-- The offset where a segment starts. -/
def start : Segment → Int
  | text start _ => start
  | tag t => t.position

/-- The text a segment stands for. -/
def content : Segment → Text
  | text _ t => t
  | tag t => t.name

end Segment

/-- The state of a buffer, with the tags by position. -/
structure BufferState where
  /-- The text, names of tags included. -/
  text : Text
  /-- The tags, from left to right. -/
  tags : List Tag
  /-- The offset of the cursor. -/
  cursor : Int
  /-- The id of the active tag. -/
  active : Option Int

namespace Buffer

/-- The segments of a text from the offset `last` on, given the tags from there
on in ascending order. -/
def segmentsFrom (text : Text) (last : Int) : List Tag → List Segment
  | [] => if last < text.length then [.text last (Slice.after text last)] else []
  | t :: rest =>
    (if last < t.position then [.text last (Slice.between text last t.position)] else []) ++
      .tag t :: segmentsFrom text t.stop rest

/-- The segments of a buffer. -/
def render (b : Buffer) : List Segment :=
  segmentsFrom b.text 0 b.sortedTags

/-- The state of a buffer. -/
def snapshot (b : Buffer) : BufferState where
  text := b.text
  tags := b.sortedTags
  cursor := b.cursor
  active := b.active

end Buffer

end TagFormula
