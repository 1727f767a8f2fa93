import SqlTree.Text.Bytes

set_option autoImplicit false

/-!
# Places in source text

A span is a half-open range of bytes of the source together with the line and column of its start.
Lines and columns count from one, and columns count characters. A span that does not come from
source text stands on line zero.

## Main definitions

* `SqlTree.Position` — a byte offset with its line and column, and how characters move it.
* `SqlTree.Span` — a range of bytes that knows the line and column of its start.
* `SqlTree.Span.merge` — the smallest span that covers two spans.
* `SqlTree.Span.text` — the source text that a span covers.
-/

namespace SqlTree

/-! ## Positions -/

/-- A place between two characters of the source. -/
structure Position where
  /-- The number of bytes before the place. -/
  offset : Nat
  /-- One more than the number of line ends before the place. -/
  line : Nat
  /-- One more than the number of characters between the last line end and the place. -/
  column : Nat
deriving DecidableEq, Repr, Inhabited

namespace Position

/-- The place before the first character. -/
def origin : Position := ⟨0, 1, 1⟩

/-- The place after one more character; a line feed starts a new line. -/
def next (position : Position) (c : Char) : Position :=
  if c = '\n' then
    ⟨position.offset + c.utf8Size, position.line + 1, 1⟩
  else
    ⟨position.offset + c.utf8Size, position.line, position.column + 1⟩

/-- The place after a run of characters. -/
def advance (position : Position) (chars : List Char) : Position :=
  chars.foldl next position

end Position

/-! ## Spans -/

/-- A half-open range of bytes of the source. -/
structure Span where
  /-- The offset of the first byte. -/
  start : Nat
  /-- The offset after the last byte. -/
  stop : Nat
  /-- The line of `start`. -/
  line : Nat
  /-- The column of `start`. -/
  column : Nat
deriving DecidableEq, Repr

namespace Span

/-- The empty span that belongs to no source text. -/
def none : Span := ⟨0, 0, 0, 0⟩

instance : Inhabited Span := ⟨none⟩

/-- The span from one position up to another. -/
def between (first last : Position) : Span :=
  ⟨first.offset, last.offset, first.line, first.column⟩

/-- The number of bytes of the span. -/
def length (span : Span) : Nat :=
  span.stop - span.start

/-- The span covers no byte. -/
def isEmpty (span : Span) : Bool :=
  span.start == span.stop

/-- The smallest span that covers both; its line and column are those of the span that starts
first. -/
def merge (a b : Span) : Span :=
  let first := if a.start ≤ b.start then a else b
  ⟨first.start, max a.stop b.stop, first.line, first.column⟩

/-- The second span lies within the first. -/
def contains (outer inner : Span) : Bool :=
  outer.start ≤ inner.start && inner.stop ≤ outer.stop

/-- The part of the source that the span covers; empty if the span does not fit the source. -/
def text (span : Span) (source : String) : String :=
  (Text.slice? source span.start span.stop).getD ""

/-- The place of the span as it is shown to users: line and column. -/
def place (span : Span) : String :=
  toString span.line ++ ":" ++ toString span.column

end Span

end SqlTree
