import ShiftReduce.Text.Bytes

/-!
Places in a source text.

A position carries a line, a column and a byte offset. The three are advanced together, one
character at a time, so they agree as long as every position is reached from `start`.
-/

namespace ShiftReduce

/-- A place in a source text. Lines and columns count from one, columns count characters, and the
offset counts bytes from zero. -/
structure Position where
  line : Nat
  column : Nat
  offset : Nat
deriving DecidableEq, Repr, Inhabited

namespace Position

/-- Where every text begins. -/
def start : Position := ⟨1, 1, 0⟩

/-- The place after one more character. Only a line feed begins a line. -/
def step (position : Position) (c : Char) : Position :=
  if c = '\n' then ⟨position.line + 1, 1, position.offset + c.utf8Size⟩
  else ⟨position.line, position.column + 1, position.offset + c.utf8Size⟩

/-- The place after `text` has been passed. -/
def advance (position : Position) (text : List Char) : Position :=
  text.foldl step position

/-- The place at a byte offset of `text`. An offset inside a character counts as the beginning of
that character, and one past the end as the end. -/
def locate (text : List Char) (offset : Nat) : Position :=
  start.advance (Text.takeWithin text offset)

/-- Positions are ordered by line, then column, then offset. -/
def compare (left right : Position) : Ordering :=
  (Ord.compare left.line right.line).then
    ((Ord.compare left.column right.column).then (Ord.compare left.offset right.offset))

/-- The earlier of two positions; the first of them when they are equal. -/
def earlier (left right : Position) : Position :=
  if right.compare left = .lt then right else left

/-- A position as messages write it. -/
def display (position : Position) : String :=
  toString position.line ++ ":" ++ toString position.column

end Position

/-- A range of bytes, without its end. -/
structure Span where
  start : Nat
  stop : Nat
deriving DecidableEq, Repr, Inhabited

namespace Span

/-- The smallest span around both. -/
def union (left right : Span) : Span :=
  ⟨min left.start right.start, max left.stop right.stop⟩

/-- A span as it is printed. -/
def display (span : Span) : String :=
  "[" ++ toString span.start ++ ".." ++ toString span.stop ++ "]"

end Span
end ShiftReduce
