import ShiftReduce.Text.Bytes
import ShiftReduce.Text.Lines
import ShiftReduce.Text.Width
import ShiftReduce.Text.Position

/-!
A message together with a drawing of the line of source text it is about.

The drawing shows one line of the source, underlines the columns of a span in it and hangs a label
below their middle. Columns are counted in the characters of the line and drawn with the width each
character takes, so the underline stays below its characters whatever they are.
-/

namespace ShiftReduce
namespace Text

/-- A message, a label, and the bytes of the source that the label points at. -/
structure Snippet where
  message : String
  label : String
  span : Span
deriving DecidableEq, Repr

/-- A run of one character. -/
def runOf (size : Nat) (c : Char) : String :=
  String.ofList (List.replicate size c)

/-- The number of a source line, the characters before it and the line itself, for the line that
holds the character at `index`. Lines are numbered from `number` on. -/
def lineHolding : (number before index : Nat) -> List (List Char) -> Nat × Nat × List Char
  | number, before, _, [] => (number, before, [])
  | number, before, _, [line] => (number, before, line)
  | number, before, index, line :: lines =>
    if index < line.length then (number, before, line)
    else lineHolding (number + 1) (before + line.length) (index - line.length) lines

namespace Snippet

/-- The characters before and inside the span, unless the span is not a part of `source`. -/
def cut? (snippet : Snippet) (source : List Char) : Option (List Char × List Char) := do
  let (before, rest) ← splitAtByte? source snippet.span.start
  let inside ← takeBytes? rest (snippet.span.stop - snippet.span.start)
  if snippet.span.start ≤ snippet.span.stop then some (before, inside) else none

/-- The width of the column at `index`. The columns beyond the end of a line are one wide. -/
def columnWidth (shown : List Char) (index : Nat) : Nat :=
  match shown[index]? with
  | some c => drawnWidth index c
  | none => 1

/-- The drawing, for a span from character `first` up to character `last` of the source. -/
def draw (snippet : Snippet) (source : List Char) (first last : Nat) : String :=
  let (number, before, line) := lineHolding 1 0 first (sourceLines source)
  let shown := trimEnd line
  let start := first - before
  let stop := last - before
  let middle := (first + last) / 2 - before
  let columns := (List.range (stop + 2)).map fun index => (index, columnWidth shown index)
  let margin := runOf ((toString number).length + 2) ' '
  let drawn := String.join (shown.mapIdx drawnAs)
  let underline := columns.map fun (index, width) =>
    if width = 0 then ""
    else if index = middle then "┬" ++ runOf (width - 1) '─'
    else if start ≤ index ∧ index < stop then runOf width '─'
    else runOf width ' '
  let hook := columns.map fun (index, width) =>
    if width = 0 then ""
    else if index = middle then "╰" ++ runOf (width - 1) '─'
    else runOf width (if index < middle then ' ' else '─')
  String.join
    ["Error: ", snippet.message, "\n",
      margin, "╭─[ <unknown>:", toString number, ":", toString (start + 1), " ]\n",
      margin, "│\n",
      " ", toString number, " │ ", drawn, "\n",
      margin, "│ ", String.join underline, "\n",
      margin, "│ ", String.join hook, " ", snippet.label, "\n",
      runOf ((toString number).length + 2) '─', "╯\n"]

/-- The message with its drawing. When the span is not a part of `source` there is nothing to draw,
and the message stands alone. -/
def render (snippet : Snippet) (source : String) : String :=
  match snippet.cut? source.toList with
  | none => snippet.message
  | some (before, inside) =>
    snippet.draw source.toList before.length (before.length + inside.length)

end Snippet
end Text
end ShiftReduce
