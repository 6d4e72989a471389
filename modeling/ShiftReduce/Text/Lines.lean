import ShiftReduce.Unicode.Classes

/-!
The lines of a text.

Two readings of the word are needed. A drawing of a source text breaks it wherever Unicode says
that a line may end and keeps the terminators, so that every character has a line. Text that is
indented as a block is broken at line feeds only, and a carriage return before the line feed goes
with it.
-/

namespace ShiftReduce
namespace Text

/-- Whether a character ends a line by itself. -/
def isLineEnd (c : Char) : Bool :=
  [0x0A, 0x0B, 0x0C, 0x0D, 0x85, 0x2028, 0x2029].contains c.toNat

/-- The lines of a source text, each with its terminator. A carriage return and the line feed after
it are one terminator. The last line is the one that nothing ends; it can be empty. -/
def sourceLines : List Char -> List (List Char)
  | [] => [[]]
  | c :: text =>
    match sourceLines text with
    | [] => [[c]]
    | line :: lines =>
      if c = '\r' ∧ text.head? = some '\n' then (c :: line) :: lines
      else if isLineEnd c then [c] :: line :: lines
      else (c :: line) :: lines

/-- The characters of a line up to the last one that is not white space. -/
def trimEnd (line : List Char) : List Char :=
  (line.reverse.dropWhile Unicode.isWhitespace).reverse

/-- The parts of a text between its line feeds. There is one more of them than there are line
feeds. -/
def brokenLines : List Char -> List (List Char)
  | [] => [[]]
  | c :: text =>
    if c = '\n' then [] :: brokenLines text
    else
      match brokenLines text with
      | [] => [[c]]
      | line :: lines => (c :: line) :: lines

/-- Drops a carriage return at the end of a line. -/
def dropReturn (line : List Char) : List Char :=
  if line.getLast? = some '\r' then line.dropLast else line

end Text
end ShiftReduce
