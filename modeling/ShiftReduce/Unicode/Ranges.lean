/-!
Sets of code points, as the tables of this library write them.

A table is a text of hexadecimal code points and inclusive intervals, `41-5A 5F 61-7A`, in
increasing order and separated by blanks. Nothing is computed from a table but membership, so a
set is kept as the list of its intervals.
-/

namespace ShiftReduce
namespace Unicode

/-- A set of code points, as inclusive intervals. -/
abbrev Ranges := List (Nat × Nat)

namespace Ranges

/-- Whether the code point of `c` lies in one of the intervals. -/
def contains (ranges : Ranges) (c : Char) : Bool :=
  ranges.any fun interval => interval.1 ≤ c.toNat && c.toNat ≤ interval.2

/-- The value of a hexadecimal digit, which the tables write in upper case. -/
def digit? (c : Char) : Option Nat :=
  if '0' ≤ c ∧ c ≤ '9' then some (c.toNat - '0'.toNat)
  else if 'A' ≤ c ∧ c ≤ 'F' then some (c.toNat - 'A'.toNat + 10)
  else none

/-- What has been read of a table: the intervals so far, the lower end of an interval whose upper
end is still to come, and the number being read. -/
structure Reading where
  done : List (Nat × Nat) := []
  low : Option Nat := none
  number : Option Nat := none

namespace Reading

/-- Closes the number being read, as an interval of its own or as the end of one. -/
def close (reading : Reading) : Reading :=
  match reading.number, reading.low with
  | none, _ => reading
  | some high, none => { done := (high, high) :: reading.done }
  | some high, some low => { done := (low, high) :: reading.done }

/-- Reads one more character of a table. -/
def next (reading : Reading) (c : Char) : Reading :=
  match digit? c with
  | some value => { reading with number := some (reading.number.getD 0 * 16 + value) }
  | none =>
    if c = '-' then { reading with low := reading.number, number := none }
    else reading.close

end Reading

/-- The set a table describes. -/
def ofText (table : String) : Ranges :=
  (table.toList.foldl Reading.next {}).close.done.reverse

end Ranges
end Unicode
end ShiftReduce
