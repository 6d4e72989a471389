/-!
Finite sets of symbol numbers.

A set is the strictly increasing list of its members, so equal sets are equal lists and the members
come out in order.
-/

namespace ShiftReduce

/-- A set of numbers, in increasing order. -/
abbrev IdSet := List Nat

namespace IdSet

/-- Adds a member. -/
def insert (value : Nat) : IdSet -> IdSet
  | [] => [value]
  | head :: rest =>
    if value < head then value :: head :: rest
    else if value = head then head :: rest
    else head :: insert value rest

/-- The members of either set. -/
def union : IdSet -> IdSet -> IdSet
  | [], right => right
  | left, [] => left
  | x :: xs, y :: ys =>
    if x < y then x :: union xs (y :: ys)
    else if x = y then x :: union xs ys
    else y :: union (x :: xs) ys
termination_by left right => left.length + right.length

/-- The set of the numbers in a list. -/
def ofList (values : List Nat) : IdSet :=
  values.foldl (fun set value => set.insert value) []

end IdSet
end ShiftReduce
