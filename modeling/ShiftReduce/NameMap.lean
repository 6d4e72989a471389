/-!
Finite maps from names to numbers.

A map is the list of its entries in increasing order of the names, by code points, with one entry
for each name. Equal maps are equal lists, and entries come out in order.
-/

namespace ShiftReduce

/-- The entries of a map, in increasing order of the names. -/
abbrev NameMap := List (String × Nat)

namespace NameMap

/-- The number of a name. -/
def get? (map : NameMap) (name : String) : Option Nat :=
  map.lookup name

/-- Whether a name has a number. -/
def contains (map : NameMap) (name : String) : Bool :=
  (map.get? name).isSome

/-- Gives a name a number, in place of the one it may have. -/
def insert (name : String) (value : Nat) : NameMap -> NameMap
  | [] => [(name, value)]
  | (head, known) :: rest =>
    if name = head then (name, value) :: rest
    else if name < head then (name, value) :: (head, known) :: rest
    else (head, known) :: insert name value rest

/-- The map of a list of entries, in which the last entry of a name counts. -/
def ofList (entries : List (String × Nat)) : NameMap :=
  entries.foldl (fun map (name, value) => map.insert name value) []

end NameMap

/-- A set of names, in increasing order. -/
abbrev NameSet := List String

namespace NameSet

/-- Adds a name. -/
def insert (name : String) : NameSet -> NameSet
  | [] => [name]
  | head :: rest =>
    if name = head then head :: rest
    else if name < head then name :: head :: rest
    else head :: insert name rest

/-- The set of the names in a list. -/
def ofList (names : List String) : NameSet :=
  names.foldl (fun set name => set.insert name) []

end NameSet
end ShiftReduce
