import ShiftReduce.Unicode.CaseFold
import ShiftReduce.Unicode.Classes
import ShiftReduce.Unicode.Script

/-!
Sets of characters as patterns write them.

A class is kept in the form in which it was written, and a character is tested against that form.
Nothing has to be computed for a class in advance, however many characters it has.
-/

namespace ShiftReduce

/-- A set of characters. -/
inductive CharClass where
  /-- The characters whose code points lie in one of the intervals. -/
  | ranges (ranges : Unicode.Ranges)
  /-- The characters of one of the general categories. -/
  | categories (categories : List Unicode.Category)
  /-- The word characters. -/
  | word
  /-- The decimal digits. -/
  | decimal
  /-- White space. -/
  | blank
  /-- The characters with a property. -/
  | property (property : Unicode.Property)
  /-- The characters of a script. -/
  | script (script : Unicode.Script)
  /-- The characters that are used with a script. -/
  | scriptExtension (script : Unicode.Script)
  | union (left right : CharClass)
  | intersection (left right : CharClass)
  | difference (left right : CharClass)
  | symmetricDifference (left right : CharClass)
  | complement (inner : CharClass)
  /-- The characters that equal a member or differ from one only in case. -/
  | folded (inner : CharClass)
  /-- The same for the letters of ASCII alone. -/
  | asciiFolded (inner : CharClass)

namespace CharClass

/-- The class without members. -/
def empty : CharClass := .ranges []

/-- The class of all characters. -/
def all : CharClass := .complement empty

/-- The class of one character. -/
def single (c : Char) : CharClass := .ranges [(c.toNat, c.toNat)]

/-- The members of any class of a list. -/
def unionAll (classes : List CharClass) : CharClass :=
  match classes with
  | [] => empty
  | first :: rest => rest.foldl .union first

/-- The other case of a letter of ASCII. -/
def asciiVariant? (c : Char) : Option Char :=
  if c.isLower then some c.toUpper
  else if c.isUpper then some c.toLower
  else none

/-- Whether a character is a member. -/
def contains : CharClass -> Char -> Bool
  | .ranges intervals, c => Unicode.Ranges.contains intervals c
  | .categories listed, c => listed.any fun category => category.contains c
  | .word, c => Unicode.isWordChar c
  | .decimal, c => Unicode.isDecimal c
  | .blank, c => Unicode.isWhitespace c
  | .property given, c => given.contains c
  | .script given, c => given.contains c
  | .scriptExtension given, c => given.extends? c
  | .union left right, c => left.contains c || right.contains c
  | .intersection left right, c => left.contains c && right.contains c
  | .difference left right, c => left.contains c && !right.contains c
  | .symmetricDifference left right, c => left.contains c != right.contains c
  | .complement inner, c => !inner.contains c
  | .folded inner, c => inner.contains c || (Unicode.caseVariants c).any fun d => inner.contains d
  | .asciiFolded inner, c =>
    inner.contains c ||
      match asciiVariant? c with
      | some d => inner.contains d
      | none => false

/-- A rough measure of the size of a class. A listed interval counts once. Those of the standard
count twice, because most of them are made of characters that take several bytes. -/
def weight : CharClass -> Nat
  | .ranges intervals => max intervals.length 1
  | .categories listed => 2 * (listed.map fun category => category.ranges.length).sum
  | .word => 640
  | .decimal => 2 * Unicode.Category.decimalNumberRanges.length
  | .blank => 10
  | .property given => 2 * given.extra.length + 2
  | .script given => 2 * given.own.length
  | .scriptExtension given => 2 * (given.own.length + given.added.length)
  | .union left right => left.weight + right.weight
  | .intersection left right => left.weight + right.weight
  | .difference left right => left.weight + right.weight
  | .symmetricDifference left right => left.weight + right.weight
  | .complement inner => inner.weight + 1
  | .folded inner => inner.weight
  | .asciiFolded inner => inner.weight

end CharClass
end ShiftReduce
