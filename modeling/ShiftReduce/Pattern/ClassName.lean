import ShiftReduce.Pattern.CharClass
import ShiftReduce.Pattern.Error

/-!
Classes of characters that patterns refer to by name.

Names of properties, categories and scripts are compared without regard to case, blanks, hyphens
and underscores, and a leading `is` does not count. The POSIX names are compared as they are.
-/

namespace ShiftReduce
namespace ClassName

/-- Drops a leading `is`, in any case. -/
def dropIs : List Char -> List Char
  | first :: second :: rest =>
    if first.toLower = 'i' ∧ second.toLower = 's' then rest else first :: second :: rest
  | other => other

/-- A name in the form in which names are compared. What is left of `isc` is kept whole, because
the category `c` has no name with a leading `is`. -/
def normalize (name : String) : String :=
  let bare := dropIs name.toList
  let kept := bare.filter fun c => Unicode.isAscii c && !(c = ' ' || c = '_' || c = '-')
  let plain := kept.map Char.toLower
  if plain = ['c'] ∧ bare.length ≠ name.length then "isc" else String.ofList plain

/-- The general categories, by a normalized name. -/
def category? (name : String) : Option CharClass :=
  if name = "any" then some .all
  else if name = "assigned" then some (.complement (.categories [.unassigned]))
  else if name = "ascii" then some (.ranges [(0, 0x7F)])
  else (Unicode.Category.ofName? name).map .categories

/-- The binary properties, by a normalized name. Three short names that properties share with
categories mean the categories. -/
def property? (name : String) : Option CharClass :=
  if name ∈ ["cf", "sc", "lc"] then none else (Unicode.Property.ofName? name).map .property

/-- The scripts, by a normalized name. -/
def script? (name : String) : Option CharClass :=
  (Unicode.Script.ofName? name).map .script

/-- The class that a single name stands for. -/
def lookup (name : String) : Except PatternError CharClass :=
  let plain := normalize name
  match (property? plain).or ((category? plain).or (script? plain)) with
  | some found => .ok found
  | none => .error (.unknownClass name)

/-- The class of the characters for which a property has a value. -/
def lookupValue (property value : String) : Except PatternError CharClass :=
  let plain := normalize value
  let found :=
    match normalize property with
    | "gc" | "generalcategory" => category? plain
    | "sc" | "script" => script? plain
    | "scx" | "scriptextensions" => (Unicode.Script.ofName? plain).map .scriptExtension
    | _ => none
  match found with
  | some found => .ok found
  | none => .error (.unknownClass (property ++ "=" ++ value))

/-- The intervals of a POSIX class. -/
def posix? (name : String) : Option Unicode.Ranges :=
  match name with
  | "alnum" => some [(0x30, 0x39), (0x41, 0x5A), (0x61, 0x7A)]
  | "alpha" => some [(0x41, 0x5A), (0x61, 0x7A)]
  | "ascii" => some [(0x00, 0x7F)]
  | "blank" => some [(0x09, 0x09), (0x20, 0x20)]
  | "cntrl" => some [(0x00, 0x1F), (0x7F, 0x7F)]
  | "digit" => some [(0x30, 0x39)]
  | "graph" => some [(0x21, 0x7E)]
  | "lower" => some [(0x61, 0x7A)]
  | "print" => some [(0x20, 0x7E)]
  | "punct" => some [(0x21, 0x2F), (0x3A, 0x40), (0x5B, 0x60), (0x7B, 0x7E)]
  | "space" => some [(0x09, 0x0D), (0x20, 0x20)]
  | "upper" => some [(0x41, 0x5A)]
  | "word" => some [(0x30, 0x39), (0x41, 0x5A), (0x5F, 0x5F), (0x61, 0x7A)]
  | "xdigit" => some [(0x30, 0x39), (0x41, 0x46), (0x61, 0x66)]
  | _ => none

end ClassName
end ShiftReduce
