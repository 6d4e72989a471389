import ShiftReduce.Unicode.Classes

/-!
Text inside messages, with everything a reader could not see written as an escape.

A character is written as itself when it is printable. The common controls have a letter, all other
characters that cannot be seen are written by code point. Which quotes are escaped, and whether a
mark that would attach to the character before it is, depends on what surrounds the text; these
three choices are the record `Escaping`.
-/

namespace ShiftReduce
namespace Text

/-- Which of the printable characters are escaped all the same. -/
structure Escaping where
  apostrophe : Bool
  quote : Bool
  marks : Bool
deriving DecidableEq, Repr

namespace Escaping

/-- Between quotes, an apostrophe needs no escape. -/
def inQuotes : Escaping := ⟨false, true, true⟩

/-- Between apostrophes, a quote needs no escape. -/
def inApostrophes : Escaping := ⟨true, false, true⟩

/-- At the beginning of a text whose surroundings are not known. -/
def leading : Escaping := ⟨true, true, true⟩

/-- Inside a text whose surroundings are not known: marks attach to what stands before them. -/
def inner : Escaping := ⟨true, true, false⟩

end Escaping

/-- The hexadecimal digits of a number, in lower case. -/
def hexadecimal (n : Nat) : String :=
  String.ofList (Nat.toDigits 16 n)

/-- A character by its code point. -/
def escapeByCode (c : Char) : String :=
  "\\u\x7b" ++ hexadecimal c.toNat ++ "\x7d"

/-- One character as it stands in a message. -/
def escapeChar (escaping : Escaping) (c : Char) : String :=
  if c = '\x00' then "\\0"
  else if c = '\t' then "\\t"
  else if c = '\r' then "\\r"
  else if c = '\n' then "\\n"
  else if c = '\\' then "\\\\"
  else if c = '"' ∧ escaping.quote then "\\\""
  else if c = '\x27' ∧ escaping.apostrophe then "\\\x27"
  else if escaping.marks ∧ Unicode.extendsGrapheme c then escapeByCode c
  else if Unicode.isPrintable c then c.toString
  else escapeByCode c

/-- A text, each character escaped by itself. -/
def escape (escaping : Escaping) (text : String) : String :=
  String.join (text.toList.map (escapeChar escaping))

/-- A text between quotes. -/
def quoted (text : String) : String :=
  "\"" ++ escape .inQuotes text ++ "\""

/-- A character between apostrophes. -/
def quotedChar (c : Char) : String :=
  "\x27" ++ escapeChar .inApostrophes c ++ "\x27"

/-- A text for surroundings that are not known. Only its first character can be a mark with
nothing to attach to. -/
def escapeAnywhere (text : String) : String :=
  match text.toList with
  | [] => ""
  | c :: rest => escapeChar .leading c ++ escape .inner (String.ofList rest)

end Text
end ShiftReduce
