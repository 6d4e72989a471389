import ShiftReduce.Unicode.Property

/-!
The character classes that the rest of the library asks about.

Each class is a union of properties and categories. Characters of ASCII are answered directly, so
that the tables are consulted only for the characters that need them.
-/

namespace ShiftReduce
namespace Unicode

/-- Whether a character belongs to ASCII. -/
def isAscii (c : Char) : Bool :=
  c.toNat < 0x80

/-- White space: the blank, the controls from tab to carriage return, and the separators. -/
def isWhitespace (c : Char) : Bool :=
  if isAscii c then c = ' ' || 0x09 ≤ c.toNat && c.toNat ≤ 0x0D
  else Property.whiteSpace.contains c

/-- Letters, and the marks that count as letters. -/
def isAlphabetic (c : Char) : Bool :=
  if isAscii c then c.isAlpha else Property.alphabetic.contains c

/-- Decimal digits of any script. -/
def isDecimal (c : Char) : Bool :=
  if isAscii c then c.isDigit else Category.decimalNumber.contains c

/-- Decimal digits, letter numbers and other numbers. -/
def isNumeric (c : Char) : Bool :=
  if isAscii c then c.isDigit
  else
    [Category.decimalNumber, .letterNumber, .otherNumber].any fun category => category.contains c

/-- Word characters: letters, marks, decimal digits, connecting punctuation and joiners. -/
def isWordChar (c : Char) : Bool :=
  if isAscii c then c.isAlphanum || c = '_'
  else
    Property.alphabetic.contains c || Property.joinControl.contains c ||
      [Category.nonspacingMark, .spacingMark, .enclosingMark, .decimalNumber,
        .connectorPunctuation].any fun category => category.contains c

/-- Characters that attach to the one before them, such as combining marks. -/
def extendsGrapheme (c : Char) : Bool :=
  if isAscii c then false else Property.graphemeExtend.contains c

/-- Characters that a reader can see. Of the separators only the blank is one. -/
def isPrintable (c : Char) : Bool :=
  if isAscii c then 0x20 ≤ c.toNat && c.toNat ≤ 0x7E
  else
    [Category.control, .format, .surrogate, .privateUse, .unassigned, .lineSeparator,
      .paragraphSeparator, .spaceSeparator].all fun category => !category.contains c

end Unicode
end ShiftReduce
