import ShiftReduce.Json.Value

/-!
JSON values read from text.

The syntax is strict: no comments, no trailing commas, no leading zeros, and nothing but white space
around the value. Control characters inside strings are refused.
-/

namespace ShiftReduce
namespace Json

/-- Whether a character is white space. -/
def isBlank (c : Char) : Bool :=
  c = ' ' || c = '\n' || c = '\t' || c = '\r'

/-- The text without the white space at its beginning. -/
def skipBlanks (text : List Char) : List Char :=
  text.dropWhile isBlank

/-- The value of a hexadecimal digit. -/
def hexDigit? (c : Char) : Option Nat :=
  if c.isDigit then some (c.toNat - '0'.toNat)
  else if 'a' ≤ c ∧ c ≤ 'f' then some (c.toNat - 'a'.toNat + 10)
  else if 'A' ≤ c ∧ c ≤ 'F' then some (c.toNat - 'A'.toNat + 10)
  else none

/-- The value of four hexadecimal digits. -/
def hexUnit? (a b c d : Char) : Option Nat := do
  let a ← hexDigit? a
  let b ← hexDigit? b
  let c ← hexDigit? c
  let d ← hexDigit? d
  return ((a * 16 + b) * 16 + c) * 16 + d

/-- The character that a letter behind a backslash stands for. -/
def simpleEscape? (c : Char) : Option Char :=
  match c with
  | '"' => some '"'
  | '\\' => some '\\'
  | '/' => some '/'
  | 'b' => some '\x08'
  | 'f' => some '\x0C'
  | 'n' => some '\n'
  | 'r' => some '\r'
  | 't' => some '\t'
  | _ => none

/-- The inside of a string as numbers, up to the closing quote. Halves of surrogate pairs are
numbers of their own here. -/
def stringUnits : List Char -> Option (List Nat × List Char)
  | [] => none
  | '"' :: rest => some ([], rest)
  | '\\' :: 'u' :: a :: b :: c :: d :: rest => do
    let unit ← hexUnit? a b c d
    let (units, rest) ← stringUnits rest
    return (unit :: units, rest)
  | '\\' :: c :: rest => do
    let escaped ← simpleEscape? c
    let (units, rest) ← stringUnits rest
    return (escaped.toNat :: units, rest)
  | c :: rest =>
    if c.toNat < 0x20 then none
    else do
      let (units, rest) ← stringUnits rest
      return (c.toNat :: units, rest)

/-- Whether a number is the first half of a surrogate pair. -/
def isLead (unit : Nat) : Bool := 0xD800 ≤ unit && unit ≤ 0xDBFF

/-- Whether a number is the second half of a surrogate pair. -/
def isTrail (unit : Nat) : Bool := 0xDC00 ≤ unit && unit ≤ 0xDFFF

/-- The characters of numbers, unless there is half of a surrogate pair among them. -/
def charsOfUnits : List Nat -> Option (List Char)
  | [] => some []
  | lead :: trail :: rest =>
    if isLead lead ∧ isTrail trail then
      (charsOfUnits rest).map fun chars =>
        Char.ofNat (0x10000 + (lead - 0xD800) * 0x400 + (trail - 0xDC00)) :: chars
    else if isLead lead ∨ isTrail lead then none
    else (charsOfUnits (trail :: rest)).map fun chars => Char.ofNat lead :: chars
  | [unit] => if isLead unit ∨ isTrail unit then none else some [Char.ofNat unit]

/-- A string behind its opening quote. -/
def readString (text : List Char) : Option (Option String × List Char) := do
  let (units, rest) ← stringUnits text
  return ((charsOfUnits units).map String.ofList, rest)

/-- The number that digits write. -/
def natOfDigits (digits : List Char) : Nat :=
  digits.foldl (fun value c => value * 10 + (c.toNat - '0'.toNat)) 0

/-- The digits before the point. A zero stands alone. -/
def readWhole (text : List Char) : Option (Nat × List Char) :=
  match text with
  | [] => none
  | c :: rest =>
    if c = '0' then
      match rest with
      | d :: _ => if d.isDigit then none else some (0, rest)
      | [] => some (0, [])
    else if c.isDigit then
      let digits := (c :: rest).takeWhile Char.isDigit
      some (natOfDigits digits, (c :: rest).dropWhile Char.isDigit)
    else none

/-- The point and the digits behind it, if there is a point. -/
def readFraction (text : List Char) : Option (Option (List Char) × List Char) :=
  match text with
  | '.' :: rest =>
    let digits := rest.takeWhile Char.isDigit
    if digits.isEmpty then none else some (some digits, rest.dropWhile Char.isDigit)
  | other => some (none, other)

/-- The exponent, if there is one. -/
def readExponent (text : List Char) : Option (Option Int × List Char) :=
  match text with
  | [] => some (none, [])
  | c :: rest =>
    if c = 'e' ∨ c = 'E' then
      let (negative, rest) :=
        match rest with
        | '-' :: tail => (true, tail)
        | '+' :: tail => (false, tail)
        | other => (false, other)
      let digits := rest.takeWhile Char.isDigit
      let value : Int := natOfDigits digits
      if digits.isEmpty then none
      else some (some (if negative then -value else value), rest.dropWhile Char.isDigit)
    else some (none, c :: rest)

/-- A number. -/
def readNumber (text : List Char) : Option (JsonNumber × List Char) := do
  let (negative, text) :=
    match text with
    | '-' :: tail => (true, tail)
    | other => (false, other)
  let (whole, text) ← readWhole text
  let (fraction, text) ← readFraction text
  let (exponent, text) ← readExponent text
  return (⟨negative, whole, fraction, exponent⟩, text)

/-- The text behind a word at its beginning. -/
def dropWord? (word : String) (text : List Char) : Option (List Char) :=
  if word.toList.isPrefixOf text then some (text.drop word.length) else none

mutual

/-- A value, with the rest of the text. `bound` limits the number of values. -/
def readValue : Nat -> List Char -> Option (Json × List Char)
  | 0, _ => none
  | bound + 1, text =>
    match skipBlanks text with
    | [] => none
    | '"' :: rest => (readString rest).map fun (text, rest) => (.string text, rest)
    | '[' :: rest =>
      match skipBlanks rest with
      | ']' :: rest => some (.array [], rest)
      | rest => do
        let (elements, rest) ← readElements bound rest
        return (.array elements, rest)
    | '{' :: rest =>
      match skipBlanks rest with
      | '}' :: rest => some (.object [], rest)
      | rest => do
        let (entries, rest) ← readEntries bound rest
        return (.object entries, rest)
    | 'n' :: rest => (dropWord? "ull" rest).map fun rest => (.null, rest)
    | 't' :: rest => (dropWord? "rue" rest).map fun rest => (.bool true, rest)
    | 'f' :: rest => (dropWord? "alse" rest).map fun rest => (.bool false, rest)
    | c :: rest => (readNumber (c :: rest)).map fun (written, rest) => (.number written, rest)

/-- The elements of an array, with the bracket that closes it. -/
def readElements : Nat -> List Char -> Option (List Json × List Char)
  | 0, _ => none
  | bound + 1, text => do
    let (element, rest) ← readValue bound text
    match skipBlanks rest with
    | ',' :: rest =>
      let (elements, rest) ← readElements bound rest
      return (element :: elements, rest)
    | ']' :: rest => return ([element], rest)
    | _ => none

/-- The entries of an object, with the brace that closes it. -/
def readEntries : Nat -> List Char -> Option (List (Option String × Json) × List Char)
  | 0, _ => none
  | bound + 1, text =>
    match skipBlanks text with
    | '"' :: rest => do
      let (key, rest) ← readString rest
      match skipBlanks rest with
      | ':' :: rest =>
        let (value, rest) ← readValue bound rest
        match skipBlanks rest with
        | ',' :: rest =>
          let (entries, rest) ← readEntries bound rest
          return ((key, value) :: entries, rest)
        | '}' :: rest => return ([(key, value)], rest)
        | _ => none
      | _ => none
    | _ => none

end

theorem readValue_bracket (bound : Nat) (text : List Char) :
    readValue (bound + 1) ('[' :: text) =
      match skipBlanks text with
      | ']' :: rest => some (.array [], rest)
      | rest => (readElements bound rest).bind fun read => some (.array read.1, read.2) := by
  rw [readValue]
  rfl

theorem readValue_brace (bound : Nat) (text : List Char) :
    readValue (bound + 1) ('{' :: text) =
      match skipBlanks text with
      | '}' :: rest => some (.object [], rest)
      | rest => (readEntries bound rest).bind fun read => some (.object read.1, read.2) := by
  rw [readValue]
  rfl

theorem readEntries_quote (bound : Nat) {text rest : List Char} {key : Option String}
    (read : readString text = some (key, ':' :: rest)) :
    readEntries (bound + 1) ('"' :: text) =
      (readValue bound rest).bind fun value =>
        match skipBlanks value.2 with
        | ',' :: rest =>
          (readEntries bound rest).bind fun others => some ((key, value.1) :: others.1, others.2)
        | '}' :: rest => some ([(key, value.1)], rest)
        | _ => none := by
  rw [readEntries]
  change (readString text).bind _ = _
  rw [read]
  rfl

/-- The value that a text writes. -/
def ofText? (text : String) : Option Json :=
  match readValue (text.toList.length + 1) text.toList with
  | some (value, rest) => if (skipBlanks rest).isEmpty then some value else none
  | none => none

end Json
end ShiftReduce
