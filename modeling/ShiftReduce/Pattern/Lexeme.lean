import ShiftReduce.Pattern.ClassName
import ShiftReduce.Pattern.Expr

/-!
The smallest parts of a pattern: blanks and comments, numbers, escapes and flags.

Every function here takes the rest of the pattern and gives what it read with the rest after it. In
verbose mode, white space and comments between the parts do not count.
-/

namespace ShiftReduce

/-- The modes of a pattern. -/
structure PatternFlags where
  /-- Letters match in both cases. -/
  insensitive : Bool := false
  /-- Line assertions hold at every line. -/
  multiline : Bool := false
  /-- A dot matches a line end too. -/
  dotAll : Bool := false
  /-- Repetitions are lazy unless marked. -/
  swapGreed : Bool := false
  /-- Classes and case are those of Unicode, not of ASCII. -/
  unicode : Bool := true
  /-- A carriage return ends a line too. -/
  returns : Bool := false
  /-- White space and comments do not count. -/
  verbose : Bool := false
deriving DecidableEq, Repr

namespace PatternFlags

/-- Sets the mode of a letter. -/
def set? (flags : PatternFlags) (letter : Char) (value : Bool) : Option PatternFlags :=
  match letter with
  | 'i' => some { flags with insensitive := value }
  | 'm' => some { flags with multiline := value }
  | 's' => some { flags with dotAll := value }
  | 'U' => some { flags with swapGreed := value }
  | 'u' => some { flags with unicode := value }
  | 'R' => some { flags with returns := value }
  | 'x' => some { flags with verbose := value }
  | _ => none

end PatternFlags

namespace PatternLexeme

/-- The text after the next line feed. -/
def dropComment : List Char -> List Char
  | [] => []
  | c :: rest => if c = '\n' then rest else dropComment rest

/-- Drops white space and comments, at most `bound` of them. -/
def skipBlanksWithin : Nat -> List Char -> List Char
  | 0, rest => rest
  | _ + 1, [] => []
  | bound + 1, c :: rest =>
    if Unicode.isWhitespace c then skipBlanksWithin bound rest
    else if c = '#' then skipBlanksWithin bound (dropComment rest)
    else c :: rest

/-- Drops white space and comments in verbose mode, and nothing in the other. -/
def skipBlanks (verbose : Bool) (rest : List Char) : List Char :=
  if verbose then skipBlanksWithin rest.length rest else rest

/-- The next character that counts, if white space does not, when the first one is passed over. -/
def peekBeyond (verbose : Bool) : List Char -> Option Char
  | [] => none
  | _ :: rest =>
    if verbose then
      match rest.dropWhile Unicode.isWhitespace with
      | '#' :: comment => (comment.dropWhile Unicode.isWhitespace).head?
      | other => other.head?
    else rest.head?

/-- The value of a hexadecimal digit. -/
def hexDigit? (c : Char) : Option Nat :=
  if c.isDigit then some (c.toNat - '0'.toNat)
  else if 'a' ≤ c ∧ c ≤ 'f' then some (c.toNat - 'a'.toNat + 10)
  else if 'A' ≤ c ∧ c ≤ 'F' then some (c.toNat - 'A'.toNat + 10)
  else none

/-- The decimal digits at the front, as a number with the count of its digits. In verbose mode
blanks may stand between them. -/
def digits (verbose : Bool) : Nat -> Nat -> List Char -> Nat × Nat × List Char
  | value, count, c :: rest =>
    if c.isDigit then
      digits verbose (value * 10 + (c.toNat - '0'.toNat)) (count + 1) rest
    else if verbose ∧ 0 < count ∧ Unicode.isWhitespace c then digits verbose value count rest
    else (value, count, c :: rest)
  | value, count, [] => (value, count, [])

/-- The largest bound of a repetition. -/
def boundLimit : Nat := Nat.pow 2 32 - 1

/-- A number, with white space before and after it; none if there are no digits. -/
def decimal (verbose : Bool) (rest : List Char) :
    Except PatternError (Option Nat × List Char) :=
  let (value, count, rest) := digits verbose 0 0 (rest.dropWhile Unicode.isWhitespace)
  let rest := skipBlanks verbose (rest.dropWhile Unicode.isWhitespace)
  if count = 0 then .ok (none, rest)
  else if boundLimit < value then .error .repetitionBounds
  else .ok (some value, rest)

/-- The character of a code point. -/
def character (code : Nat) : Except PatternError Char :=
  if h : code.isValidChar then .ok (Char.ofNatAux code h) else .error .codePoint

/-- A fixed number of hexadecimal digits. -/
def fixedHex (verbose : Bool) : Nat -> Nat -> List Char -> Except PatternError (Nat × List Char)
  | 0, value, rest => .ok (value, rest)
  | count + 1, value, rest =>
    match rest with
    | [] => .error .escape
    | c :: rest =>
      match hexDigit? c with
      | none => .error .escape
      | some digit => fixedHex verbose count (value * 16 + digit) (skipBlanks verbose rest)

/-- Hexadecimal digits up to a closing brace. -/
def bracedHex (verbose : Bool) : Nat -> Nat -> Nat -> List Char ->
    Except PatternError (Nat × List Char)
  | 0, _, _, _ => .error .escape
  | bound + 1, count, value, rest =>
    match skipBlanks verbose rest with
    | [] => .error .escape
    | '}' :: rest => if count = 0 then .error .escape else .ok (value, rest)
    | c :: rest =>
      match hexDigit? c with
      | none => .error .escape
      | some digit => bracedHex verbose bound (count + 1) (value * 16 + digit) rest

/-- A part of a pattern that is not made of other parts. -/
inductive Atom where
  /-- A character; `byte` says that it was written as a number of two digits. -/
  | literal (c : Char) (byte : Bool)
  | assertion (assertion : Bool -> Assertion)
  /-- A class of characters by name, in two readings: that of Unicode and, if there is one, that of
  ASCII. -/
  | members (negated : Bool) (unicode : CharClass) (ascii : Option Unicode.Ranges)

/-- A character written by its number: `\x41`, `\u0041`, `\U00000041` or with braces. -/
def hexEscape (verbose : Bool) (letter : Char) (rest : List Char) :
    Except PatternError (Atom × List Char) := do
  let count := if letter = 'x' then 2 else if letter = 'u' then 4 else 8
  match skipBlanks verbose rest with
  | '{' :: rest =>
    let (code, rest) ← bracedHex verbose (rest.length + 1) 0 0 rest
    let c ← character code
    return (.literal c false, skipBlanks verbose rest)
  | rest =>
    let (code, rest) ← fixedHex verbose count 0 rest
    let c ← character code
    return (.literal c (letter = 'x'), rest)

/-- The characters up to a closing brace. -/
def bracedName (verbose : Bool) : Nat -> List Char -> Except PatternError (List Char × List Char)
  | 0, _ => .error .escape
  | bound + 1, rest =>
    match skipBlanks verbose rest with
    | [] => .error .escape
    | '}' :: rest => .ok ([], rest)
    | c :: rest => do
      let (name, rest) ← bracedName verbose bound rest
      return (c :: name, rest)

/-- What stands before and after the first `mark` in a name. -/
def splitAt? (mark : List Char) : List Char -> Option (List Char × List Char)
  | [] => none
  | c :: rest =>
    if mark.isPrefixOf (c :: rest) then some ([], (c :: rest).drop mark.length)
    else (splitAt? mark rest).map fun (before, after) => (c :: before, after)

/-- The class that the name in braces stands for: a property, or a property with a value. -/
def namedClass (negated : Bool) (name : List Char) : Except PatternError Atom := do
  let valued (negated : Bool) (parts : List Char × List Char) : Except PatternError Atom := do
    let found ← ClassName.lookupValue (String.ofList parts.1) (String.ofList parts.2)
    return .members negated found none
  match splitAt? ['!', '='] name with
  | some parts => valued (!negated) parts
  | none =>
    match (splitAt? [':'] name).or (splitAt? ['='] name) with
    | some parts => valued negated parts
    | none =>
      let found ← ClassName.lookup (String.ofList name)
      return .members negated found none

/-- A class by its Unicode name: `\pL`, `\p{Greek}`, `\p{sc=Greek}`. -/
def propertyEscape (verbose negated : Bool) (rest : List Char) :
    Except PatternError (Atom × List Char) := do
  match skipBlanks verbose rest with
  | [] => .error .escape
  | '{' :: rest =>
    let (name, rest) ← bracedName verbose (rest.length + 1) rest
    let found ← namedClass negated name
    return (found, skipBlanks verbose rest)
  | '\\' :: _ => .error .escape
  | c :: rest =>
    let found ← ClassName.lookup c.toString
    return (.members negated found none, skipBlanks verbose rest)

/-- The characters that mean something in a pattern and are written with a backslash to mean
themselves. -/
def isMeta (c : Char) : Bool :=
  ['\\', '.', '+', '*', '?', '(', ')', '|', '[', ']', '{', '}', '^', '$', '#', '&', '-', '~'].contains c

/-- The characters that a backslash leaves as they are. -/
def isEscapable (c : Char) : Bool :=
  isMeta c || Unicode.isAscii c && !c.isAlphanum && c ≠ '<' && c ≠ '>'

/-- The letters of a word boundary that is named in braces. -/
def boundaryName (verbose : Bool) : List Char -> List Char × List Char
  | [] => ([], [])
  | c :: rest =>
    if c.isAlpha || c = '-' then
      let (name, rest) := boundaryName verbose rest
      (c :: name, rest)
    else if verbose ∧ Unicode.isWhitespace c then boundaryName verbose rest
    else ([], c :: rest)

/-- A word boundary. A name in braces makes it one of four special ones; braces that do not begin
with a letter are left for a repetition. -/
def boundaryEscape (verbose : Bool) (rest : List Char) :
    Except PatternError (Atom × List Char) :=
  match rest with
  | '{' :: inside =>
    match skipBlanks verbose inside with
    | [] => .error .escape
    | c :: tail =>
      if c.isAlpha || c = '-' then
        match boundaryName verbose (c :: tail) with
        | (name, '}' :: rest) =>
          match String.ofList name with
          | "start" => .ok (.assertion .wordStart, rest)
          | "end" => .ok (.assertion .wordEnd, rest)
          | "start-half" => .ok (.assertion .wordStartHalf, rest)
          | "end-half" => .ok (.assertion .wordEndHalf, rest)
          | _ => .error .escape
        | _ => .error .escape
      else .ok (.assertion .boundary, rest)
  | _ => .ok (.assertion .boundary, rest)

/-- The class of a letter that stands for one. -/
def letterClass? (c : Char) : Option Atom :=
  match c with
  | 'd' => some (.members false .decimal (ClassName.posix? "digit"))
  | 'D' => some (.members true .decimal (ClassName.posix? "digit"))
  | 's' => some (.members false .blank (ClassName.posix? "space"))
  | 'S' => some (.members true .blank (ClassName.posix? "space"))
  | 'w' => some (.members false .word (ClassName.posix? "word"))
  | 'W' => some (.members true .word (ClassName.posix? "word"))
  | _ => none

/-- What a letter or another character stands for behind a backslash. -/
def simpleEscape? (c : Char) : Option Atom :=
  if isEscapable c then some (.literal c false)
  else
    match c with
    | 'a' => some (.literal '\x07' false)
    | 'f' => some (.literal '\x0C' false)
    | 't' => some (.literal '\t' false)
    | 'n' => some (.literal '\n' false)
    | 'r' => some (.literal '\r' false)
    | 'v' => some (.literal '\x0B' false)
    | 'A' => some (.assertion fun _ => .textStart)
    | 'z' => some (.assertion fun _ => .textEnd)
    | 'B' => some (.assertion .noBoundary)
    | '<' => some (.assertion .wordStart)
    | '>' => some (.assertion .wordEnd)
    | _ => none

/-- What follows a backslash. -/
def escape (verbose : Bool) (rest : List Char) : Except PatternError (Atom × List Char) :=
  match rest with
  | [] => .error .escape
  | c :: rest =>
    if c = 'x' ∨ c = 'u' ∨ c = 'U' then hexEscape verbose c rest
    else if c = 'p' ∨ c = 'P' then propertyEscape verbose (c = 'P') rest
    else if c = 'b' then boundaryEscape verbose rest
    else
      match (letterClass? c).or (simpleEscape? c) with
      | some atom => .ok (atom, rest)
      | none => .error .escape

/-- The flags of a group up to a colon or the closing parenthesis, which is given back with the
rest. `seen` lists the flags before, `negated` says whether a minus sign was among them, and
`dangling` whether it was the last. -/
def readFlags (flags : PatternFlags) (seen : List Char) (negated dangling : Bool) :
    List Char -> Except PatternError (PatternFlags × Bool × Char × List Char)
  | [] => .error .flags
  | c :: rest =>
    if c = ':' ∨ c = ')' then
      if dangling then .error .flags else .ok (flags, seen.isEmpty, c, rest)
    else if c = '-' then
      if negated then .error .flags else readFlags flags seen true true rest
    else if c ∈ seen then .error .flags
    else
      match flags.set? c (!negated) with
      | some flags => readFlags flags (c :: seen) negated false rest
      | none => .error .flags

/-- Whether a character can stand in the name of a group. -/
def isGroupNameChar (first : Bool) (c : Char) : Bool :=
  if first then c = '_' || Unicode.isAlphabetic c
  else
    c = '_' || c = '.' || c = '[' || c = ']' || Unicode.isAlphabetic c || Unicode.isNumeric c

/-- The name of a group up to the angle bracket that closes it. -/
def groupName (first : Bool) : List Char -> Except PatternError (List Char × List Char)
  | [] => .error .groupName
  | c :: rest =>
    if c = '>' then if first then .error .groupName else .ok ([], rest)
    else if isGroupNameChar first c then do
      let (name, rest) ← groupName false rest
      return (c :: name, rest)
    else .error .groupName

end PatternLexeme
end ShiftReduce
