import ShiftReduce.Grammar.Printer
import ShiftReduce.Lexer.Source

/-!
The tokens of the grammar notation.

Names are identifiers or quoted, bounds are numbers, and every other token is one of a few marks.
White space and comments, which run from two slashes to the end of the line, separate tokens and
have no other meaning. Where several tokens could be read, the longest is.
-/

namespace ShiftReduce

/-- A text in the notation that is being read. -/
structure NotationText where
  rest : List Char
  /-- The end of the token read last, or the end of the text when nothing is left. -/
  place : Position
deriving DecidableEq, Repr

namespace NotationText

/-- The beginning of a text. -/
def start (text : String) : NotationText := ⟨text.toList, .start⟩

/-- Whether a character separates tokens. -/
def isBlank (c : Char) : Bool :=
  c = ' ' || c = '\t' || c = '\r' || c = '\n' || c = '\x0C'

/-- The white space and comments at the beginning of a text, and the rest. In a comment, nothing
but a line feed is looked for. -/
def skipBlanks (comment : Bool) : List Char -> List Char × List Char
  | [] => ([], [])
  | c :: rest =>
    let taken := if comment then c ≠ '\n' else isBlank c
    if taken || comment then
      let (blanks, rest) := skipBlanks (comment && c ≠ '\n') rest
      (c :: blanks, rest)
    else if c = '/' ∧ rest.head? = some '/' then
      let (blanks, rest) := skipBlanks true rest
      (c :: blanks, rest)
    else ([], c :: rest)

/-- The name of the token that a mark is. -/
def markName? (c : Char) : Option String :=
  if ['=', ';', '|', '*', '+', '?', '(', ')', '[', ']', '{', '}', ',', '@'].contains c then
    some c.toString
  else none

/-- The quoted name at the beginning of a text whose first character is the quote. A quoted name is
not empty and has no such quote inside. -/
def quotedLexeme? (quote : Char) (rest : List Char) : Option (List Char) :=
  let inside := rest.takeWhile (· ≠ quote)
  if inside.isEmpty then none
  else
    match rest.drop inside.length with
    | [] => none
    | _ :: _ => some (quote :: inside ++ [quote])

/-- The token at the beginning of a text: its name and its characters. -/
def lexeme? : List Char -> Option (String × List Char)
  | [] => none
  | c :: rest =>
    if isIdentifierStart c then some ("ident", c :: rest.takeWhile isIdentifierPart)
    else if c.isDigit then some ("number", c :: rest.takeWhile Char.isDigit)
    else if c = '"' ∨ c = '\x27' then (quotedLexeme? c rest).map fun text => ("quoted", text)
    else if [':', ':', '='].isPrefixOf (c :: rest) then some ("=", [':', ':', '='])
    else (markName? c).map fun name => (name, [c])

/-- The next token of a text. The notation needs no preference to tell tokens apart. -/
def next (text : NotationText) (_ : Preference) : Answer × NotationText :=
  let (blanks, rest) := skipBlanks false text.rest
  let place := text.place.advance blanks
  match rest with
  | [] => (.ok none, ⟨[], place⟩)
  | c :: _ =>
    match lexeme? rest with
    | none => (.error (.lex ⟨c, place⟩), text)
    | some (name, lexeme) =>
      (.ok (some ⟨name, some (String.ofList lexeme), place⟩),
        ⟨rest.drop lexeme.length, place.advance lexeme⟩)

/-- A text in the notation as a source of tokens. -/
def source : TokenSource NotationText where
  next := next
  position := NotationText.place

end NotationText
end ShiftReduce
