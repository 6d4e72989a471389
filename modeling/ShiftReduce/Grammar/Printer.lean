import ShiftReduce.Grammar.Basic

/-!
Grammars in their textual notation.

Every operator is printed with its own brackets, so a printed symbol never depends on what stands
beside it. A name that is not an identifier is quoted, in apostrophes unless it contains one.
-/

namespace ShiftReduce

/-- Whether a character can begin an identifier. -/
def isIdentifierStart (c : Char) : Bool :=
  c.isAlpha || c = '_'

/-- Whether a character can continue an identifier. -/
def isIdentifierPart (c : Char) : Bool :=
  c.isAlphanum || c = '_'

/-- Whether a name needs no quotes. Identifiers are made of the letters and digits of ASCII. -/
def isIdentifier (name : String) : Bool :=
  match name.toList with
  | [] => false
  | c :: rest => isIdentifierStart c && rest.all isIdentifierPart

/-- A name, quoted if it has to be. -/
def displayName (name : String) : String :=
  if isIdentifier name then name
  else if name.toList.contains '\x27' then "\"" ++ name ++ "\""
  else "\x27" ++ name ++ "\x27"

/-- The bounds of a repetition. -/
def displayBounds (min max : Nat) : String :=
  if max = 0 then "\x7b" ++ toString min ++ ",\x7d"
  else if min = max then "\x7b" ++ toString min ++ "\x7d"
  else "\x7b" ++ toString min ++ "," ++ toString max ++ "\x7d"

namespace Symbol

mutual

/-- A symbol in the notation. -/
def display : Symbol -> String
  | .name word => displayName word
  | .repeat0 body => "(" ++ displaySequence body ++ ")*"
  | .repeat1 body => "(" ++ displaySequence body ++ ")+"
  | .optional body => "[" ++ displaySequence body ++ "]"
  | .alternation branches => "(" ++ displayBranches branches ++ ")"
  | .bounded min max body => "(" ++ displaySequence body ++ ")" ++ displayBounds min max

/-- A sequence in the notation, its symbols separated by blanks. -/
def displaySequence : List Symbol -> String
  | [] => ""
  | [symbol] => symbol.display
  | symbol :: rest => symbol.display ++ " " ++ displaySequence rest

/-- Alternatives in the notation. -/
def displayBranches : List (List Symbol) -> String
  | [] => ""
  | [branch] => displaySequence branch
  | branch :: rest => displaySequence branch ++ " | " ++ displayBranches rest

end

end Symbol

namespace Production

/-- What follows the symbols of a production: `@_` if it is silent, else its label if it has one. -/
def displayLabel (production : Production) : Option String :=
  match production.emit.innermost, production.label with
  | .none, _ => some "@_"
  | _, some label => some ("@" ++ label)
  | _, none => none

/-- A production in the notation. -/
def display (production : Production) : String :=
  let symbols := Symbol.displaySequence production.symbols
  match production.displayLabel with
  | none => symbols
  | some label => symbols ++ (if production.symbols.isEmpty then "" else " ") ++ label

end Production

namespace Rule

/-- A rule in the notation, with a line for each production. -/
def display (rule : Rule) : String :=
  let productions := "\n    | ".intercalate (rule.productions.map Production.display)
  displayName rule.name ++ " =" ++ (if rule.productions.isEmpty then "" else " ") ++
    productions ++ ";"

end Rule

namespace Grammar

/-- A grammar in the notation. -/
def display (grammar : Grammar) : String :=
  String.join (grammar.rules.map fun rule => rule.display ++ "\n")

end Grammar
end ShiftReduce
