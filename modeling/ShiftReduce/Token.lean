import ShiftReduce.Text.Escaped
import ShiftReduce.Text.Position

/-!
Tokens.

A token read from a text carries that text. A token without text is synthetic: it stands for a rule
that the parser has just reduced, at the place where the reduced part of the input ends.
-/

namespace ShiftReduce

/-- A named piece of the input, or the stand-in for a reduced rule. -/
structure Token where
  name : String
  text : Option String
  position : Position
deriving DecidableEq, Repr, Inhabited

namespace Token

/-- The stand-in for a reduction of the rule `name`. -/
def synthetic (name : String) (position : Position) : Token :=
  ⟨name, none, position⟩

/-- Whether the token stands for a reduced rule. -/
def isSynthetic (token : Token) : Bool :=
  token.text.isNone

/-- The text of a token; a synthetic token has none, which counts as the empty text. -/
def textOrEmpty (token : Token) : String :=
  token.text.getD ""

/-- The bytes of the source that the token covers. -/
def span (token : Token) : Span :=
  ⟨token.position.offset, token.position.offset + token.textOrEmpty.utf8ByteSize⟩

/-- A token with its place, as logs show it. -/
def describe (token : Token) : String :=
  token.name ++ " [" ++ token.position.display ++ "]" ++
    match token.text with
    | some text => "(\"" ++ Text.escapeAnywhere text ++ "\")"
    | none => ""

/-- A token without its place, as trees show it. -/
def display (token : Token) : String :=
  match token.text with
  | some text => token.name ++ " " ++ Text.quoted text
  | none => token.name

end Token
end ShiftReduce
