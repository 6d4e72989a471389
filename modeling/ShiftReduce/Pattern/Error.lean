/-!
The reasons why a text is not a pattern.
-/

namespace ShiftReduce

/-- Why a text cannot be read as a pattern. -/
inductive PatternError where
  /-- A group is never closed. -/
  | unclosedGroup
  /-- A closing parenthesis has no group to close. -/
  | unopenedGroup
  /-- Look-around, which patterns do not have. -/
  | lookAround
  /-- A group name is empty, not closed, or has a character that names cannot have. -/
  | groupName
  /-- Two groups have the same name. -/
  | duplicateGroupName (name : String)
  /-- A flag is unknown, repeated, or negated without being there. -/
  | flags
  /-- A repetition operator has nothing to repeat. -/
  | missingOperand
  /-- The bounds of a repetition are not closed, not numbers, too large or out of order. -/
  | repetitionBounds
  /-- An escape is unknown or not finished. -/
  | escape
  /-- A character is written by a number that is not a code point. -/
  | codePoint
  /-- A set of characters is never closed. -/
  | unclosedSet
  /-- A range of characters is out of order or has an end that is not a character. -/
  | range
  /-- A set holds something that is not a character or a class. -/
  | setMember
  /-- No class of characters has that name. -/
  | unknownClass (name : String)
  /-- A class needs the Unicode mode, which is switched off. -/
  | needsUnicode
  /-- The pattern could match a part of a character. -/
  | splitsCharacters
  /-- Groups, sets and repetitions are nested too deep. -/
  | nesting
  /-- The pattern, with its repetitions written out, is too large. -/
  | size
deriving DecidableEq, Repr

namespace PatternError

/-- The reason as a message. -/
def message : PatternError -> String
  | .unclosedGroup => "a group is not closed"
  | .unopenedGroup => "a closing parenthesis closes no group"
  | .lookAround => "look-around is not supported"
  | .groupName => "invalid name of a group"
  | .duplicateGroupName name => "two groups are named " ++ name
  | .flags => "invalid flags"
  | .missingOperand => "a repetition operator has nothing to repeat"
  | .repetitionBounds => "invalid bounds of a repetition"
  | .escape => "invalid escape"
  | .codePoint => "not a code point"
  | .unclosedSet => "a set of characters is not closed"
  | .range => "invalid range of characters"
  | .setMember => "a set can only hold characters and classes"
  | .unknownClass name => "unknown class of characters " ++ name
  | .needsUnicode => "the Unicode mode is needed here"
  | .splitsCharacters => "the pattern could match a part of a character"
  | .nesting => "the pattern is nested too deep"
  | .size => "the pattern is too large"

end PatternError
end ShiftReduce
