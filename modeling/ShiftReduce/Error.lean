import ShiftReduce.Pattern.Error
import ShiftReduce.Text.Snippet
import ShiftReduce.Token

/-!
What can go wrong, and how it is said.

There is one type of failure for each activity: reading a token, building a parser from patterns
and a grammar, running it, and storing its table. Each failure is recorded by its cause, and its
wording is in one function. A failure with a place in a source text can also be drawn below the
line it is about.
-/

namespace ShiftReduce

/-- No token begins at a place. -/
structure LexError where
  character : Char
  position : Position
deriving DecidableEq, Repr

namespace LexError

/-- The failure in words. -/
def message (error : LexError) : String :=
  "unexpected character " ++ Text.quotedChar error.character ++ " at " ++ error.position.display

/-- The failure with the line it is about. -/
def report (error : LexError) (source : String) : String :=
  let offset := error.position.offset
  Text.Snippet.render
    ⟨error.message, "no token starts here", ⟨offset, offset + error.character.utf8Size⟩⟩ source

end LexError

/-- Why no parser can be built. -/
inductive GrammarError where
  /-- There are no rules. -/
  | empty
  /-- The text of a token's pattern is not a pattern. -/
  | invalidPattern (name : String) (cause : PatternError)
  /-- A bounded repetition has an upper bound below its lower one. -/
  | invalidBounds (rule : String) (min max : Nat)
  /-- An operator, given by its kind, has nothing to apply to. -/
  | emptyBody (rule kind : String)
  /-- Two productions can be reduced on the same lookahead. -/
  | reduceConflict (lookahead first second : String)
deriving DecidableEq, Repr

namespace GrammarError

/-- A lookahead in words; the empty name is the end of the input. -/
def lookaheadName (lookahead : String) : String :=
  if lookahead.isEmpty then "end of input" else "`" ++ lookahead ++ "`"

/-- The failure in words. -/
def message : GrammarError -> String
  | .empty => "grammar has no rules"
  | .invalidPattern name cause =>
    "invalid pattern for token `" ++ name ++ "`: " ++ cause.message
  | .invalidBounds rule min max =>
    "invalid repetition bounds \x7b" ++ toString min ++ "," ++ toString max ++ "\x7d in rule `" ++
      rule ++ "`"
  | .emptyBody rule kind => kind ++ " with an empty body in rule `" ++ rule ++ "`"
  | .reduceConflict lookahead first second =>
    "reduce/reduce conflict on " ++ lookaheadName lookahead ++ ": `" ++ first ++ "` vs `" ++
      second ++ "`"

end GrammarError

/-- Why a parse ends without acceptance. -/
inductive ParseError where
  /-- The source has no further token to offer. -/
  | lex (error : LexError)
  /-- A token can neither be shifted nor be a reason to reduce. -/
  | unexpectedToken (name text : String) (position : Position)
  /-- The input ends too early. -/
  | unexpectedEnd (position : Position)
  /-- A bounded repetition has one group too many. -/
  | repetitionLimit (rule : String) (max : Nat) (name text : String) (position : Position)
  /-- The table asks for a stack that is not there. -/
  | internal (expected found : String)
deriving DecidableEq, Repr

namespace ParseError

/-- The failure of meeting `token`. -/
def unexpected (token : Token) : ParseError :=
  .unexpectedToken token.name token.textOrEmpty token.position

/-- The failure of meeting `token` as part of a group too many. -/
def tooMany (rule : String) (max : Nat) (token : Token) : ParseError :=
  .repetitionLimit rule max token.name token.textOrEmpty token.position

/-- The failure in words. -/
def message : ParseError -> String
  | .lex error => error.message
  | .unexpectedToken name text position =>
    "unexpected " ++ name ++ " " ++ Text.quoted text ++ " at " ++ position.display
  | .unexpectedEnd position => "unexpected end of input at " ++ position.display
  | .repetitionLimit rule max name text position =>
    "`" ++ rule ++ "` allows at most " ++ toString max ++ " repetitions, found " ++ name ++ " " ++
      Text.quoted text ++ " at " ++ position.display
  | .internal expected found =>
    "internal error: expected `" ++ expected ++ "` on the parse stack, found `" ++ found ++
      "` - this is a bug"

/-- Where in the input the failure was noticed, if it was there. -/
def position? : ParseError -> Option Position
  | .lex error => some error.position
  | .unexpectedToken _ _ position => some position
  | .unexpectedEnd position => some position
  | .repetitionLimit _ _ _ _ position => some position
  | .internal .. => none

/-- The bytes of a token's text; an empty text counts as one byte. -/
def spanOfText (text : String) (position : Position) : Span :=
  ⟨position.offset, position.offset + max text.utf8ByteSize 1⟩

/-- The failure with the line it is about. The end of the input is drawn below the last character
of the source. -/
def report (error : ParseError) (source : String) : String :=
  match error with
  | .lex error => error.report source
  | .unexpectedToken _ text position =>
    Text.Snippet.render ⟨error.message, "not expected here", spanOfText text position⟩ source
  | .repetitionLimit _ _ _ text position =>
    Text.Snippet.render ⟨error.message, "one repetition too many", spanOfText text position⟩ source
  | .unexpectedEnd _ =>
    match source.toList.getLast? with
    | none => error.message
    | some last =>
      Text.Snippet.render
        ⟨error.message, "input ends here",
          ⟨source.utf8ByteSize - last.utf8Size, source.utf8ByteSize⟩⟩ source
  | .internal .. => error.message

end ParseError

/-- What makes a stored table unusable. -/
inductive TableFault where
  /-- There is no state to start in. -/
  | noStates
  /-- A state shifts to a state that is not there. -/
  | shiftTarget (state : Nat) (name : String) (target count : Nat)
  /-- A state reduces by a rule that it does not have. -/
  | reduceRule (state : Nat) (name : String) (rule count : Nat)
  /-- No state can reduce the root rule. -/
  | rootNeverReduced (root : String)
deriving DecidableEq, Repr

namespace TableFault

/-- The fault in words. -/
def message : TableFault -> String
  | .noStates => "no states"
  | .shiftTarget state name target count =>
    "state " ++ toString state ++ " shifts `" ++ name ++ "` to state " ++ toString target ++
      ", but there are only " ++ toString count ++ " states"
  | .reduceRule state name rule count =>
    "state " ++ toString state ++ " reduces `" ++ name ++ "` by rule " ++ toString rule ++
      ", but it has only " ++ toString count ++ " rules"
  | .rootNeverReduced root => "no state reduces the root rule `" ++ root ++ "`"

end TableFault

/-- Why a table cannot be stored or restored. -/
inductive TableError where
  /-- A production's own callback cannot be stored. -/
  | callback (rule : String)
  /-- A stored table is unusable. -/
  | corrupt (fault : TableFault)
  /-- A text is not a stored table. -/
  | json
deriving DecidableEq, Repr

namespace TableError

/-- The failure in words. -/
def message : TableError -> String
  | .callback rule => "rule `" ++ rule ++ "` carries an in-process callback and cannot be dumped"
  | .corrupt fault => "corrupt table: " ++ fault.message
  | .json => "malformed table data"

end TableError

/-- Why a text is not a grammar in the notation, or not one that a parser can be built from. -/
inductive NotationError where
  /-- The text does not follow the notation. -/
  | parse (error : ParseError)
  /-- No parser can be built from the grammar. -/
  | grammar (error : GrammarError)
  /-- A label stands inside a group. -/
  | misplacedLabel (rule label : String)
  /-- A repetition bound is too large, or an upper bound is zero. -/
  | invalidBound (text : String) (position : Position)
  /-- A tree has a shape that the grammar of the notation does not make. -/
  | misshapenTree (title : String)
deriving DecidableEq, Repr

namespace NotationError

/-- The failure in words. -/
def message : NotationError -> String
  | .parse error => error.message
  | .grammar error => error.message
  | .misplacedLabel rule label =>
    "alias `@" ++ label ++ "` in rule `" ++ rule ++ "` is only allowed on a top-level alternative"
  | .invalidBound text position =>
    "repetition bound `" ++ text ++ "` at " ++ position.display ++ " is out of range"
  | .misshapenTree title => "unexpected tree `" ++ title ++ "`"

/-- The failure with the line it is about, for those found while reading the text. -/
def report (error : NotationError) (source : String) : String :=
  match error with
  | .parse error => error.report source
  | other => other.message

end NotationError
end ShiftReduce
