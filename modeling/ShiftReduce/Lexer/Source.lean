import ShiftReduce.Error

/-!
Sources of tokens.

A parse asks a source for one token after another, each time with a preference that can decide
between readings of the same text. What a source remembers between two questions is its state, so a
source is a function from states to answers.
-/

namespace ShiftReduce

/-- Which of two equally long readings of a text is wanted. -/
inductive Preference where
  /-- Neither. -/
  | nothing
  /-- The token of that name. -/
  | token (name : String)
  /-- Every token that the predicate accepts. -/
  | matching (accepts : String -> Bool)

namespace Preference

/-- Whether a token of that name is wanted. -/
def wants : Preference -> String -> Bool
  | .nothing, _ => false
  | .token wanted, name => wanted == name
  | .matching accepts, name => accepts name

/-- A preference in words. -/
def describe : Preference -> String
  | .nothing => "Nothing"
  | .token name => "Token(" ++ Text.quoted name ++ ")"
  | .matching _ => "Matching(..)"

end Preference

/-- Why a source has no answer. -/
inductive ReadError where
  /-- No token begins here. -/
  | lex (error : LexError)
  /-- A union of patterns has matched, but the groups that took part are those of none of its
  patterns. -/
  | unclaimed
deriving DecidableEq, Repr

/-- What a source answers: a token, nothing at the end of the input, or that it has no answer. -/
abbrev Answer := Except ReadError (Option Token)

/-- A source of tokens with states in `σ`. -/
structure TokenSource (σ : Type) where
  /-- The next token, with the state afterwards. -/
  next : σ -> Preference -> Answer × σ
  /-- Where the next token would begin; the end of the input when there is none. -/
  position : σ -> Position

/-- Tokens that are known in advance. -/
structure TokenList where
  tokens : List Token
  /-- The position that the source reports, whatever has been read. -/
  position : Position
  /-- The failure after the last token, if the input does not end there. -/
  failure : Option LexError
deriving DecidableEq, Repr

namespace TokenList

/-- A list of tokens as a source. -/
def source : TokenSource TokenList where
  next state _ :=
    match state.tokens with
    | token :: rest => (.ok (some token), { state with tokens := rest })
    | [] =>
      match state.failure with
      | some error => (.error (.lex error), state)
      | none => (.ok none, state)
  position := TokenList.position

end TokenList
end ShiftReduce
