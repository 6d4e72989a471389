import ShiftReduce.Lexer.Matcher

/-!
Streams of tokens over a text.

A stream knows where in the text it stands, and keeps tokens that were put back on a stack that is
read before the text is. A caller who knows which token has to come next can ask for it by name; the
stream then goes back to the first of the tokens that were put back and reads the text anew.
-/

namespace ShiftReduce

/-- A text that is being read token by token. -/
structure TokenStream where
  matcher : Matcher
  text : List Char
  /-- Where the part of the text begins that has not been read. -/
  place : Position
  /-- The tokens that were put back, the last one first. -/
  backlog : List Token
  /-- Whether reading one token after another has failed. -/
  failed : Bool

namespace Matcher

/-- The stream over a text. -/
def stream (matcher : Matcher) (text : String) : TokenStream :=
  ⟨matcher, text.toList, .start, [], false⟩

end Matcher

namespace TokenStream

/-- The part of the text that has not been read. -/
def rest? (stream : TokenStream) : Option (List Char) :=
  Text.dropBytes? stream.text stream.place.offset

/-- Reads so many bytes of `rest` as a token. -/
def consume (stream : TokenStream) (rest : List Char) (name : String) (size : Nat) :
    Token × TokenStream :=
  let text := Text.takeWithin rest size
  (⟨name, some (String.ofList text), stream.place⟩,
    { stream with place := stream.place.advance text })

/-- The next token: the one put back last, or else the best reading of the text. -/
def next (stream : TokenStream) (preference : Preference) : Answer × TokenStream :=
  match stream.backlog with
  | token :: backlog => (.ok (some token), { stream with backlog })
  | [] =>
    match stream.rest? with
    | none => (.ok none, stream)
    | some [] => (.ok none, stream)
    | some (c :: rest) =>
      match stream.matcher.longest (c :: rest) preference with
      | .error .unclaimed => (.error .unclaimed, stream)
      | .ok none => (.error (.lex ⟨c, stream.place⟩), stream)
      | .ok (some candidate) =>
        let (token, stream) := stream.consume (c :: rest) candidate.name candidate.size
        (.ok (some token), stream)

/-- The next token without a preference. Behind a place where no token begins there is nothing
more. -/
def advance (stream : TokenStream) : Answer × TokenStream :=
  if stream.failed then (.ok none, stream)
  else
    match stream.next .nothing with
    | (.error (.lex error), stream) => (.error (.lex error), { stream with failed := true })
    | reply => reply

/-- Puts a token back, to be the next one. -/
def putBack (stream : TokenStream) (token : Token) : TokenStream :=
  { stream with backlog := token :: stream.backlog }

/-- Where the next token begins. -/
def position (stream : TokenStream) : Position :=
  match stream.backlog with
  | token :: _ => token.position
  | [] => stream.place

/-- Whether nothing is left to be read. -/
def isExhausted (stream : TokenStream) : Bool :=
  stream.backlog.isEmpty && Text.byteSize stream.text ≤ stream.place.offset

/-- Drops the tokens that were put back and returns to where the first of them begins. -/
def rewind (stream : TokenStream) : TokenStream :=
  match stream.backlog with
  | [] => stream
  | token :: backlog =>
    { stream with
      place := backlog.foldl (fun place other => place.earlier other.position) token.position
      backlog := [] }

/-- Reads the text as the token of that name, if its pattern matches here. -/
def expectToken (stream : TokenStream) (name : String) : Option Token × TokenStream :=
  let stream := stream.rewind
  match stream.matcher.entry? name, stream.rest? with
  | some entry, some rest =>
    match entry.single.find? rest with
    | some found =>
      let size := Text.byteSize found.matched
      if size = 0 then (none, stream)
      else
        let (token, stream) := stream.consume rest entry.name size
        (some token, stream)
    | none => (none, stream)
  | _, _ => (none, stream)

/-- Whether two texts agree, or differ only in the case of ASCII letters where case does not
count. -/
def agrees (insensitive : Bool) (left right : List Char) : Bool :=
  if insensitive then left.map Char.toLower == right.map Char.toLower else left == right

/-- Reads a literal text as a token named after itself. -/
def expectLiteral (stream : TokenStream) (literal : String) : Option Token × TokenStream :=
  let stream := stream.rewind
  match stream.rest? with
  | none => (none, stream)
  | some rest =>
    match Text.takeBytes? rest literal.utf8ByteSize with
    | none => (none, stream)
    | some head =>
      if agrees stream.matcher.insensitive head literal.toList && !literal.isEmpty then
        let (token, stream) := stream.consume rest literal literal.utf8ByteSize
        (some token, stream)
      else (none, stream)

/-- A stream as a source of tokens. -/
def source : TokenSource TokenStream where
  next := next
  position := position

/-- Reads tokens until the text ends or reading fails, at most `bound` of them. -/
def collect : Nat -> TokenStream -> Except ReadError (List Token)
  | 0, _ => .ok []
  | bound + 1, stream =>
    match stream.advance with
    | (.error error, _) => .error error
    | (.ok none, _) => .ok []
    | (.ok (some token), stream) => do
      let rest ← collect bound stream
      return token :: rest

end TokenStream

namespace Matcher

/-- Every token of a text, or the first failure. No text has more tokens than characters. -/
def tokenize (matcher : Matcher) (text : String) : Except ReadError (List Token) :=
  (matcher.stream text).collect (text.toList.length + 1)

end Matcher
end ShiftReduce
