import ShiftReduce.Config
import ShiftReduce.Ebnf.Reader
import ShiftReduce.Lexer.Stream
import ShiftReduce.Table.Stored

/-!
Parsers.

A parser is a table together with a matcher for its tokens and the names of the tokens to skip. It
is never changed by a parse, whether that succeeds or fails.
-/

namespace ShiftReduce

/-- A compiled grammar with a matcher for its tokens. -/
structure Parser where
  matcher : Matcher
  table : Table
  /-- The tokens that are dropped before they reach the table. -/
  skip : NameSet

namespace Parser

/-- The parser for a grammar over declared tokens. The declarations are checked before the
grammar. -/
def ofGrammar (tokens : TokenSpec) (grammar : Grammar) (config : Config) :
    Except GrammarError Parser := do
  let matcher ← Matcher.ofSpec tokens config.insensitive
  let table ← grammar.compile
  return ⟨matcher, table, NameSet.ofList config.skip⟩

/-- The parser for a grammar that is written in the notation. -/
def ofText (tokens : TokenSpec) (text : String) (config : Config) :
    Except NotationError Parser := do
  let grammar ← Grammar.ofText text
  match ofGrammar tokens grammar config with
  | .ok parser => return parser
  | .error error => .error (.grammar error)

/-- The parser of a stored table. -/
def restore (matcher : Matcher) (stored : StoredTable) : Except TableError Parser := do
  let table ← stored.restore
  return ⟨matcher, table, NameSet.ofList stored.skip⟩

/-- The stored form of a parser's table. -/
def store (parser : Parser) : Except TableError StoredTable :=
  parser.table.store parser.skip

/-- Replaces the names of the tokens to skip. -/
def setSkip (parser : Parser) (names : List String) : Parser :=
  { parser with skip := NameSet.ofList names }

/-- What a run of the parser over a source needs. -/
def setting {σ : Type} (parser : Parser) (source : TokenSource σ)
    (keep : Option (Token -> Bool)) : Setting σ :=
  { table := parser.table, source, skip := parser.skip, keep }

/-- Parses a source. -/
def parseSource {σ : Type} (parser : Parser) (source : TokenSource σ) (state : σ) : ParseResult :=
  (parser.setting source none).parse state

/-- Parses a stream. -/
def parseStream (parser : Parser) (stream : TokenStream) : ParseResult :=
  parser.parseSource TokenStream.source stream

/-- Parses a text. -/
def parse (parser : Parser) (text : String) : ParseResult :=
  parser.parseStream (parser.matcher.stream text)

/-- Parses tokens that are known in advance. -/
def parseTokens (parser : Parser) (tokens : TokenList) : ParseResult :=
  parser.parseSource TokenList.source tokens

/-- Parses a text and builds a tree, with those tokens as leaves that `keep` accepts. -/
def treeFiltered (parser : Parser) (text : String) (keep : Token -> Bool) : TreeResult :=
  (parser.setting TokenStream.source (some keep)).parseTree (parser.matcher.stream text)

/-- Parses a text and builds a tree of all its tokens. -/
def tree (parser : Parser) (text : String) : TreeResult :=
  parser.treeFiltered text fun _ => true

end Parser
end ShiftReduce
