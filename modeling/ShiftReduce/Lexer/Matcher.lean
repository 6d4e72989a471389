import ShiftReduce.Lexer.Source
import ShiftReduce.Lexer.Spec
import ShiftReduce.Pattern.Reader

/-!
Longest match over a list of named patterns.

A union of patterns finds the first of them that matches, not the longest. For each declaration
there is therefore the union of the patterns from that one on, and a scan asks these unions in turn,
each time from just behind the pattern that was found last. It thus meets every pattern that could
win. Of those it keeps the longest; between equally long ones the preference decides, then a
keyword wins, then the earlier declaration.

In a union, each pattern is a group of its own, and the group that took part tells which pattern was
found. The names of groups are taken out there, so that two patterns can use the same name. Where the
groups of a pattern are looked for is computed from the number of groups that each pattern has by
itself. If none is found there, the scan breaks off.
-/

namespace ShiftReduce

/-- Where a scan for group names stands in the text of a pattern: how many sets of characters are
open around it. -/
abbrev SetDepth := Nat

namespace GroupNames

/-- What follows the name of a group behind an opening parenthesis, if it has a name. -/
def dropHeader? (rest : List Char) : Option (List Char) :=
  let closed (name : List Char) : Option (List Char) :=
    match name.dropWhile (· ≠ '>') with
    | [] => none
    | _ :: after => some after
  match rest with
  | '?' :: 'P' :: '<' :: name => closed name
  | '?' :: '<' :: name => closed name
  | _ => none

/-- The characters at the beginning of a set that do not have their usual meaning: a caret, then a
bracket. -/
def setHeader (rest : List Char) : List Char × List Char :=
  let (caret, rest) :=
    match rest with
    | '^' :: tail => (['^'], tail)
    | other => ([], other)
  match rest with
  | ']' :: tail => (caret ++ [']'], tail)
  | other => (caret, other)

/-- The text of a pattern without the names of its groups. `bound` limits the number of characters
looked at. -/
def strip : Nat -> SetDepth -> List Char -> List Char
  | 0, _, rest => rest
  | _ + 1, _, [] => []
  | bound + 1, depth, c :: rest =>
    if c = '\\' then
      match rest with
      | [] => [c]
      | escaped :: rest => c :: escaped :: strip bound depth rest
    else if c = '[' then
      if depth = 0 then
        let (header, rest) := setHeader rest
        c :: header ++ strip bound 1 rest
      else c :: strip bound (depth + 1) rest
    else if c = ']' then c :: strip bound (depth - 1) rest
    else if c = '(' ∧ depth = 0 then
      c :: strip bound depth ((dropHeader? rest).getD rest)
    else c :: strip bound depth rest

end GroupNames

/-- The text of a pattern in which every named group has become a plain one. -/
def withoutGroupNames (source : String) : String :=
  String.ofList (GroupNames.strip source.toList.length 0 source.toList)

/-- A declared token. -/
structure MatcherEntry where
  name : String
  keyword : Bool
  /-- The pattern of the token, for matches that begin where the text does. -/
  single : Pattern
  /-- The text of the pattern as a group of a union. -/
  branch : String

/-- Patterns to match tokens by. -/
structure Matcher where
  entries : List MatcherEntry
  /-- For each entry, the union of the patterns from that one on. -/
  unions : List Pattern
  insensitive : Bool

namespace Matcher

/-- The pattern that matches `source` only at the beginning of a text. -/
def compileAnchored (name source : String) (insensitive : Bool) : Except GrammarError Pattern :=
  match Pattern.ofString ("\\A(?:" ++ source ++ ")") insensitive with
  | .ok pattern => .ok pattern
  | .error cause => .error (.invalidPattern name cause)

/-- The entry of a declaration. -/
def entryOf (insensitive : Bool) (tokenDef : TokenDef) : Except GrammarError MatcherEntry := do
  let (source, keyword) :=
    match tokenDef.pattern with
    | .regex source => (source, false)
    | .keyword => (Pattern.escape tokenDef.name, true)
  let single ← compileAnchored tokenDef.name source insensitive
  return ⟨tokenDef.name, keyword, single, "(" ++ withoutGroupNames source ++ ")"⟩

/-- The union of the patterns of some entries, named after the first of them. -/
def unionOf (insensitive : Bool) (entries : List MatcherEntry) : Except GrammarError Pattern :=
  let name := (entries.head?.map (·.name)).getD ""
  compileAnchored name ("|".intercalate (entries.map (·.branch))) insensitive

/-- The unions of all tails of a list of entries, except the empty one. -/
def unionsOf (insensitive : Bool) : List MatcherEntry -> Except GrammarError (List Pattern)
  | [] => .ok []
  | entry :: rest => do
    let first ← unionOf insensitive (entry :: rest)
    let others ← unionsOf insensitive rest
    return first :: others

/-- A matcher for declared tokens. Every pattern is checked by itself before any union is made. -/
def ofSpec (spec : TokenSpec) (insensitive : Bool) : Except GrammarError Matcher := do
  let entries ← spec.defs.mapM (entryOf insensitive)
  let unions ← unionsOf insensitive entries
  return ⟨entries, unions, insensitive⟩

/-- Whether a keyword of that name is declared. -/
def isKeyword (matcher : Matcher) (name : String) : Bool :=
  matcher.entries.any fun entry => entry.keyword && entry.name == name

/-- The first entry of that name. -/
def entry? (matcher : Matcher) (name : String) : Option MatcherEntry :=
  matcher.entries.find? (·.name == name)

/-- A reading of the text at a place: the number and name of an entry, and the length of the text in
bytes. -/
structure Candidate where
  index : Nat
  name : String
  size : Nat
deriving DecidableEq, Repr

/-- Whether `new` is a better reading than the one before it. -/
def better (matcher : Matcher) (preference : Preference) (old new : Candidate) : Bool :=
  if new.size ≠ old.size then old.size < new.size
  else
    match preference.wants old.name, preference.wants new.name with
    | false, true => true
    | true, false => false
    | _, _ => matcher.isKeyword new.name && !matcher.isKeyword old.name

/-- The entry whose group took part, when the group of the first entry is numbered `group`. The
answer counts entries from zero. Each entry has one group of its own and those inside it. -/
def entryOfGroups (groups : List Nat) : (group : Nat) -> List MatcherEntry -> Option Nat
  | _, [] => none
  | group, entry :: rest =>
    if group ∈ groups then some 0
    else (entryOfGroups groups (group + 1 + entry.single.groupCount) rest).map (· + 1)

/-- A union has matched, but no group was found that belongs to one of its patterns. -/
inductive Unclaimed where
  | unclaimed
deriving DecidableEq, Repr

/-- Goes through the unions. `index` is the number of the first entry, `skip` says how many entries
are to be passed over before a union is asked again, and `best` is the best reading so far. -/
def scan (matcher : Matcher) (preference : Preference) (text : List Char) :
    (index skip : Nat) -> List MatcherEntry -> List Pattern -> Option Candidate ->
      Except Unclaimed (Option Candidate)
  | index, skip + 1, _ :: entries, _ :: unions, best =>
    scan matcher preference text (index + 1) skip entries unions best
  | index, 0, entry :: entries, union :: unions, best =>
    match union.find? text with
    | none => .ok best
    | some found =>
      match entryOfGroups found.groups 1 (entry :: entries) with
      | none => .error .unclaimed
      | some place =>
        let name := (((entry :: entries)[place]?).map (·.name)).getD ""
        let candidate : Candidate := ⟨index + place, name, Text.byteSize found.matched⟩
        let best :=
          if candidate.size = 0 then best
          else
            match best with
            | none => some candidate
            | some old => if matcher.better preference old candidate then some candidate else some old
        scan matcher preference text (index + 1) place entries unions best
  | _, _, _, _, best => .ok best

/-- The best reading of the beginning of a text, if there is one. -/
def longest (matcher : Matcher) (text : List Char) (preference : Preference) :
    Except Unclaimed (Option Candidate) :=
  matcher.scan preference text 0 0 matcher.entries matcher.unions none

/-- The best reading of a text at a byte offset, if there is one: the name of the token, and its
text. -/
def matchAt (matcher : Matcher) (text : String) (offset : Nat) (preference : Preference) :
    Except Unclaimed (Option (String × String)) :=
  match Text.dropBytes? text.toList offset with
  | none => .ok none
  | some rest => do
    let best ← matcher.longest rest preference
    return best.map fun candidate =>
      (candidate.name, String.ofList (Text.takeWithin rest candidate.size))

end Matcher
end ShiftReduce
