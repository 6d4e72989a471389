import ShiftReduce.Pattern.SetReader

/-!
Patterns read from text.

A pattern is read from left to right in one pass. Groups that are open are kept on a stack with the
modes to return to when they close, and a mode that is set inside a group holds until then. A
repetition applies to the part before it, which must be there and must not be a change of modes.
-/

namespace ShiftReduce

/-- A part of a pattern that has been read, with how deep it is nested. -/
structure PatternPart where
  expr : PatternExpr
  depth : Nat
  /-- Whether a repetition can apply to the part. -/
  repeatable : Bool := true

namespace PatternPart

/-- A change of modes, which matches the empty text. -/
def modes : PatternPart := ⟨.empty, 0, false⟩

/-- How deep a list of parts is nested; several parts count as a level of their own. -/
def depthOfList : List PatternPart -> Nat
  | [] => 0
  | [part] => part.depth
  | several => (several.map (·.depth)).foldl max 0 + 1

/-- One part after another. -/
def sequenceOf (parts : List PatternPart) : PatternPart :=
  let expr :=
    match parts.reverse with
    | [] => PatternExpr.empty
    | last :: before =>
      before.foldl (fun rest part => .sequence part.expr rest) last.expr
  ⟨expr, depthOfList parts, true⟩

/-- One of several parts, the first ones preferably. -/
def choiceOf (parts : List PatternPart) : PatternPart :=
  let expr :=
    match parts.reverse with
    | [] => PatternExpr.empty
    | last :: before =>
      before.foldl (fun rest part => .choice part.expr rest) last.expr
  ⟨expr, depthOfList parts, true⟩

end PatternPart

/-- The level of a pattern between two parentheses: the branches that are complete and the parts of
the branch being read, both last first. -/
structure PatternLevel where
  branches : List PatternPart
  parts : List PatternPart

namespace PatternLevel

/-- A level with nothing in it. -/
def empty : PatternLevel := ⟨[], []⟩

/-- Adds a part at the end. -/
def add (level : PatternLevel) (part : PatternPart) : PatternLevel :=
  { level with parts := part :: level.parts }

/-- Ends the branch being read. -/
def endBranch (level : PatternLevel) : PatternLevel :=
  ⟨.sequenceOf level.parts.reverse :: level.branches, []⟩

/-- The level as one part. -/
def close (level : PatternLevel) : PatternPart :=
  PatternPart.choiceOf level.endBranch.branches.reverse

end PatternLevel

/-- A group that is open: its number if it has one, the level it stands in, and the modes there. -/
structure OpenGroup where
  index : Option Nat
  outer : PatternLevel
  flags : PatternFlags

/-- How far a pattern has been read. -/
structure PatternReading where
  stack : List OpenGroup
  level : PatternLevel
  flags : PatternFlags
  groups : Nat
  names : List String

namespace PatternReading

open PatternLexeme

/-- Adds a part at the end. -/
def add (reading : PatternReading) (part : PatternPart) : PatternReading :=
  { reading with level := reading.level.add part }

/-- Adds a part that is not made of others. -/
def addExpr (reading : PatternReading) (expr : PatternExpr) : PatternReading :=
  reading.add ⟨expr, 0, true⟩

/-- Opens a group. -/
def openGroup (reading : PatternReading) (index : Option Nat) (flags : PatternFlags) :
    PatternReading :=
  { reading with
    stack := ⟨index, reading.level, reading.flags⟩ :: reading.stack
    level := .empty
    flags }

/-- Opens a group that has a number. -/
def openNumbered (reading : PatternReading) : PatternReading :=
  { reading.openGroup (some (reading.groups + 1)) reading.flags with groups := reading.groups + 1 }

/-- Reads what follows an opening parenthesis up to the inside of the group. -/
def beginGroup (reading : PatternReading) (rest : List Char) :
    Except PatternError (PatternReading × List Char) :=
  let named (rest : List Char) : Except PatternError (PatternReading × List Char) := do
    let (letters, rest) ← groupName true rest
    let name := String.ofList letters
    if name ∈ reading.names then .error (.duplicateGroupName name)
    else return ({ reading.openNumbered with names := name :: reading.names }, rest)
  match skipBlanks reading.flags.verbose rest with
  | '?' :: '=' :: _ => .error .lookAround
  | '?' :: '!' :: _ => .error .lookAround
  | '?' :: '<' :: '=' :: _ => .error .lookAround
  | '?' :: '<' :: '!' :: _ => .error .lookAround
  | '?' :: 'P' :: '<' :: rest => named rest
  | '?' :: '<' :: rest => named rest
  | '?' :: rest => do
    let (flags, unchanged, fin, rest) ← readFlags reading.flags [] false false rest
    if fin = ':' then return (reading.openGroup none flags, rest)
    else if unchanged then .error .missingOperand
    else return ({ reading with flags }.add .modes, rest)
  | rest => .ok (reading.openNumbered, rest)

/-- Closes the group opened last. -/
def closeGroup (reading : PatternReading) : Except PatternError PatternReading :=
  match reading.stack with
  | [] => .error .unopenedGroup
  | group :: stack =>
    let inner := reading.level.close
    let expr :=
      match group.index with
      | some index => PatternExpr.group index inner.expr
      | none => inner.expr
    .ok
      { reading with
        stack
        level := group.outer.add ⟨expr, inner.depth + 1, true⟩
        flags := group.flags }

/-- Repeats the part before. A part that is repeated no times is gone, with its groups. -/
def repeatLast (reading : PatternReading) (min : Nat) (max : Option Nat) (lazy : Bool) :
    Except PatternError PatternReading :=
  match reading.level.parts with
  | [] => .error .missingOperand
  | part :: parts =>
    if part.repeatable then
      let expr :=
        if max = some 0 then PatternExpr.empty
        else .repetition min max (lazy == reading.flags.swapGreed) part.expr
      .ok { reading with level := { reading.level with parts := ⟨expr, part.depth + 1, true⟩ :: parts } }
    else .error .missingOperand

/-- Whether a question mark follows, which makes a repetition lazy, and the rest after it. -/
def lazyMark : List Char -> Bool × List Char
  | '?' :: rest => (true, rest)
  | rest => (false, rest)

/-- Reads the bounds of a repetition behind the opening brace, and repeats the part before. -/
def readBounds (reading : PatternReading) (rest : List Char) :
    Except PatternError (PatternReading × List Char) := do
  let verbose := reading.flags.verbose
  let close (min : Nat) (max : Option Nat) (rest : List Char) :
      Except PatternError (PatternReading × List Char) := do
    let (lazy, rest) := lazyMark (skipBlanks verbose rest)
    match max with
    | some limit => if limit < min then .error .repetitionBounds
    | none => pure ()
    return (← reading.repeatLast min max lazy, rest)
  let (low, rest) ← decimal verbose (skipBlanks verbose rest)
  match low with
  | none => .error .repetitionBounds
  | some low =>
    match rest with
    | '}' :: rest => close low (some low) rest
    | ',' :: rest =>
      match skipBlanks verbose rest with
      | '}' :: rest => close low none rest
      | rest =>
        let (high, rest) ← decimal verbose rest
        match high, rest with
        | some high, '}' :: rest => close low (some high) rest
        | _, _ => .error .repetitionBounds
    | _ => .error .repetitionBounds

/-- The assertion at the beginning of a line in the current modes. -/
def lineStart (flags : PatternFlags) : Assertion :=
  if flags.multiline then
    if flags.returns then .lineStartAfterReturn else .lineStart
  else .textStart

/-- The assertion at the end of a line in the current modes. -/
def lineEnd (flags : PatternFlags) : Assertion :=
  if flags.multiline then
    if flags.returns then .lineEndBeforeReturn else .lineEnd
  else .textEnd

/-- What a dot matches in the current modes. Outside the Unicode mode it would match bytes. -/
def dot (flags : PatternFlags) : Except PatternError CharClass :=
  if !flags.unicode then .error .splitsCharacters
  else if flags.dotAll then .ok .all
  else if flags.returns then .ok (.complement (.ranges [(0x0A, 0x0A), (0x0D, 0x0D)]))
  else .ok (.complement (.single '\n'))

/-- What a part that is not made of others matches in the current modes. -/
def exprOfAtom (flags : PatternFlags) : Atom -> Except PatternError PatternExpr
  | .literal c byte => do
    let c ← checkLiteral flags c byte
    return .one (foldClass flags (.single c))
  | .assertion assertion => .ok (.assert (assertion !flags.unicode))
  | .members negated unicode ascii => do
    let members ← classOf flags negated unicode ascii
    return .one members

/-- Reads one part or operator of a pattern. -/
def next (reading : PatternReading) (c : Char) (rest : List Char) :
    Except PatternError (PatternReading × List Char) :=
  match c with
  | '(' => reading.beginGroup rest
  | ')' => do
    let reading ← reading.closeGroup
    return (reading, rest)
  | '|' => .ok ({ reading with level := reading.level.endBranch }, rest)
  | '[' => do
    let (member, rest) ← bracketed reading.flags rest
    return (reading.add ⟨.one member.members, member.depth, true⟩, rest)
  | '?' => do
    let (lazy, rest) := lazyMark rest
    return (← reading.repeatLast 0 (some 1) lazy, rest)
  | '*' => do
    let (lazy, rest) := lazyMark rest
    return (← reading.repeatLast 0 none lazy, rest)
  | '+' => do
    let (lazy, rest) := lazyMark rest
    return (← reading.repeatLast 1 none lazy, rest)
  | '{' => reading.readBounds rest
  | '\\' => do
    let (atom, rest) ← escape reading.flags.verbose rest
    return (reading.addExpr (← exprOfAtom reading.flags atom), rest)
  | '.' => do
    let members ← dot reading.flags
    return (reading.addExpr (.one members), rest)
  | '^' => .ok (reading.addExpr (.assert (lineStart reading.flags)), rest)
  | '$' => .ok (reading.addExpr (.assert (lineEnd reading.flags)), rest)
  | c => do
    let expr ← exprOfAtom reading.flags (.literal c false)
    return (reading.addExpr expr, rest)

/-- Reads a pattern to its end, at most `bound` parts and operators. -/
def readWithin : Nat -> PatternReading -> List Char -> Except PatternError PatternPart
  | 0, _, _ => .error .size
  | bound + 1, reading, rest =>
    match skipBlanks reading.flags.verbose rest with
    | [] => if reading.stack.isEmpty then .ok reading.level.close else .error .unclosedGroup
    | c :: rest => do
      let (reading, rest) ← reading.next c rest
      readWithin bound reading rest

end PatternReading

/-- A pattern, ready to be searched for. -/
structure Pattern where
  expr : PatternExpr

namespace Pattern

/-- How deep groups, sets and repetitions can be nested. -/
def depthLimit : Nat := 250

/-- How large a pattern can be with its repetitions written out. -/
def weightLimit : Nat := 327680

/-- Reads a pattern. -/
def ofString (source : String) (insensitive : Bool) : Except PatternError Pattern := do
  let reading : PatternReading := ⟨[], .empty, { insensitive }, 0, []⟩
  let part ← reading.readWithin (source.toList.length + 1) source.toList
  if depthLimit < part.depth then .error .nesting
  else if weightLimit < part.expr.weight then .error .size
  else return ⟨part.expr⟩

/-- The number of groups. Groups are numbered from one in the order of their parentheses; a part
that is repeated no times has none. -/
def groupCount (pattern : Pattern) : Nat :=
  pattern.expr.groupCount

/-- What a search has found. -/
structure Match where
  /-- The characters before the match. -/
  skipped : List Char
  /-- The characters of the match. -/
  matched : List Char
  /-- The groups that took part. -/
  groups : List Nat
deriving DecidableEq, Repr

/-- The leftmost match in a text. -/
def find? (pattern : Pattern) (text : List Char) : Option Match :=
  (pattern.expr.search text).map fun (start, fin) =>
    ⟨text.take start, (text.take fin.place.passed).drop start, fin.groups⟩

/-- A text as a pattern that matches nothing else. -/
def escape (text : String) : String :=
  String.join (text.toList.map fun c =>
    if PatternLexeme.isMeta c then "\\" ++ c.toString else c.toString)

end Pattern
end ShiftReduce
