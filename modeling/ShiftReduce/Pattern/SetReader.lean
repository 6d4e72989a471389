import ShiftReduce.Pattern.Lexeme

/-!
Sets of characters in brackets.

A set lists characters, ranges, classes and further sets. Between the lists may stand the operators
`&&`, `--` and `~~`; they bind less tight than listing and associate to the left. Sets that are
open and operators that wait for their right side are kept on a stack, so nesting is no recursion.
-/

namespace ShiftReduce

/-- A class as part of a set, with how deep sets are nested in it. -/
structure SetMember where
  members : CharClass
  depth : Nat

namespace SetMember

/-- A list of members as one member. Only a list of several counts as a level of nesting. -/
def ofList : List SetMember -> SetMember
  | [] => ⟨.empty, 0⟩
  | [member] => member
  | several =>
    ⟨.unionAll (several.map (·.members)), (several.map (·.depth)).foldl max 0 + 1⟩

end SetMember

/-- The operators between lists. -/
inductive SetOperator where
  | intersection
  | difference
  | symmetricDifference
deriving DecidableEq, Repr

/-- What is waiting for its end: a set that is open, with the members listed before it in the set
around it, last first; or an operator with its left side. -/
inductive SetFrame where
  | opened (negated : Bool) (outer : List SetMember)
  | operator (operator : SetOperator) (left : SetMember)

namespace PatternLexeme

/-- A class with the letters in both cases, in insensitive mode. -/
def foldClass (flags : PatternFlags) (members : CharClass) : CharClass :=
  if flags.insensitive then
    if flags.unicode then .folded members else .asciiFolded members
  else members

/-- A class that is folded and then, if asked for, complemented. Outside the Unicode mode the
complement would hold parts of characters. -/
def foldAndNegate (flags : PatternFlags) (negated : Bool) (members : CharClass) :
    Except PatternError CharClass :=
  if negated then
    if flags.unicode then .ok (.complement (foldClass flags members))
    else .error .splitsCharacters
  else .ok (foldClass flags members)

/-- The class that a named class stands for in the current modes. -/
def classOf (flags : PatternFlags) (negated : Bool) (unicode : CharClass)
    (ascii : Option Unicode.Ranges) : Except PatternError CharClass :=
  match ascii, flags.unicode with
  | none, true => foldAndNegate flags negated unicode
  | none, false => .error .needsUnicode
  | some _, true => .ok (if negated then .complement unicode else unicode)
  | some ranges, false => if negated then .error .splitsCharacters else .ok (.ranges ranges)

/-- A character that stands for itself in the current modes. Outside the Unicode mode a number of
two digits is a byte, and only those below 128 are characters. -/
def checkLiteral (flags : PatternFlags) (c : Char) (byte : Bool) : Except PatternError Char :=
  if flags.unicode || Unicode.isAscii c || !byte then .ok c else .error .splitsCharacters

/-- A character listed in a set. Outside the Unicode mode it has to be one of ASCII. -/
def checkSetLiteral (flags : PatternFlags) (c : Char) (byte : Bool) : Except PatternError Char :=
  if flags.unicode || Unicode.isAscii c then .ok c
  else if byte then .error .splitsCharacters
  else .error .needsUnicode

/-- One character or escape inside a set. -/
def setAtom (flags : PatternFlags) : List Char -> Except PatternError (Atom × List Char)
  | [] => .error .unclosedSet
  | '\\' :: rest => escape flags.verbose rest
  | c :: rest => .ok (.literal c false, rest)

/-- A member made of one character or class. -/
def setMember (flags : PatternFlags) : Atom -> Except PatternError SetMember
  | .literal c byte => do
    let c ← checkSetLiteral flags c byte
    return ⟨.single c, 0⟩
  | .members negated unicode ascii => do
    let members ← classOf flags negated unicode ascii
    return ⟨members, 0⟩
  | .assertion _ => .error .setMember

/-- A member made of a range of characters. -/
def setRange (flags : PatternFlags) : Atom -> Atom -> Except PatternError SetMember
  | .literal low lowByte, .literal high highByte => do
    let low ← checkSetLiteral flags low lowByte
    let high ← checkSetLiteral flags high highByte
    if low ≤ high then return ⟨.ranges [(low.toNat, high.toNat)], 0⟩
    else .error .range
  | _, _ => .error .range

/-- A character, a class or a range inside a set. A hyphen in front of the closing bracket or of
another hyphen makes no range. -/
def setItem (flags : PatternFlags) (rest : List Char) :
    Except PatternError (SetMember × List Char) := do
  let (first, rest) ← setAtom flags rest
  match skipBlanks flags.verbose rest with
  | [] => .error .unclosedSet
  | c :: tail =>
    let beyond := peekBeyond flags.verbose (c :: tail)
    if c ≠ '-' ∨ beyond = some ']' ∨ beyond = some '-' then
      return (← setMember flags first, c :: tail)
    else
      let (second, rest) ← setAtom flags (skipBlanks flags.verbose tail)
      return (← setRange flags first second, rest)

/-- The hyphens at the beginning of a set, which stand for themselves. -/
def leadingHyphens (verbose : Bool) : Nat -> List Char -> Nat × List Char
  | 0, rest => (0, rest)
  | bound + 1, rest =>
    match rest with
    | '-' :: tail =>
      let (count, rest) := leadingHyphens verbose bound (skipBlanks verbose tail)
      (count + 1, rest)
    | other => (0, other)

/-- The beginning of a set behind its opening bracket: whether it is negated, and the members that
are characters only because of where they stand. -/
def openSet (verbose : Bool) (rest : List Char) :
    Except PatternError (Bool × List SetMember × List Char) :=
  let rest := skipBlanks verbose rest
  let (negated, rest) :=
    match rest with
    | '^' :: tail => (true, skipBlanks verbose tail)
    | other => (false, other)
  let (count, rest) := leadingHyphens verbose (rest.length + 1) rest
  let hyphens := List.replicate count (⟨.single '-', 0⟩ : SetMember)
  match rest with
  | [] => .error .unclosedSet
  | ']' :: tail =>
    if count = 0 then
      match skipBlanks verbose tail with
      | [] => .error .unclosedSet
      | rest => .ok (negated, [⟨.single ']', 0⟩], rest)
    else .ok (negated, hyphens, ']' :: tail)
  | rest => .ok (negated, hyphens, rest)

/-- A POSIX class `[:name:]`, behind its first bracket. What only looks like one is none. -/
def posixSet? (rest : List Char) : Option (Bool × Unicode.Ranges × List Char) :=
  match rest with
  | ':' :: rest =>
    let (negated, rest) :=
      match rest with
      | '^' :: tail => (true, tail)
      | other => (false, other)
    match splitAt? [':'] rest with
    | some (name, ']' :: after) =>
      (ClassName.posix? (String.ofList name)).map fun ranges => (negated, ranges, after)
    | _ => none
  | _ => none

/-- The operator at the front, if there is one. -/
def setOperator? : List Char -> Option (SetOperator × List Char)
  | '&' :: '&' :: rest => some (.intersection, rest)
  | '-' :: '-' :: rest => some (.difference, rest)
  | '~' :: '~' :: rest => some (.symmetricDifference, rest)
  | _ => none

/-- The class of an operator between two classes, each folded before. -/
def combine (flags : PatternFlags) (operator : SetOperator) (left right : SetMember) : SetMember :=
  let first := foldClass flags left.members
  let second := foldClass flags right.members
  let members :=
    match operator with
    | .intersection => CharClass.intersection first second
    | .difference => .difference first second
    | .symmetricDifference => .symmetricDifference first second
  ⟨members, max left.depth right.depth + 1⟩

/-- Gives an operator that waits for its right side that side. -/
def settleOperator (flags : PatternFlags) (right : SetMember) :
    List SetFrame -> SetMember × List SetFrame
  | .operator operator left :: stack => (combine flags operator left right, stack)
  | stack => (right, stack)

/-- Reads the inside of a set. `stack` holds what is open, and `listed` the members listed last,
last first. -/
def readSet (flags : PatternFlags) : Nat -> List SetFrame -> List SetMember -> List Char ->
    Except PatternError (SetMember × List Char)
  | 0, _, _, _ => .error .unclosedSet
  | bound + 1, stack, listed, rest =>
    match skipBlanks flags.verbose rest with
    | [] => .error .unclosedSet
    | '[' :: rest =>
      match posixSet? rest with
      | some (negated, ranges, rest) => do
        let members ← foldAndNegate flags negated (.ranges ranges)
        readSet flags bound stack (⟨members, 0⟩ :: listed) rest
      | none => do
        let (negated, initial, rest) ← openSet flags.verbose rest
        readSet flags bound (.opened negated listed :: stack) initial rest
    | ']' :: rest =>
      match settleOperator flags (SetMember.ofList listed.reverse) stack with
      | (inner, .opened negated outer :: stack) => do
        let members ← foldAndNegate flags negated inner.members
        let closed : SetMember := ⟨members, inner.depth + 1⟩
        if stack.isEmpty then return (closed, rest)
        else readSet flags bound stack (closed :: outer) rest
      | _ => .error .unclosedSet
    | rest =>
      match setOperator? rest with
      | some (operator, rest) =>
        let (left, stack) := settleOperator flags (SetMember.ofList listed.reverse) stack
        readSet flags bound (.operator operator left :: stack) [] rest
      | none => do
        let (member, rest) ← setItem flags rest
        readSet flags bound stack (member :: listed) rest

/-- Reads a set behind its opening bracket. -/
def bracketed (flags : PatternFlags) (rest : List Char) :
    Except PatternError (SetMember × List Char) := do
  let (negated, initial, inside) ← openSet flags.verbose rest
  readSet flags (inside.length + 1) [.opened negated []] initial inside

end PatternLexeme
end ShiftReduce
