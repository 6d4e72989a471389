import ShiftReduce.Pattern.CharClass

/-!
Patterns and what they match.

A pattern is matched at a place of a text and has there a list of ends, in order of preference: the
left branch of an alternative before the right one, one more repetition before the end of a greedy
repetition and after that of a lazy one. Two ways to the same end differ only in the groups that
took part, and the preferred one stands for both, so no end occurs twice. A search takes the first
end of the leftmost place that has one.

An unlimited repetition does not go on from an end that it has gone on from before. That is what
makes repetitions of patterns that match the empty text come to an end, and it loses no end.
-/

namespace ShiftReduce

/-- A condition on the place between two characters. -/
inductive Assertion where
  | textStart
  | textEnd
  | lineStart
  | lineEnd
  /-- The beginning of a line where a carriage return ends lines too. -/
  | lineStartAfterReturn
  /-- The end of a line where a carriage return ends lines too. -/
  | lineEndBeforeReturn
  /-- A place with a word character on exactly one side. -/
  | boundary (ascii : Bool)
  | noBoundary (ascii : Bool)
  | wordStart (ascii : Bool)
  | wordEnd (ascii : Bool)
  /-- A place with no word character before it. -/
  | wordStartHalf (ascii : Bool)
  /-- A place with no word character after it. -/
  | wordEndHalf (ascii : Bool)
deriving DecidableEq, Repr

/-- A place in a text: the characters passed so far, the last of them, and the rest. -/
structure Place where
  passed : Nat
  last : Option Char
  rest : List Char
deriving DecidableEq, Repr

namespace Place

/-- The beginning of a text. -/
def start (text : List Char) : Place := ⟨0, none, text⟩

/-- The place after the next character. -/
def next? (place : Place) : Option (Char × Place) :=
  match place.rest with
  | [] => none
  | c :: rest => some (c, ⟨place.passed + 1, some c, rest⟩)

/-- Whether the character, if there is one, is a word character. -/
def isWord (ascii : Bool) : Option Char -> Bool
  | none => false
  | some c => if ascii then c.isAlphanum || c = '_' else Unicode.isWordChar c

/-- Whether an assertion holds at a place. -/
def satisfies (place : Place) : Assertion -> Bool
  | .textStart => place.last.isNone
  | .textEnd => place.rest.isEmpty
  | .lineStart => place.last.isNone || place.last == some '\n'
  | .lineEnd => place.rest.isEmpty || place.rest.head? == some '\n'
  | .lineStartAfterReturn =>
    place.last.isNone || place.last == some '\n' ||
      place.last == some '\r' && place.rest.head? != some '\n'
  | .lineEndBeforeReturn =>
    place.rest.isEmpty || place.rest.head? == some '\r' ||
      place.rest.head? == some '\n' && place.last != some '\r'
  | .boundary ascii => isWord ascii place.last != isWord ascii place.rest.head?
  | .noBoundary ascii => isWord ascii place.last == isWord ascii place.rest.head?
  | .wordStart ascii => !isWord ascii place.last && isWord ascii place.rest.head?
  | .wordEnd ascii => isWord ascii place.last && !isWord ascii place.rest.head?
  | .wordStartHalf ascii => !isWord ascii place.last
  | .wordEndHalf ascii => !isWord ascii place.rest.head?

end Place

/-- What a pattern is made of. -/
inductive PatternExpr where
  /-- The empty text. -/
  | empty
  /-- One character of a class. -/
  | one (members : CharClass)
  /-- The empty text at a place that satisfies the assertion. -/
  | assert (assertion : Assertion)
  /-- A numbered group, whose taking part in a match is recorded. -/
  | group (index : Nat) (inner : PatternExpr)
  /-- One pattern after another. -/
  | sequence (first second : PatternExpr)
  /-- One of two patterns, preferably the first. -/
  | choice (first second : PatternExpr)
  /-- At least `min` repetitions and, if `max` is given, at most that many. -/
  | repetition (min : Nat) (max : Option Nat) (greedy : Bool) (inner : PatternExpr)

/-- An end of a match, with the groups that took part in it. -/
structure MatchEnd where
  place : Place
  groups : List Nat
deriving DecidableEq, Repr

namespace MatchEnd

/-- Keeps the first of all ends at the same place. -/
def distinctFrom : List Nat -> List MatchEnd -> List MatchEnd
  | _, [] => []
  | seen, fin :: rest =>
    if fin.place.passed ∈ seen then distinctFrom seen rest
    else fin :: distinctFrom (fin.place.passed :: seen) rest

/-- Keeps the first of all ends at the same place. -/
def distinct (ends : List MatchEnd) : List MatchEnd :=
  distinctFrom [] ends

/-- The ends of `step`, from each of `ends` in turn. -/
def follow (step : MatchEnd -> List MatchEnd) (ends : List MatchEnd) : List MatchEnd :=
  distinct (ends.flatMap step)

/-- Exactly `count` repetitions of `step`. -/
def times (step : MatchEnd -> List MatchEnd) : Nat -> MatchEnd -> List MatchEnd
  | 0, start => [start]
  | count + 1, start => follow step (times step count start)

/-- At most `count` repetitions of `step`. The second argument and result are the pairs of a number
of repetitions left and a place that have been gone on from; nothing is gained by going on from
them again. -/
def upTo (greedy : Bool) (step : MatchEnd -> List MatchEnd) :
    Nat -> MatchEnd -> List (Nat × Nat) -> List MatchEnd × List (Nat × Nat)
  | 0, start, seen => ([start], seen)
  | count + 1, start, seen =>
    if (count, start.place.passed) ∈ seen then ([], seen)
    else
      let (more, seen) := (step start).foldl
        (fun (ends, seen) next =>
          let (more, seen) := upTo greedy step count next seen
          (ends ++ more, seen))
        ([], (count, start.place.passed) :: seen)
      (if greedy then more ++ [start] else start :: more, seen)

/-- The ends found so far, last first, and the places that repetitions have led to. -/
structure Found where
  ends : List MatchEnd
  seen : List Nat

/-- One or more repetitions of `step`, behind those that have been found before. `bound` limits how
many of the repetitions that pass a character follow one another; the number of characters left is
enough. -/
def oneOrMore (greedy : Bool) (step : MatchEnd -> List MatchEnd) :
    Nat -> MatchEnd -> Found -> Found
  | 0, _, found => found
  | bound + 1, start, found =>
    (step start).foldl
      (fun found next =>
        if next.place.passed ∈ found.seen then found
        else
          let seen := next.place.passed :: found.seen
          if start.place.passed < next.place.passed then
            if greedy then
              let further := oneOrMore greedy step bound next { found with seen }
              { further with ends := next :: further.ends }
            else oneOrMore greedy step bound next ⟨next :: found.ends, seen⟩
          else ⟨next :: found.ends, seen⟩)
      found

/-- One or more repetitions of `step`. -/
def repeated (greedy : Bool) (step : MatchEnd -> List MatchEnd) (start : MatchEnd) :
    List MatchEnd :=
  (oneOrMore greedy step (start.place.rest.length + 1) start ⟨[], []⟩).ends.reverse

end MatchEnd

namespace PatternExpr

open MatchEnd

/-- The ends of a pattern that is matched from `start`, the preferred one first. -/
def ends : PatternExpr -> MatchEnd -> List MatchEnd
  | .empty, start => [start]
  | .one members, start =>
    match start.place.next? with
    | some (c, place) => if members.contains c then [{ start with place }] else []
    | none => []
  | .assert assertion, start => if start.place.satisfies assertion then [start] else []
  | .group index inner, start =>
    (inner.ends start).map fun fin => { fin with groups := index :: fin.groups }
  | .sequence first second, start => follow second.ends (first.ends start)
  | .choice first second, start => distinct (first.ends start ++ second.ends start)
  | .repetition min none greedy inner, start =>
    match min with
    | 0 =>
      let more := repeated greedy inner.ends start
      distinct (if greedy then more ++ [start] else start :: more)
    | min + 1 => follow (repeated greedy inner.ends) (times inner.ends min start)
  | .repetition min (some max) greedy inner, start =>
    follow (fun fin => (upTo greedy inner.ends (max - min) fin []).1) (times inner.ends min start)

/-- The highest number of a group. -/
def groupCount : PatternExpr -> Nat
  | .empty => 0
  | .one _ => 0
  | .assert _ => 0
  | .group index inner => max index inner.groupCount
  | .sequence first second => max first.groupCount second.groupCount
  | .choice first second => max first.groupCount second.groupCount
  | .repetition _ _ _ inner => inner.groupCount

/-- The size of a pattern with its repetitions written out. -/
def weight : PatternExpr -> Nat
  | .empty => 1
  | .one members => members.weight
  | .assert _ => 1
  | .group _ inner => inner.weight + 2
  | .sequence first second => first.weight + second.weight
  | .choice first second => first.weight + second.weight + 1
  | .repetition min none _ inner => (max min 1) * inner.weight + 1
  | .repetition min (some limit) _ inner => (max min limit) * (inner.weight + 1) + 1

/-- The first end of a match at a place. -/
def matchAt? (expr : PatternExpr) (place : Place) : Option MatchEnd :=
  (expr.ends ⟨place, []⟩).head?

/-- The leftmost match from a place on: where it begins and where it ends. -/
def searchFrom (expr : PatternExpr) (passed : Nat) (last : Option Char) :
    List Char -> Option (Nat × MatchEnd)
  | [] => (expr.matchAt? ⟨passed, last, []⟩).map fun fin => (passed, fin)
  | c :: rest =>
    match expr.matchAt? ⟨passed, last, c :: rest⟩ with
    | some fin => some (passed, fin)
    | none => searchFrom expr (passed + 1) (some c) rest

/-- Whether the pattern begins with the assertion of the beginning of the text, on every branch. -/
def isAnchored : PatternExpr -> Bool
  | .assert assertion => assertion == .textStart
  | .group _ inner => inner.isAnchored
  | .sequence first _ => first.isAnchored
  | .choice first second => first.isAnchored && second.isAnchored
  | _ => false

/-- An anchored pattern matches nowhere behind a character. -/
theorem ends_eq_nil_of_isAnchored {expr : PatternExpr} (anchored : expr.isAnchored)
    {start : MatchEnd} (behind : start.place.last.isSome) : expr.ends start = [] := by
  induction expr with
  | assert assertion =>
    have first : assertion = .textStart := by simpa [isAnchored] using anchored
    subst first
    cases place : start.place.last with
    | none => simp [place] at behind
    | some c => simp [ends, Place.satisfies, place]
  | group index inner hypothesis =>
    simp [ends, hypothesis anchored]
  | sequence first second hypothesis _ =>
    simp [ends, hypothesis anchored, follow, distinct, distinctFrom]
  | choice first second left right =>
    have both : first.isAnchored = true ∧ second.isAnchored = true := by
      simpa [isAnchored] using anchored
    simp [ends, left both.1, right both.2, distinct, distinctFrom]
  | empty => simp [isAnchored] at anchored
  | one => simp [isAnchored] at anchored
  | repetition => simp [isAnchored] at anchored

/-- Behind a character, a search for an anchored pattern finds nothing. -/
theorem searchFrom_eq_none_of_isAnchored {expr : PatternExpr} (anchored : expr.isAnchored)
    (passed : Nat) (last : Char) (text : List Char) :
    expr.searchFrom passed (some last) text = none := by
  have nothing (place : Place) (behind : place.last.isSome) : expr.matchAt? place = none := by
    rw [matchAt?, ends_eq_nil_of_isAnchored anchored behind]
    rfl
  induction text generalizing passed last with
  | nil => simp [searchFrom, nothing]
  | cons c rest hypothesis => simp [searchFrom, nothing, hypothesis (passed + 1) c]

/-- The leftmost match in a text. An anchored pattern is looked for at the beginning alone. -/
def search (expr : PatternExpr) (text : List Char) : Option (Nat × MatchEnd) :=
  if expr.isAnchored then (expr.matchAt? (.start text)).map fun fin => (0, fin)
  else expr.searchFrom 0 none text

/-- Looking for an anchored pattern at the beginning alone loses no match. -/
theorem search_eq_searchFrom (expr : PatternExpr) (text : List Char) :
    expr.search text = expr.searchFrom 0 none text := by
  unfold search
  split
  · rename_i anchored
    cases text with
    | nil => rfl
    | cons c rest =>
      have beyond := searchFrom_eq_none_of_isAnchored anchored 1 c rest
      unfold searchFrom
      cases found : expr.matchAt? (.start (c :: rest)) with
      | none =>
        have same : expr.matchAt? ⟨0, none, c :: rest⟩ = none := found
        simp [same, beyond]
      | some fin =>
        have same : expr.matchAt? ⟨0, none, c :: rest⟩ = some fin := found
        simp [same]
  · rfl

end PatternExpr
end ShiftReduce
