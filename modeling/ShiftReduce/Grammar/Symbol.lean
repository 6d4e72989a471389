/-!
The right-hand sides of an EBNF grammar.

A symbol is a name or an operator over sequences of symbols. Whether a name means a rule or a token
is not a property of the symbol: it is a rule exactly when the grammar has one of that name.
-/

namespace ShiftReduce

/-- One element of a production's right-hand side. -/
inductive Symbol where
  /-- A rule or a token. -/
  | name (name : String)
  /-- Any number of repetitions of a sequence. -/
  | repeat0 (body : List Symbol)
  /-- One or more repetitions of a sequence. -/
  | repeat1 (body : List Symbol)
  /-- A sequence or nothing. -/
  | optional (body : List Symbol)
  /-- One of several sequences. -/
  | alternation (branches : List (List Symbol))
  /-- At least `min` repetitions of a sequence and at most `max`, where a `max` of zero sets no
  limit. -/
  | bounded (min max : Nat) (body : List Symbol)
deriving Repr, Inhabited

namespace Symbol

/-- The name of the kind of a symbol. -/
def kind : Symbol -> String
  | .name _ => "Name"
  | .repeat0 _ => "Repeat0"
  | .repeat1 _ => "Repeat1"
  | .optional _ => "Optional"
  | .alternation _ => "Alternation"
  | .bounded .. => "Bounded"

/-- The name, for a symbol that is one. -/
def asName? : Symbol -> Option String
  | .name word => some word
  | _ => none

/-- The symbols directly inside an operator. -/
def children : Symbol -> List Symbol
  | .name _ => []
  | .repeat0 body => body
  | .repeat1 body => body
  | .optional body => body
  | .alternation branches => branches.flatten
  | .bounded _ _ body => body

mutual

/-- How deep operators are nested; a name has depth zero. -/
def depth : Symbol -> Nat
  | .name _ => 0
  | .repeat0 body => depthOfSequence body + 1
  | .repeat1 body => depthOfSequence body + 1
  | .optional body => depthOfSequence body + 1
  | .alternation branches => depthOfBranches branches + 1
  | .bounded _ _ body => depthOfSequence body + 1

/-- The depth of the deepest symbol of a sequence. -/
def depthOfSequence : List Symbol -> Nat
  | [] => 0
  | symbol :: rest => max symbol.depth (depthOfSequence rest)

/-- The depth of the deepest symbol of several sequences. -/
def depthOfBranches : List (List Symbol) -> Nat
  | [] => 0
  | branch :: rest => max (depthOfSequence branch) (depthOfBranches rest)

end

mutual

/-- Whether two symbols are the same. -/
def same : Symbol -> Symbol -> Bool
  | .name left, .name right => left == right
  | .repeat0 left, .repeat0 right => sameSequence left right
  | .repeat1 left, .repeat1 right => sameSequence left right
  | .optional left, .optional right => sameSequence left right
  | .alternation left, .alternation right => sameBranches left right
  | .bounded min max left, .bounded min' max' right =>
    min == min' && max == max' && sameSequence left right
  | _, _ => false

/-- Whether two sequences are the same. -/
def sameSequence : List Symbol -> List Symbol -> Bool
  | [], [] => true
  | left :: lefts, right :: rights => same left right && sameSequence lefts rights
  | _, _ => false

/-- Whether two lists of sequences are the same. -/
def sameBranches : List (List Symbol) -> List (List Symbol) -> Bool
  | [], [] => true
  | left :: lefts, right :: rights => sameSequence left right && sameBranches lefts rights
  | _, _ => false

end

mutual

theorem eq_of_same : (left right : Symbol) -> same left right = true -> left = right
  | .name _, right, h => by
    cases right <;> simp_all [same]
  | .repeat0 left, right, h => by
    cases right <;> simp_all [same]
    exact eq_of_sameSequence left _ h
  | .repeat1 left, right, h => by
    cases right <;> simp_all [same]
    exact eq_of_sameSequence left _ h
  | .optional left, right, h => by
    cases right <;> simp_all [same]
    exact eq_of_sameSequence left _ h
  | .alternation left, right, h => by
    cases right <;> simp_all [same]
    exact eq_of_sameBranches left _ h
  | .bounded _ _ left, right, h => by
    cases right <;> simp_all [same]
    exact eq_of_sameSequence left _ h.2

theorem eq_of_sameSequence :
    (left right : List Symbol) -> sameSequence left right = true -> left = right
  | [], right, h => by
    cases right <;> simp_all [sameSequence]
  | left :: lefts, right, h => by
    cases right with
    | nil => simp [sameSequence] at h
    | cons right rights =>
      simp only [sameSequence, Bool.and_eq_true] at h
      rw [eq_of_same left right h.1, eq_of_sameSequence lefts rights h.2]

theorem eq_of_sameBranches :
    (left right : List (List Symbol)) -> sameBranches left right = true -> left = right
  | [], right, h => by
    cases right <;> simp_all [sameBranches]
  | left :: lefts, right, h => by
    cases right with
    | nil => simp [sameBranches] at h
    | cons right rights =>
      simp only [sameBranches, Bool.and_eq_true] at h
      rw [eq_of_sameSequence left right h.1, eq_of_sameBranches lefts rights h.2]

end

mutual

theorem same_self : (symbol : Symbol) -> same symbol symbol = true
  | .name _ => by simp [same]
  | .repeat0 body => by simp [same, sameSequence_self body]
  | .repeat1 body => by simp [same, sameSequence_self body]
  | .optional body => by simp [same, sameSequence_self body]
  | .alternation branches => by simp [same, sameBranches_self branches]
  | .bounded _ _ body => by simp [same, sameSequence_self body]

theorem sameSequence_self : (sequence : List Symbol) -> sameSequence sequence sequence = true
  | [] => rfl
  | symbol :: rest => by simp [sameSequence, same_self symbol, sameSequence_self rest]

theorem sameBranches_self : (branches : List (List Symbol)) -> sameBranches branches branches = true
  | [] => rfl
  | branch :: rest => by simp [sameBranches, sameSequence_self branch, sameBranches_self rest]

end

instance : DecidableEq Symbol := fun left right =>
  if h : same left right = true then .isTrue (eq_of_same left right h)
  else .isFalse fun equal => h (equal ▸ same_self left)

/-- The names among `level`, then those one level deeper, and so on for `bound` levels. -/
def namesWithin : Nat -> List Symbol -> List String
  | 0, _ => []
  | bound + 1, level => level.filterMap asName? ++ namesWithin bound (level.flatMap children)

/-- Every name mentioned inside a symbol, outermost first and from left to right in each level. -/
def names (symbol : Symbol) : List String :=
  namesWithin (symbol.depth + 1) [symbol]

end Symbol
end ShiftReduce
