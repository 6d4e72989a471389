import ShiftReduce.Automaton.IdSet
import ShiftReduce.Grammar.Plain

/-!
The symbols of a plain grammar, by number, and what they can begin with.

Symbols are numbered in the order in which the grammar mentions them: rule by rule, the name of the
rule first and then the symbols of its productions. Number zero is the end of the input, whose name
is the empty one. A symbol with productions is a nonterminal, every other symbol a terminal.

Two facts about symbols are computed, each as the least solution of its equations, by going over all
productions until nothing changes any more: whether a symbol derives the empty string, and which
terminals the strings that it derives begin with.
-/

namespace ShiftReduce

/-- A production over symbol numbers. -/
structure NumberedProduction where
  /-- The number of the rule it belongs to. -/
  rule : Nat
  left : Nat
  right : List Nat
  source : PlainProduction
deriving DecidableEq, Repr, Inhabited

/-- The numbered symbols and productions of a grammar. -/
structure Vocabulary where
  names : Array String
  productions : Array NumberedProduction
deriving Repr

namespace Vocabulary

/-- The number of the end of the input. -/
def endId : Nat := 0

/-- The vocabulary before anything is read: the end of the input. -/
def initial : Vocabulary := ⟨#[""], #[]⟩

/-- The number of a symbol, if it has one. -/
def id? (vocabulary : Vocabulary) (name : String) : Option Nat :=
  vocabulary.names.findIdx? (· == name)

/-- The number of a symbol, which gets the next one if it has none. -/
def number (vocabulary : Vocabulary) (name : String) : Nat × Vocabulary :=
  match vocabulary.id? name with
  | some id => (id, vocabulary)
  | none => (vocabulary.names.size, { vocabulary with names := vocabulary.names.push name })

/-- The numbers of several symbols, from left to right. -/
def numberEach (vocabulary : Vocabulary) : List String -> List Nat × Vocabulary
  | [] => ([], vocabulary)
  | name :: rest =>
    let (id, vocabulary) := vocabulary.number name
    let (ids, vocabulary) := vocabulary.numberEach rest
    (id :: ids, vocabulary)

/-- Adds a production of the rule numbered `rule`, whose name is numbered `left`. -/
def addProduction (rule left : Nat) (vocabulary : Vocabulary) (production : PlainProduction) :
    Vocabulary :=
  let (right, vocabulary) := vocabulary.numberEach production.symbols
  { vocabulary with
    productions := vocabulary.productions.push ⟨rule, left, right, production⟩ }

/-- Adds a rule with its productions. -/
def addRule (vocabulary : Vocabulary) (rule : PlainRule) (index : Nat) : Vocabulary :=
  let (left, vocabulary) := vocabulary.number rule.name
  rule.productions.foldl (addProduction index left) vocabulary

/-- The vocabulary of a grammar. -/
def ofGrammar (grammar : PlainGrammar) : Vocabulary :=
  grammar.rules.zipIdx.foldl (fun vocabulary (rule, index) => vocabulary.addRule rule index) initial

/-- The name of a symbol. -/
def name (vocabulary : Vocabulary) (id : Nat) : String :=
  vocabulary.names.getD id ""

/-- The numbers of the productions of a symbol, in order. -/
def productionsOf (vocabulary : Vocabulary) (id : Nat) : List Nat :=
  (List.range vocabulary.productions.size).filter fun index =>
    match vocabulary.productions[index]? with
    | some production => production.left == id
    | none => false

/-- A production in words, for the messages about conflicts. -/
def describe (vocabulary : Vocabulary) (index : Nat) : String :=
  match vocabulary.productions[index]? with
  | none => ""
  | some production =>
    vocabulary.name production.left ++ " ->" ++
      if production.right.isEmpty then " (empty)"
      else String.join (production.right.map fun id => " " ++ vocabulary.name id)

end Vocabulary

/-- Applies `step` until it changes nothing, at most `bound` times. -/
def settle {α : Type} [DecidableEq α] (step : α -> α) : Nat -> α -> α
  | 0, value => value
  | bound + 1, value =>
    let next := step value
    if next = value then value else settle step bound next

/-- A vocabulary with what its symbols derive. -/
structure Analysis where
  vocabulary : Vocabulary
  /-- The productions of each symbol; none for a terminal. -/
  productionsOf : Array (List Nat)
  nullable : Array Bool
  first : Array IdSet
deriving Repr

namespace Analysis

/-- Marks the left side of a production whose right side can be empty. -/
def markNullable (nullable : Array Bool) (production : NumberedProduction) : Array Bool :=
  if production.right.all fun id => nullable.getD id false then
    nullable.setIfInBounds production.left true
  else nullable

/-- Which symbols derive the empty string. -/
def nullableOf (vocabulary : Vocabulary) : Array Bool :=
  settle (fun nullable => vocabulary.productions.foldl markNullable nullable)
    (vocabulary.names.size + 1) (Array.replicate vocabulary.names.size false)

/-- The terminals that begin a sequence, given those that begin each symbol, and those that can
follow the sequence where it is empty. -/
def firstOf (nullable : Array Bool) (first : Array IdSet) (tail : IdSet) : List Nat -> IdSet
  | [] => tail
  | id :: rest =>
    if nullable.getD id false then
      (first.getD id []).union (firstOf nullable first tail rest)
    else first.getD id []

/-- What a right side begins with and the left side is not known to begin with. Where the right side
mentions the left side, nothing is gained there. -/
def gained (nullable : Array Bool) (first : Array IdSet) (left : Nat) : List Nat -> IdSet
  | [] => []
  | id :: rest =>
    let here : IdSet :=
      if id = left then []
      else (first.getD id []).filter fun value => value ∉ first.getD left []
    if nullable.getD id false then here.union (gained nullable first left rest) else here

/-- Adds what a production's right side begins with to what its left side begins with. -/
def growFirst (nullable : Array Bool) (first : Array IdSet) (production : NumberedProduction) :
    Array IdSet :=
  first.setIfInBounds production.left
    ((first.getD production.left []).union
      (gained nullable first production.left production.right))

/-- What each symbol begins with as long as no production is taken into account: a terminal with
itself, a nonterminal and the end of the input with nothing. -/
def initialFirst (productionsOf : Array (List Nat)) : Array IdSet :=
  productionsOf.mapIdx fun id productions =>
    if id = Vocabulary.endId ∨ !productions.isEmpty then [] else [id]

/-- The terminals that the strings a symbol derives begin with. -/
def firstSets (vocabulary : Vocabulary) (productionsOf : Array (List Nat))
    (nullable : Array Bool) : Array IdSet :=
  settle (fun first => vocabulary.productions.foldl (growFirst nullable) first)
    (vocabulary.names.size * vocabulary.names.size + 1) (initialFirst productionsOf)

/-- The analysis of a grammar. -/
def ofGrammar (grammar : PlainGrammar) : Analysis :=
  let vocabulary := Vocabulary.ofGrammar grammar
  let productionsOf :=
    ((List.range vocabulary.names.size).map vocabulary.productionsOf).toArray
  let nullable := nullableOf vocabulary
  { vocabulary, productionsOf, nullable, first := firstSets vocabulary productionsOf nullable }

/-- Whether a symbol has productions. -/
def isNonterminal (analysis : Analysis) (id : Nat) : Bool :=
  !(analysis.productionsOf.getD id []).isEmpty

/-- The terminals that can begin a sequence with something of `tail` behind it. -/
def firstOfSequence (analysis : Analysis) (sequence : List Nat) (tail : IdSet) : IdSet :=
  firstOf analysis.nullable analysis.first tail sequence

/-- The symbols of a production's right side from the dot on. -/
def fromDot (analysis : Analysis) (production dot : Nat) : List Nat :=
  match analysis.vocabulary.productions[production]? with
  | some production => production.right.drop dot
  | none => []

end Analysis
end ShiftReduce
