import ShiftReduce.Lexer.Source
import ShiftReduce.Table.Basic

/-!
What helper rules gather, and what a reduction reports.

A helper rule that is reduced leaves a collection of the tokens that its operator has matched so
far. Growing a repetition adds to the latest collection of its name; reducing the production that
the operator was written in takes the collection away and puts its tokens in the place of the
helper. A rule can be inside itself, so there can be several collections of one name, and the
latest is always the one that belongs to the reduction at hand.
-/

namespace ShiftReduce

/-- Who a reduction is reported to. -/
inductive Recipient where
  /-- Whoever runs the parse. -/
  | parse
  /-- The callback with this identity. -/
  | callback (identity : Nat)
deriving DecidableEq, Repr

/-- A report: its label and the children of the production. -/
structure Call where
  recipient : Recipient
  label : String
  tokens : List Token
deriving DecidableEq, Repr

/-- How a run ends that does not accept. -/
inductive Halt where
  /-- The input or the table does not allow to go on. -/
  | failed (error : ParseError)
  /-- The table asks for something that it does not have: a state, a rule, or a child of a
  reduction. -/
  | outOfRange
  /-- The source breaks off, as its union of patterns is claimed by none of them. -/
  | unclaimed
deriving DecidableEq, Repr

/-- What a helper rule has gathered: the tokens, and how many groups they make up. -/
structure Collection where
  tokens : List Token
  groups : Nat
deriving DecidableEq, Repr, Inhabited

/-- The collections that wait for their production, under the names of the helper rules, latest
first. -/
abbrev Collections := List (String × Collection)

namespace Collections

/-- The latest collection of a name. -/
def top? (collections : Collections) (name : String) : Option Collection :=
  collections.lookup name

/-- Takes the latest collection of a name away. -/
def drop (name : String) : Collections -> Collections
  | [] => []
  | (head, collection) :: rest =>
    if head = name then rest else (head, collection) :: drop name rest

/-- Puts a collection in the place of the latest one of its name. -/
def replace (name : String) (collection : Collection) : Collections -> Collections
  | [] => []
  | (head, known) :: rest =>
    if head = name then (head, collection) :: rest else (head, known) :: replace name collection rest

/-- The rule that an operator was written in: the part of a helper's name before its first mark. -/
def ownerOf (collector : String) : String :=
  String.ofList (collector.toList.takeWhile (· ≠ '#'))

/-- Puts the tokens of its collection in the place of each helper among `children`. The rule that is
being reduced keeps its own name, because its collection goes on growing. -/
def splice (reducing : String) : List Token -> Collections -> List Token × Collections
  | [], collections => ([], collections)
  | child :: rest, collections =>
    match if child.isSynthetic ∧ child.name ≠ reducing then collections.top? child.name else none with
    | some collection =>
      let (others, collections) := splice reducing rest (collections.drop child.name)
      (collection.tokens ++ others, collections)
    | none =>
      let (others, collections) := splice reducing rest collections
      (child :: others, collections)

/-- Gathers the children of a repetition. Where the first of the popped tokens is the repetition
itself, the others extend what it has gathered before; otherwise a new collection begins. -/
def gather (collector : String) (max group : Nat) (popped children : List Token)
    (collections : Collections) : Except Halt Collections :=
  let recursive :=
    match popped with
    | first :: _ => first.isSynthetic && first.name == collector
    | [] => false
  let size := if group = 0 then 1 else group
  if !recursive then
    .ok ((collector, ⟨children, popped.length / size⟩) :: collections)
  else
    match collections.top? collector with
    | none =>
      .error (.failed (.internal ("a collection for `" ++ collector ++ "`") "none"))
    | some known =>
      let groups := known.groups + (popped.length - 1) / size
      match children with
      | [] => .error .outOfRange
      | first :: added =>
        if 0 < max ∧ max < groups then
          .error (.failed (.tooMany (ownerOf collector) max (added.headD first)))
        else .ok (collections.replace collector ⟨known.tokens ++ added, groups⟩)

end Collections

namespace ReduceRule

/-- What the effect `emit` does on a reduction of the rule: the collections afterwards, and the
report if there is one. `popped` are the tokens taken from the stack, and `children` what they
have become by merging. -/
def effect (rule : ReduceRule) (popped : List Token) :
    Emit -> List Token -> Collections -> Except Halt (Collections × Option Call)
  | .none, _, collections => .ok (collections, none)
  | .report, children, collections =>
    .ok (collections, some ⟨.parse, rule.reportedAs, children⟩)
  | .callback identity, children, collections =>
    .ok (collections, some ⟨.callback identity, rule.reportedAs, children⟩)
  | .repetition collector max group, children, collections => do
    let collections ← collections.gather collector max group popped children
    return (collections, none)
  | .choice collector, children, collections =>
    .ok ((collector, ⟨children, 1⟩) :: collections, none)
  | .merge inner, children, collections =>
    let (merged, collections) := collections.splice rule.nonterminal children
    rule.effect popped inner merged collections

/-- What a reduction of the rule does. -/
def reduce (rule : ReduceRule) (popped : List Token) (collections : Collections) :
    Except Halt (Collections × Option Call) :=
  rule.effect popped rule.emit popped collections

end ReduceRule
end ShiftReduce
