import ShiftReduce.Grammar.Plain
import ShiftReduce.NameMap

/-!
The tables that parses are driven by.

A table has a row for each state: the state that each token or rule name leads to, and the rule that
is reduced on each lookahead. The empty name stands for the end of the input. A parse starts in
state zero.
-/

namespace ShiftReduce

/-- A production as a parse sees it. -/
structure ReduceRule where
  nonterminal : String
  symbols : List String
  emit : Emit
  label : Option String
  helper : Bool
deriving DecidableEq, Repr, Inhabited

namespace ReduceRule

/-- The name that reductions of the rule are reported under. -/
def reportedAs (rule : ReduceRule) : String :=
  rule.label.getD rule.nonterminal

/-- A rule in words. -/
def display (rule : ReduceRule) : String :=
  rule.nonterminal ++ " ->" ++
    if rule.symbols.isEmpty then " (empty)"
    else String.join (rule.symbols.map (" " ++ ·))

end ReduceRule

/-- What a parse can do in a state. -/
structure TableState where
  rules : Array ReduceRule
  /-- The rule to reduce on a lookahead, by its place among `rules`. -/
  reduce : NameMap
  /-- The state that a name leads to. -/
  shift : NameMap
deriving DecidableEq, Repr, Inhabited

namespace TableState

/-- Whether the state can do anything with a token of that name. -/
def accepts (state : TableState) (name : String) : Bool :=
  state.shift.contains name || state.reduce.contains name

end TableState

/-- A cell that could be shifted or reduced, and is shifted. -/
structure ResolvedConflict where
  state : Nat
  lookahead : String
  /-- The production whose reduction was dropped, in words. -/
  dropped : String
deriving DecidableEq, Repr, Inhabited

/-- A table with the conflicts that were resolved to make it. -/
structure Table where
  states : Array TableState
  root : String
  conflicts : List ResolvedConflict
deriving DecidableEq, Repr, Inhabited

end ShiftReduce
