import ShiftReduce.Automaton.Build
import ShiftReduce.Table.Basic

/-!
Tables of automata.

In each state, a completed production is reduced on its lookaheads and every transition is a shift.
Two productions that complete on the same lookahead are a conflict that no table resolves. A name
that can be shifted is shifted, and a reduction on it is dropped and recorded.
-/

namespace ShiftReduce
namespace Automaton

/-- The row of a state while its items are read: the completed productions, and for each lookahead
the number of the production that claims it, with its place among them. -/
structure Row where
  rules : Array ReduceRule
  claims : List (Nat × Nat × Nat)
deriving Repr

/-- The rule of a production. -/
def reduceRule (automaton : Automaton) (production : NumberedProduction) : ReduceRule :=
  let rule := automaton.grammar.rules.getD production.rule default
  { nonterminal := rule.name
    symbols := production.source.symbols
    emit := production.source.emit
    label := production.source.label
    helper := rule.helper }

/-- Lets the production numbered `index`, at `place` among the rules of its row, claim lookaheads.
A lookahead that another production has claimed is a conflict between the two. -/
def claim (automaton : Automaton) (index place : Nat) :
    List Nat -> List (Nat × Nat × Nat) -> Except GrammarError (List (Nat × Nat × Nat))
  | [], claims => .ok claims
  | lookahead :: rest, claims =>
    match claims.lookup lookahead with
    | some (other, _) =>
      if other = index then claim automaton index place rest claims
      else
        .error (.reduceConflict (automaton.analysis.vocabulary.name lookahead)
          (automaton.analysis.vocabulary.describe other)
          (automaton.analysis.vocabulary.describe index))
    | none => claim automaton index place rest ((lookahead, index, place) :: claims)

/-- Adds the completed productions among `items` to a row. -/
def addCompleted (automaton : Automaton) : ItemSet -> Row -> Except GrammarError Row
  | [], row => .ok row
  | (core, lookaheads) :: rest, row =>
    match automaton.analysis.isComplete core,
        automaton.analysis.vocabulary.productions[core.production]? with
    | true, some production => do
      let claims ← automaton.claim core.production row.rules.size lookaheads row.claims
      automaton.addCompleted rest ⟨row.rules.push (automaton.reduceRule production), claims⟩
    | _, _ => automaton.addCompleted rest row

/-- The shifts of a state, by name. -/
def shifts (automaton : Automaton) (state : State) : NameMap :=
  NameMap.ofList (state.transitions.map fun (symbol, target) =>
    (automaton.analysis.vocabulary.name symbol, target))

/-- The reductions of a row, by the name of the lookahead. -/
def reductions (automaton : Automaton) (row : Row) : NameMap :=
  NameMap.ofList (row.claims.map fun (lookahead, _, place) =>
    (automaton.analysis.vocabulary.name lookahead, place))

/-- The record of a dropped reduction. -/
def dropped (index : Nat) (rules : Array ReduceRule) (lookahead : String) (place : Nat) :
    ResolvedConflict :=
  ⟨index, lookahead, (rules.getD place default).display⟩

/-- The row of the state numbered `index`, and the conflicts resolved in it. -/
def row (automaton : Automaton) (index : Nat) (state : State) :
    Except GrammarError (TableState × List ResolvedConflict) := do
  let row ← automaton.addCompleted (automaton.items state) ⟨#[], []⟩
  let shift := automaton.shifts state
  let reduce := automaton.reductions row
  let (lost, kept) := reduce.partition fun (lookahead, _) => shift.contains lookahead
  return (⟨row.rules, kept, shift⟩,
    lost.map fun (lookahead, place) => dropped index row.rules lookahead place)

/-- The rows of states, the first of them numbered `index`, and all resolved conflicts. -/
def rows (automaton : Automaton) :
    Nat -> List State -> Except GrammarError (List TableState × List ResolvedConflict)
  | _, [] => .ok ([], [])
  | index, state :: rest => do
    let (row, conflicts) ← automaton.row index state
    let (rows, more) ← automaton.rows (index + 1) rest
    return (row :: rows, conflicts ++ more)

/-- The table of an automaton. -/
def toTable (automaton : Automaton) : Except GrammarError Table := do
  let (rows, conflicts) ← automaton.rows 0 automaton.states.toList
  return ⟨rows.toArray, automaton.grammar.root, conflicts⟩

end Automaton

namespace Grammar

/-- The table of a grammar. -/
def compile (grammar : Grammar) : Except GrammarError Table := do
  let plain ← grammar.toPlain
  (Automaton.ofGrammar plain).toTable

end Grammar
end ShiftReduce
