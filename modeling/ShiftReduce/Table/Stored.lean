import ShiftReduce.Error
import ShiftReduce.Table.Basic

/-!
Tables that can be written down.

A stored table holds what a table holds, without the conflicts, and the names of the tokens that are
skipped. Callbacks exist only while a program runs, so a table that has one cannot be stored. What
was stored may have been changed since, so restoring checks every state and rule it refers to.
-/

namespace ShiftReduce

/-- The effects of reductions that can be stored. -/
inductive StoredEmit where
  | none
  | report
  | repetition (collector : String) (max group : Nat)
  | choice (collector : String)
  | merge (inner : StoredEmit)
deriving DecidableEq, Repr, Inhabited

/-- A stored production. -/
structure StoredRule where
  nonterminal : String
  symbols : List String
  emit : StoredEmit
  label : Option String
  helper : Bool
deriving DecidableEq, Repr, Inhabited

/-- A stored state. -/
structure StoredState where
  rules : List StoredRule
  reduce : NameMap
  shift : NameMap
deriving DecidableEq, Repr, Inhabited

/-- A stored table with the names of the tokens that are skipped. -/
structure StoredTable where
  root : String
  skip : List String
  states : List StoredState
deriving DecidableEq, Repr, Inhabited

namespace StoredEmit

/-- The stored form of an effect of the rule `rule`. -/
def ofEmit (rule : String) : Emit -> Except TableError StoredEmit
  | .none => .ok .none
  | .report => .ok .report
  | .callback _ => .error (.callback rule)
  | .repetition collector max group => .ok (.repetition collector max group)
  | .choice collector => .ok (.choice collector)
  | .merge inner => do
    let inner ← ofEmit rule inner
    return .merge inner

/-- The effect of a stored form. -/
def toEmit : StoredEmit -> Emit
  | .none => .none
  | .report => .report
  | .repetition collector max group => .repetition collector max group
  | .choice collector => .choice collector
  | .merge inner => .merge inner.toEmit

end StoredEmit

namespace StoredRule

/-- The stored form of a rule. -/
def ofRule (rule : ReduceRule) : Except TableError StoredRule := do
  let emit ← StoredEmit.ofEmit rule.nonterminal rule.emit
  return ⟨rule.nonterminal, rule.symbols, emit, rule.label, rule.helper⟩

/-- The rule of a stored form. -/
def toRule (rule : StoredRule) : ReduceRule :=
  ⟨rule.nonterminal, rule.symbols, rule.emit.toEmit, rule.label, rule.helper⟩

end StoredRule

namespace StoredState

/-- The stored form of a state. -/
def ofState (state : TableState) : Except TableError StoredState := do
  let rules ← state.rules.toList.mapM StoredRule.ofRule
  return ⟨rules, state.reduce, state.shift⟩

/-- The state of a stored form. -/
def toState (state : StoredState) : TableState :=
  ⟨(state.rules.map StoredRule.toRule).toArray, state.reduce, state.shift⟩

/-- The first thing that the state numbered `index` refers to and that is not there, in a table
with `count` states. -/
def fault? (count index : Nat) (state : StoredState) : Option TableFault :=
  match state.shift.find? fun (_, target) => count ≤ target with
  | some (name, target) => some (.shiftTarget index name target count)
  | none =>
    match state.reduce.find? fun (_, rule) => state.rules.length ≤ rule with
    | some (name, rule) => some (.reduceRule index name rule state.rules.length)
    | none => none

/-- The first fault of several states, the first of which is numbered `index`. -/
def faultOfEach? (count : Nat) : Nat -> List StoredState -> Option TableFault
  | _, [] => none
  | index, state :: rest => (state.fault? count index).or (faultOfEach? count (index + 1) rest)

end StoredState

namespace Table

/-- The stored form of a table. -/
def store (table : Table) (skip : List String) : Except TableError StoredTable := do
  let states ← table.states.toList.mapM StoredState.ofState
  return ⟨table.root, skip, states⟩

end Table

namespace StoredTable

/-- Whether some state has a rule for the root. -/
def reducesRoot (stored : StoredTable) : Bool :=
  stored.states.any fun state => state.rules.any fun rule => rule.nonterminal == stored.root

/-- What makes a stored table unusable, if anything does. -/
def fault? (stored : StoredTable) : Option TableFault :=
  if stored.states.isEmpty then some .noStates
  else
    (StoredState.faultOfEach? stored.states.length 0 stored.states).or
      (if stored.reducesRoot then none else some (.rootNeverReduced stored.root))

/-- The table of a stored form. -/
def restore (stored : StoredTable) : Except TableError Table :=
  match stored.fault? with
  | some fault => .error (.corrupt fault)
  | none => .ok ⟨(stored.states.map StoredState.toState).toArray, stored.root, []⟩

end StoredTable
end ShiftReduce
