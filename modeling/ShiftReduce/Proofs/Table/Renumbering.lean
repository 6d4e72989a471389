import ShiftReduce.Proofs.Automaton.Renumbering
import ShiftReduce.Proofs.Table.Compaction

namespace ShiftReduce

/-!
# Tables of renumbered grammars

The productions that are complete on a lookahead in corresponding states correspond, and so do the
states that symbols lead to.  A table is made of nothing else, so there are tables for both grammars
or for neither.  Corresponding rows shift and reduce the same things under other names, and equally
many reductions are given up for shifts.

What a run needs of two such tables is collected in a notion of its own, which does not mention
grammars.
-/

/-- The rule under other names. -/
def ReduceRule.rename (name : String -> String) (rule : ReduceRule) : ReduceRule :=
  ⟨name rule.nonterminal, rule.symbols.map name, rule.emit.rename name, rule.label, rule.helper⟩

/-- The second row does the same as the first under other names, and leads to corresponding
states. -/
structure TableState.Corresponds (name : String -> String) (states : Nat -> Nat -> Prop)
    (row other : TableState) : Prop where
  shifts : forall symbol target, row.shift.get? symbol = some target -> Exists fun following =>
    states target following ∧ other.shift.get? (name symbol) = some following
  refuses : forall symbol, row.shift.get? symbol = none -> other.shift.get? (name symbol) = none
  reduces : forall lookahead place, row.reduce.get? lookahead = some place ->
    Exists fun rule => Exists fun counterpart => row.rules[place]? = some rule ∧
      other.reduce.get? (name lookahead) = some counterpart ∧
      other.rules[counterpart]? = some (rule.rename name)
  keeps : forall lookahead, row.reduce.get? lookahead = none ->
    other.reduce.get? (name lookahead) = none

/-- The second table does the same as the first under other names and in other states. -/
structure Table.Corresponds (name : String -> String) (states : Nat -> Nat -> Prop)
    (table other : Table) : Prop where
  root : other.root = name table.root
  start : states 0 0
  rows : forall first second, states first second -> Exists fun row => Exists fun counterpart =>
    table.states[first]? = some row ∧ other.states[second]? = some counterpart ∧
      row.Corresponds name states counterpart

namespace PlainGrammar

open Analysis Construction Automaton

namespace Counterpart

theorem reduceRule {name : String -> String} {pair other : PlainRule × PlainProduction}
    (counterpart : Counterpart name pair other) :
    PlainGrammar.reduceRule other = (PlainGrammar.reduceRule pair).rename name := by
  unfold PlainGrammar.reduceRule ReduceRule.rename
  rw [counterpart.owner, counterpart.helper, counterpart.production]
  rfl

end Counterpart

namespace Renumbering

variable {left right : PlainGrammar} {renumbering : Renumbering left right} {first second : Nat}

private theorem Pairs.completes_of_left (pairs : renumbering.Pairs first second) {production : Nat}
    {lookahead : String} (completes : left.Completes first production lookahead) :
    right.Completes second (renumbering.production production) (renumbering.name lookahead) := by
  rcases completes with ⟨pair, known, has⟩
  rcases renumbering.counterpart production pair known with ⟨other, there, counterpart⟩
  refine ⟨other, there, ?_⟩
  rw [symbols_of_counterpart counterpart, List.length_map]
  exact pairs.hasLookahead.mpr has

theorem Pairs.completes (pairs : renumbering.Pairs first second) {production : Nat}
    {lookahead : String} :
    right.Completes second (renumbering.production production) (renumbering.name lookahead) ↔
      left.Completes first production lookahead := by
  refine ⟨fun completes => ?_, pairs.completes_of_left⟩
  have back := pairs.symm.completes_of_left completes
  rwa [symm_name_name, symm_production_production] at back

private theorem clashes_of_left (renumbering : Renumbering left right) (clashes : left.Clashes) :
    right.Clashes := by
  rcases clashes with ⟨index, lookahead, one, other, different, completes, also⟩
  have inside : index < (finished left).states.size := by
    rcases completes with ⟨_, _, has⟩
    exact (hasLookahead_iff_carries index _ lookahead).mp has |>.1
  rcases renumbering.pairs_exists inside with ⟨second, pairs⟩
  exact ⟨second, _, _, _, fun same => different (renumbering.production.injective same),
    pairs.completes.mpr completes, pairs.completes.mpr also⟩

theorem clashes_iff (renumbering : Renumbering left right) : right.Clashes ↔ left.Clashes :=
  ⟨renumbering.symm.clashes_of_left, renumbering.clashes_of_left⟩

/-- There are tables for both grammars or for neither. -/
theorem toTable_ok (renumbering : Renumbering left right) {table : Table}
    (made : (Automaton.ofGrammar left).toTable = .ok table) :
    Exists fun other => (Automaton.ofGrammar right).toTable = .ok other := by
  cases result : (Automaton.ofGrammar right).toTable with
  | ok other => exact ⟨other, rfl⟩
  | error error =>
      rcases clash_of_toTable result with ⟨index, lookahead, one, other, different, at_, also, _⟩
      have clashes := renumbering.clashes_iff.mp ⟨index, lookahead, one, other, different, at_, also⟩
      exact (not_clashes_of_toTable made clashes).elim

/-! ## Rows -/

section Rows

variable {row other : TableState}

private theorem shifts_of_left (pairs : renumbering.Pairs first second)
    (compacts : left.Compacts first row) (otherCompacts : right.Compacts second other)
    {symbol : String} {target : Nat} (shifted : row.shift.get? symbol = some target) :
    Exists fun following => renumbering.Pairs target following ∧
      other.shift.get? (renumbering.name symbol) = some following := by
  rcases pairs.leadsTo ((compacts.shift symbol target).mp shifted) with ⟨following, after, leads⟩
  exact ⟨following, after, (otherCompacts.shift _ _).mpr leads⟩

private theorem refuses_of_left (pairs : renumbering.Pairs first second)
    (compacts : left.Compacts first row) (otherCompacts : right.Compacts second other)
    {symbol : String} (refused : row.shift.get? symbol = none) :
    other.shift.get? (renumbering.name symbol) = none := by
  rw [Option.eq_none_iff_forall_ne_some]
  intro following shifted
  rcases shifts_of_left pairs.symm otherCompacts compacts shifted with ⟨target, _, back⟩
  rw [symm_name_name, refused] at back
  cases back

private theorem reduces_of_left (pairs : renumbering.Pairs first second)
    (compacts : left.Compacts first row) (otherCompacts : right.Compacts second other)
    {lookahead : String} {place : Nat} (reduced : row.reduce.get? lookahead = some place) :
    Exists fun rule => Exists fun counterpart => row.rules[place]? = some rule ∧
      other.reduce.get? (renumbering.name lookahead) = some counterpart ∧
      other.rules[counterpart]? = some (rule.rename renumbering.name) := by
  rcases (compacts.reduce lookahead place).mp reduced with ⟨refused, production, atPlace, completes⟩
  have there := pairs.completes.mpr completes
  rcases List.getElem?_of_mem there.listed with ⟨counterpart, atCounterpart⟩
  rcases completes with ⟨pair, known, _⟩
  rcases renumbering.counterpart production pair known with ⟨found, foundKnown, same⟩
  refine ⟨reduceRule pair, counterpart, compacts.ruleAt atPlace known, ?_, ?_⟩
  · exact (otherCompacts.reduce _ _).mpr
      ⟨refuses_of_left pairs compacts otherCompacts refused, _, atCounterpart, there⟩
  · rw [← same.reduceRule]
    exact otherCompacts.ruleAt atCounterpart foundKnown

private theorem keeps_of_left (pairs : renumbering.Pairs first second)
    (compacts : left.Compacts first row) (otherCompacts : right.Compacts second other)
    {lookahead : String} (kept : row.reduce.get? lookahead = none) :
    other.reduce.get? (renumbering.name lookahead) = none := by
  rw [Option.eq_none_iff_forall_ne_some]
  intro place reduced
  rcases reduces_of_left pairs.symm otherCompacts compacts reduced with ⟨_, back, _, there, _⟩
  rw [symm_name_name, kept] at there
  cases there

end Rows

theorem corresponds_toTable (renumbering : Renumbering left right) {table other : Table}
    (made : (Automaton.ofGrammar left).toTable = .ok table)
    (otherMade : (Automaton.ofGrammar right).toTable = .ok other) :
    table.Corresponds renumbering.name renumbering.Pairs other := by
  rcases compacts_toTable made with ⟨size, compacts⟩
  rcases compacts_toTable otherMade with ⟨otherSize, otherCompacts⟩
  refine ⟨?_, renumbering.pairs_start, ?_⟩
  · rw [root_of_toTable left made, root_of_toTable right otherMade, renumbering.root]
  · intro first second pairs
    have source := pairs.source
    have target := pairs.target
    change first < (Automaton.ofGrammar left).states.size at source
    change second < (Automaton.ofGrammar right).states.size at target
    rw [← size] at source
    rw [← otherSize] at target
    have found := Array.getElem?_eq_getElem source
    have otherFound := Array.getElem?_eq_getElem target
    have here := compacts first _ found
    have there := otherCompacts second _ otherFound
    exact ⟨_, _, found, otherFound, fun _ _ => shifts_of_left pairs here there,
      fun _ => refuses_of_left pairs here there, fun _ _ => reduces_of_left pairs here there,
      fun _ => keeps_of_left pairs here there⟩

/-! ## Resolved conflicts -/

private theorem conflicts_le (renumbering : Renumbering left right) {table other : Table}
    (made : (Automaton.ofGrammar left).toTable = .ok table)
    (otherMade : (Automaton.ofGrammar right).toTable = .ok other) :
    table.conflicts.length ≤ other.conflicts.length := by
  rcases conflicts_toTable made with ⟨ordered, members⟩
  rcases conflicts_toTable otherMade with ⟨_, otherMembers⟩
  -- Conflicts in the same cell are the same, since they are ordered by their cells.
  have distinct : (table.conflicts.map fun conflict =>
      (conflict.state, conflict.lookahead)).Nodup := by
    refine List.pairwise_map.mpr (ordered.imp ?_)
    rintro first second (earlier | ⟨_, earlier⟩) same
    · exact absurd (Prod.ext_iff.mp same).1 (Nat.ne_of_lt earlier)
    · have alike : first.lookahead = second.lookahead := (Prod.ext_iff.mp same).2
      exact String.lt_irrefl _ (alike ▸ earlier)
  rw [← List.length_map (fun conflict : ResolvedConflict => (conflict.state, conflict.lookahead)),
    ← List.length_map (fun conflict : ResolvedConflict => (conflict.state, conflict.lookahead))]
  refine length_le_of_pairs (fun cell other : Nat × String =>
    renumbering.Pairs cell.1 other.1 ∧ other.2 = renumbering.name cell.2) distinct ?_ ?_
  · intro cell member
    rcases List.mem_map.mp member with ⟨conflict, listed, rfl⟩
    rcases (members conflict).mp listed with ⟨target, production, pair, leads, completes, known, _⟩
    have inside : conflict.state < (finished left).states.size := by
      rcases completes with ⟨_, _, has⟩
      exact ((hasLookahead_iff_carries conflict.state _ conflict.lookahead).mp has).1
    rcases renumbering.pairs_exists inside with ⟨second, pairs⟩
    rcases pairs.leadsTo leads with ⟨following, _, there⟩
    rcases renumbering.counterpart production pair known with ⟨found, foundKnown, _⟩
    have drops : right.Drops ⟨second, renumbering.name conflict.lookahead,
        (reduceRule found).display⟩ :=
      ⟨following, _, found, there, pairs.completes.mpr completes, foundKnown, rfl⟩
    exact ⟨_, List.mem_map.mpr ⟨_, (otherMembers _).mpr drops, rfl⟩, pairs, rfl⟩
  · rintro ⟨state, lookahead⟩ ⟨same, alike⟩ other ⟨pairs, name⟩ ⟨also, again⟩
    exact Prod.ext (pairs.source_unique also)
      (renumbering.name.injective (name.symm.trans again))

/-- Equally many reductions are given up. -/
theorem conflicts_eq (renumbering : Renumbering left right) {table other : Table}
    (made : (Automaton.ofGrammar left).toTable = .ok table)
    (otherMade : (Automaton.ofGrammar right).toTable = .ok other) :
    table.conflicts.length = other.conflicts.length :=
  le_antisymm (renumbering.conflicts_le made otherMade)
    (renumbering.symm.conflicts_le otherMade made)

end Renumbering

end PlainGrammar

end ShiftReduce
