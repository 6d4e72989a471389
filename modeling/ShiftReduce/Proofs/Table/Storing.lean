import ShiftReduce.Proofs.Fallible
import ShiftReduce.Proofs.Table.Intact
import ShiftReduce.Table.Stored

namespace ShiftReduce

/-!
# Storing and restoring tables

What was stored is taken back piece by piece: an effect, a rule and a state are what their stored
forms stand for.  The only thing that cannot be stored is a callback, and merges do not hide it.

A stored table stands for a table without conflicts.  Restoring gives this table exactly if it is
intact and some row has a rule for its root, so a table that the compiler made is refused for one
reason only, which is a root without productions.
-/

/-! ## Stored forms -/

/-- The effect is a callback below any number of merges. -/
def Emit.CallsBack (emit : Emit) : Prop :=
  Exists fun identity => emit.innermost = .callback identity

/-- Some rule of some row calls back. -/
def Table.CallsBack (table : Table) : Prop :=
  Exists fun row => row ∈ table.states ∧
    Exists fun rule => rule ∈ row.rules ∧ rule.emit.CallsBack

/-- Storing an effect can fail only because of a callback, and then does. -/
theorem StoredEmit.ofEmit_spec (rule : String) (emit : Emit) :
    (emit.CallsBack ∧ ofEmit rule emit = .error (.callback rule)) ∨
      (¬ emit.CallsBack ∧ Exists fun stored => ofEmit rule emit = .ok stored ∧
        stored.toEmit = emit) := by
  have silent : forall effect : Emit, (forall identity, effect ≠ .callback identity) ->
      effect.innermost = effect -> ¬ effect.CallsBack := by
    rintro effect different own ⟨identity, calls⟩
    exact different identity (own.symm.trans calls)
  induction emit with
  | callback identity => exact Or.inl ⟨⟨identity, rfl⟩, rfl⟩
  | none => exact Or.inr ⟨silent _ (fun _ => Emit.noConfusion) rfl, .none, rfl, rfl⟩
  | report => exact Or.inr ⟨silent _ (fun _ => Emit.noConfusion) rfl, .report, rfl, rfl⟩
  | repetition collector max group =>
      exact Or.inr ⟨silent _ (fun _ => Emit.noConfusion) rfl, .repetition collector max group, rfl,
        rfl⟩
  | choice collector =>
      exact Or.inr ⟨silent _ (fun _ => Emit.noConfusion) rfl, .choice collector, rfl, rfl⟩
  | merge inner inductionHypothesis =>
      rcases inductionHypothesis with ⟨callsBack, failed⟩ | ⟨silent, stored, made, same⟩
      · exact Or.inl ⟨callsBack, by rw [ofEmit, failed]; rfl⟩
      · exact Or.inr ⟨silent, .merge stored, by rw [ofEmit, made]; rfl, by rw [toEmit, same]⟩

/-- Storing a rule can fail only because of a callback, and then does. -/
theorem StoredRule.ofRule_spec (rule : ReduceRule) :
    (rule.emit.CallsBack ∧ ofRule rule = .error (.callback rule.nonterminal)) ∨
      (¬ rule.emit.CallsBack ∧ Exists fun stored => ofRule rule = .ok stored ∧
        stored.toRule = rule) := by
  rcases StoredEmit.ofEmit_spec rule.nonterminal rule.emit with
    ⟨callsBack, failed⟩ | ⟨silent, emit, made, same⟩
  · exact Or.inl ⟨callsBack, by rw [ofRule, failed]; rfl⟩
  · refine Or.inr ⟨silent, ⟨_, _, emit, _, _⟩, by rw [ofRule, made]; rfl, ?_⟩
    rw [toRule, same]

theorem StoredRule.toRule_of_ofRule {rule : ReduceRule} {stored : StoredRule}
    (made : ofRule rule = .ok stored) : stored.toRule = rule := by
  rcases ofRule_spec rule with ⟨_, failed⟩ | ⟨_, other, same, undone⟩
  · rw [failed] at made
    cases made
  · rwa [Except.ok.inj (made.symm.trans same)]

theorem StoredState.toState_of_ofState {state : TableState} {stored : StoredState}
    (made : ofState state = .ok stored) : stored.toState = state := by
  rcases of_bind_eq_ok made with ⟨rules, each, same⟩
  cases same
  rw [toState, map_of_mapM (fun _ _ => StoredRule.toRule_of_ofRule) each]

namespace Table

/-! ## Storing -/

private theorem rule_of_error {state : TableState} {error : TableError}
    (failed : StoredState.ofState state = .error error) :
    Exists fun rule => rule ∈ state.rules ∧ rule.emit.CallsBack ∧
      error = .callback rule.nonterminal := by
  rcases of_bind_eq_error failed with failed | ⟨_, _, impossible⟩
  · rcases mapM_eq_error failed with ⟨rule, listed, ruleFailed⟩
    refine ⟨rule, Array.mem_toList_iff.mp listed, ?_⟩
    rcases StoredRule.ofRule_spec rule with ⟨callsBack, expected⟩ | ⟨_, stored, made, _⟩
    · exact ⟨callsBack, Except.error.inj (ruleFailed.symm.trans expected)⟩
    · rw [ruleFailed] at made
      cases made
  · cases impossible

/-- A table that cannot be stored has a rule with a callback, and the failure names such a rule. -/
theorem rule_of_store_error {table : Table} {names : List String} {error : TableError}
    (failed : table.store names = .error error) :
    Exists fun row => row ∈ table.states ∧ Exists fun rule => rule ∈ row.rules ∧
      rule.emit.CallsBack ∧ error = .callback rule.nonterminal := by
  rcases of_bind_eq_error failed with failed | ⟨_, _, impossible⟩
  · rcases mapM_eq_error failed with ⟨row, listed, rowFailed⟩
    exact ⟨row, Array.mem_toList_iff.mp listed, rule_of_error rowFailed⟩
  · cases impossible

/-- A table with a callback cannot be stored. -/
theorem store_of_callsBack {table : Table} (callsBack : table.CallsBack) (names : List String)
    (stored : StoredTable) : table.store names ≠ .ok stored := by
  intro made
  rcases callsBack with ⟨row, rowListed, rule, ruleListed, ruleCalls⟩
  rcases of_bind_eq_ok made with ⟨states, each, _⟩
  rcases ok_of_mapM each (Array.mem_toList_iff.mpr rowListed) with ⟨state, stateMade⟩
  rcases of_bind_eq_ok stateMade with ⟨rules, eachRule, _⟩
  rcases ok_of_mapM eachRule (Array.mem_toList_iff.mpr ruleListed) with ⟨storedRule, ruleMade⟩
  rcases StoredRule.ofRule_spec rule with ⟨_, failed⟩ | ⟨silent, _⟩
  · rw [failed] at ruleMade
    cases ruleMade
  · exact silent ruleCalls

/-- Storing fails exactly for tables with a callback, and says so. -/
theorem store_fails_iff (table : Table) (names : List String) :
    (Exists fun rule => table.store names = .error (.callback rule)) ↔ table.CallsBack := by
  constructor
  · rintro ⟨rule, failed⟩
    rcases rule_of_store_error failed with ⟨row, rowListed, rule, ruleListed, callsBack, _⟩
    exact ⟨row, rowListed, rule, ruleListed, callsBack⟩
  · intro callsBack
    cases result : table.store names with
    | ok stored => exact (store_of_callsBack callsBack names stored result).elim
    | error error =>
        rcases rule_of_store_error result with ⟨_, _, rule, _, _, rfl⟩
        exact ⟨rule.nonterminal, rfl⟩

end Table

namespace StoredTable

/-- The table that a stored table stands for, whether or not it can be used. -/
def table (stored : StoredTable) : Table :=
  ⟨(stored.states.map StoredState.toState).toArray, stored.root, []⟩

/-- A stored table stands for the table that was stored, without its conflicts. -/
theorem of_store {table : Table} {names : List String} {stored : StoredTable}
    (made : table.store names = .ok stored) :
    stored.table = { table with conflicts := [] } ∧ stored.skip = names := by
  rcases of_bind_eq_ok made with ⟨states, each, same⟩
  cases same
  refine ⟨?_, rfl⟩
  rw [StoredTable.table, map_of_mapM (fun _ _ => StoredState.toState_of_ofState) each]

/-! ## Restoring -/

private theorem find?_eq_none_iff {bound : Nat} {map : NameMap} :
    (map.find? fun (_, value) => bound ≤ value) = none ↔
      forall name value, (name, value) ∈ map -> value < bound := by
  simp [List.find?_eq_none]

private theorem faultOfState_eq_none_iff {count index : Nat} {state : StoredState} :
    state.fault? count index = none ↔ state.toState.Intact count := by
  have size : state.toState.rules.size = state.rules.length := by simp [StoredState.toState]
  unfold StoredState.fault?
  constructor
  · intro none
    split at none
    · cases none
    next shifts =>
      split at none
      · cases none
      next reductions =>
        refine ⟨find?_eq_none_iff.mp shifts, ?_⟩
        rw [size]
        exact find?_eq_none_iff.mp reductions
  · rintro ⟨shifts, reductions⟩
    rw [size] at reductions
    have noShift := find?_eq_none_iff.mpr shifts
    have noReduction := find?_eq_none_iff.mpr reductions
    change state.shift.find? _ = none at noShift
    change state.reduce.find? _ = none at noReduction
    simp only [noShift, noReduction]

private theorem faultOfEach?_eq_none_iff {count index : Nat} {states : List StoredState} :
    StoredState.faultOfEach? count index states = none ↔
      forall state, state ∈ states -> state.toState.Intact count := by
  induction states generalizing index with
  | nil => simp [StoredState.faultOfEach?]
  | cons state rest inductionHypothesis =>
      rw [StoredState.faultOfEach?, Option.or_eq_none_iff, faultOfState_eq_none_iff, inductionHypothesis,
        List.forall_mem_cons]

private theorem reducesRoot_iff {stored : StoredTable} :
    stored.reducesRoot = true ↔ stored.table.ReducesRoot := by
  simp [reducesRoot, Table.ReducesRoot, table, StoredState.toState, StoredRule.toRule]

/-- A stored table has no fault exactly if the table it stands for is intact and has a rule for its
root. -/
theorem fault?_eq_none_iff {stored : StoredTable} :
    stored.fault? = none ↔ stored.table.Intact ∧ stored.table.ReducesRoot := by
  have size : stored.table.states.size = stored.states.length := by simp [table]
  have rows : (forall row, row ∈ stored.table.states -> row.Intact stored.states.length) ↔
      forall state, state ∈ stored.states -> state.toState.Intact stored.states.length := by
    simp [table]
  rw [← reducesRoot_iff]
  unfold StoredTable.fault?
  constructor
  · intro none
    split at none
    · cases none
    next inhabited =>
      rcases Option.or_eq_none_iff.mp none with ⟨each, root⟩
      refine ⟨⟨?_, ?_⟩, by simpa using root⟩
      · rw [size]
        exact List.length_pos_iff.mpr fun empty => inhabited (empty ▸ rfl)
      · rw [size]
        exact rows.mpr (faultOfEach?_eq_none_iff.mp each)
  · rintro ⟨intact, root⟩
    have inhabited := intact.inhabited
    have each := intact.rows
    rw [size] at inhabited each
    rw [if_neg, faultOfEach?_eq_none_iff.mpr (rows.mp each), root]
    · rfl
    · intro empty
      rw [List.isEmpty_iff.mp empty] at inhabited
      cases inhabited

/-- Restoring gives the table that a stored table stands for, if this is intact and has a rule for
its root, and nothing otherwise. -/
theorem restore_eq_ok_iff {stored : StoredTable} {restored : Table} :
    stored.restore = .ok restored ↔
      restored = stored.table ∧ stored.table.Intact ∧ stored.table.ReducesRoot := by
  rw [← fault?_eq_none_iff]
  unfold restore
  cases stored.fault? with
  | none =>
      constructor
      · intro made
        exact ⟨(Except.ok.inj made).symm, rfl⟩
      · rintro ⟨rfl, _⟩
        rfl
  | some fault =>
      constructor
      · intro impossible
        cases impossible
      · rintro ⟨_, impossible⟩
        cases impossible

end StoredTable

end ShiftReduce
