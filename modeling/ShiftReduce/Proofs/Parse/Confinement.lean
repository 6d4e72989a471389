import ShiftReduce.Proofs.Parse.Failures
import ShiftReduce.Proofs.Parse.Stack
import ShiftReduce.Proofs.Parse.Steps
import ShiftReduce.Proofs.Table.Storing

namespace ShiftReduce

/-!
# How a run asks for what is not there

A restored table is intact, so the states on the stack are states of the table, and every rule that is
reduced is a rule of its state.  Popping and making nodes fail only by errors.  There is one more
place where a run relies on something, and restoring does not check it: a repetition that grows has
the collection it grows among its children, as the first of them.

The children have been merged before.  Merging leaves the rule's own name alone, so the first child is
there if the repetition is gathered under the name of the rule.  A stored rule can name a collection
other than its own.  If this one is also its first symbol, merging puts what was collected in its
place, and if nothing was collected, there is no first child.  Such rules are the only way out of a
restored table.
-/

/-! ## One reduction -/

/-- The rule merges, then lets a repetition grow that merging can take away: the repetition is gathered
under the name of the first symbol, and this is not the name of the rule. -/
def ReduceRule.MergesGrowing (rule : ReduceRule) : Prop :=
  Exists fun inner => Exists fun collector => Exists fun max => Exists fun group =>
    rule.emit = .merge inner ∧ inner.innermost = .repetition collector max group ∧
    rule.symbols.head? = some collector ∧ collector ≠ rule.nonterminal

namespace Collections

/-- Gathering finds no first child only if there are no children, and the first of the popped tokens
is the repetition. -/
theorem gather_outOfRange {collector : String} {max group : Nat} {popped children : List Token}
    {collections : Collections}
    (lost : gather collector max group popped children collections = .error .outOfRange) :
    children = [] ∧ (popped.map Token.name).head? = some collector := by
  cases gather_eq_error lost with
  | uncollected _ internal => exact (internal.ne_outOfRange rfl).elim
  | childless empty first => exact ⟨empty, first⟩

/-- Merging leaves a first child with the rule's own name where it is. -/
theorem splice_own {reducing : String} {children : List Token} (collections : Collections)
    (own : (children.map Token.name).head? = some reducing) :
    ((splice reducing children collections).1.map Token.name).head? = some reducing := by
  cases children with
  | nil => cases own
  | cons child rest =>
      have named : child.name = reducing := Option.some.inj own
      have stays : (if child.isSynthetic ∧ child.name ≠ reducing then collections.top? child.name
          else none) = none := if_neg fun spliced => spliced.2 named
      rw [splice, stays]
      exact own

end Collections

namespace ReduceRule

variable {rule : ReduceRule} {popped : List Token}

/-- A first child with the rule's own name is there whatever the effect is. -/
theorem effect_own (emit : Emit) {children : List Token} (collections : Collections)
    (own : (children.map Token.name).head? = some rule.nonterminal) :
    rule.effect popped emit children collections ≠ .error .outOfRange := by
  induction emit generalizing children collections with
  | none | report | callback | choice => exact fun lost => by cases lost
  | repetition collector max group =>
      intro lost
      rcases of_bind_eq_error lost with lost | ⟨_, _, impossible⟩
      · rw [(Collections.gather_outOfRange lost).1] at own
        cases own
      · cases impossible
  | merge inner inductionHypothesis =>
      rw [effect]
      exact inductionHypothesis _ (Collections.splice_own collections own)

/-- Only a repetition with the name of the first popped token can miss its first child. -/
theorem repetition_of_effect {emit : Emit} {children : List Token} {collections : Collections}
    (lost : rule.effect popped emit children collections = .error .outOfRange) :
    Exists fun collector => Exists fun max => Exists fun group =>
      emit.innermost = .repetition collector max group ∧
      (popped.map Token.name).head? = some collector := by
  rcases effect_eq_error lost with ⟨collector, max, group, _, innermost, fails⟩
  cases fails with
  | uncollected _ internal => exact (internal.ne_outOfRange rfl).elim
  | childless _ first => exact ⟨collector, max, group, innermost, first⟩

/-- A rule that misses the first child of its reduction merges away what is growing. -/
theorem mergesGrowing_of_reduce {collections : Collections}
    (names : popped.map Token.name = rule.symbols)
    (lost : rule.reduce popped collections = .error .outOfRange) : rule.MergesGrowing := by
  rcases repetition_of_effect lost with ⟨collector, max, group, innermost, first⟩
  rw [names] at first
  unfold ReduceRule.reduce at lost
  cases known : rule.emit with
  | none | report | callback | choice =>
      rw [known] at innermost
      cases innermost
  | repetition other otherMax otherGroup =>
      -- Nothing is merged, so the children are the popped tokens, and these begin with the collector.
      rw [known] at lost
      rcases of_bind_eq_error lost with lost | ⟨_, _, impossible⟩
      · rcases Collections.gather_outOfRange lost with ⟨nothing, some⟩
        rw [nothing] at some
        cases some
      · cases impossible
  | merge inner =>
      rw [known] at innermost
      refine ⟨inner, collector, max, group, known, innermost, first, ?_⟩
      rintro rfl
      rw [known] at lost
      rw [← names] at first
      exact effect_own _ collections first lost

end ReduceRule

/-! ## Whole runs -/

/-- Some rule of some row merges away what it lets grow. -/
def Table.MergesGrowing (table : Table) : Prop :=
  Exists fun row => row ∈ table.states ∧
    Exists fun rule => rule ∈ row.rules ∧ rule.MergesGrowing

namespace Setting

variable {σ : Type} {setting : Setting σ} {machine next : Machine σ}

/-- The states on a stack are states of the table. -/
def Inside (setting : Setting σ) (machine : Machine σ) : Prop :=
  forall frame, frame ∈ machine.stack -> frame.state < setting.table.states.size

/-- A step stays inside the table, or ends within its range unless a rule merges away what it lets
grow. -/
inductive Confined (setting : Setting σ) : Progress σ -> Prop where
  | running (machine : Machine σ) (inside : setting.Inside machine) :
      Confined setting (.running machine)
  | ended (outcome : Outcome) (machine : Machine σ)
      (inRange : outcome = .stopped .outOfRange -> setting.table.MergesGrowing) :
      Confined setting (.ended outcome machine)

theorem inside_start (state : σ) : setting.Inside (.start state) := by
  intro frame impossible
  cases impossible

theorem Inside.state (inside : setting.Inside machine) (intact : setting.table.Intact) :
    machine.state < setting.table.states.size := by
  unfold Machine.state
  split
  next frame below stack => exact inside frame (stack ▸ List.mem_cons_self)
  · exact intact.inhabited

theorem Inside.push (inside : setting.Inside machine) (intact : setting.table.Intact)
    {row : TableState} (found : setting.table.states[machine.state]? = some row) {token : Token}
    {target : Nat} (shifts : row.shift.get? token.name = some target) (lookahead : Lookahead) :
    setting.Confined (machine.push token target lookahead) := by
  refine .running _ ?_
  intro frame member
  rcases List.mem_cons.mp member with rfl | below
  · exact (intact.rows row (Array.mem_of_getElem? found)).shift _ _ (NameMap.mem_of_get? shifts)
  · exact inside frame below

theorem Inside.reduce (inside : setting.Inside machine) {row : TableState}
    (found : setting.table.states[machine.state]? = some row) {index : Nat} {rule : ReduceRule}
    (named : row.rules[index]? = some rule) (waiting : Option Token) :
    setting.Confined (setting.reduce machine rule waiting) := by
  unfold Setting.reduce
  split
  next halt popFails =>
    refine .ended _ _ fun lost => ?_
    cases lost
    exact ((Frame.pop_eq_error popFails).ne_outOfRange rfl).elim
  next popped below pops =>
    rcases Frame.of_pop pops with ⟨top, split, _, names⟩
    split
    next halt effectFails =>
      refine .ended _ _ fun lost => ?_
      cases lost
      exact ⟨row, Array.mem_of_getElem? found, rule, Array.mem_of_getElem? named,
        rule.mergesGrowing_of_reduce names effectFails⟩
    next collections call effect =>
      dsimp only
      split
      next halt nodesFail =>
        refine .ended _ _ fun lost => ?_
        cases lost
        exact ((nodesAfter_eq_error nodesFail).ne_outOfRange rfl).elim
      next nodes made =>
        split
        · exact .ended _ _ Outcome.noConfusion
        · refine .running _ fun frame member => inside frame ?_
          rw [split]
          exact List.mem_append_right top member

theorem Inside.step (inside : setting.Inside machine) (intact : setting.table.Intact) :
    setting.Confined (setting.step machine) := by
  have steps := setting.steps_step machine
  generalize setting.step machine = progress at steps
  cases steps with
  | lost missing =>
      rw [Array.getElem?_eq_none_iff] at missing
      exact (Nat.not_le.mpr (inside.state intact) missing).elim
  | interrupted | rejected => exact .ended _ _ fun impossible => by cases impossible
  | failed row error =>
      refine .ended _ _ fun impossible => ?_
      cases error <;> cases impossible
  | exhausted | skipped | received => exact .running _ inside
  | shifted row token target found ready shifts => exact inside.push intact found shifts .unread
  | unnamed row waiting name index found ready claimed missing =>
      have bound := (intact.rows row (Array.mem_of_getElem? found)).reduce name index
        (NameMap.mem_of_get? claimed)
      rw [Array.getElem?_eq_none_iff] at missing
      exact (Nat.not_le.mpr bound missing).elim
  | reduced row waiting name index rule found ready claimed named =>
      exact inside.reduce found named waiting
  | followed row nonterminal waiting target found made shifts =>
      exact inside.push intact found shifts (.ready waiting)

theorem Inside.run (inside : setting.Inside machine) (intact : setting.table.Intact) (limit : Nat)
    (lost : (setting.run limit machine).1 = .stopped .outOfRange) :
    setting.table.MergesGrowing := by
  induction limit generalizing machine with
  | zero => cases lost
  | succ limit inductionHypothesis =>
      have confined := inside.step intact
      rw [Setting.run] at lost
      generalize setting.step machine = progress at confined lost
      cases confined with
      | running next inside => exact inductionHypothesis inside lost
      | ended outcome last inRange => exact inRange lost

/-- A parse over a restored table asks for something that is not there, with or without a tree, only
if some rule of the table merges away what it lets grow. -/
theorem mergesGrowing_of_outOfRange {stored : StoredTable}
    (restored : stored.restore = .ok setting.table) (state : σ)
    (lost : (setting.parse state).outcome = .stopped .outOfRange ∨
      (setting.parseTree state).tree = .error (.stopped .outOfRange)) :
    setting.table.MergesGrowing := by
  have intact : setting.table.Intact := by
    rcases StoredTable.restore_eq_ok_iff.mp restored with ⟨same, intact, _⟩
    rwa [same]
  rcases setting.exists_run_eq_result (.start state) with ⟨limit, run⟩
  refine (inside_start state).run intact limit ?_
  rw [parse, parseTree, ← run, TreeResult.tree_ofRun_eq_error_iff] at lost
  rcases lost with plain | ⟨_, tree⟩ | ⟨_, halt, finishes, stopped⟩
  · exact plain
  · exact tree
  · cases stopped
    exact ((PendingNode.finish_eq_error finishes).ne_outOfRange rfl).elim

end Setting

/-! ## A repetition that is merged away -/

/-- A table for the empty text.  It collects nothing twice, and then lets a repetition grow that
merging has taken the first of the two collections from. -/
def StoredTable.mergedAway : StoredTable :=
  let collecting : StoredRule := ⟨"B", [], .choice "B", none, true⟩
  let growing : StoredRule := ⟨"A", ["B"], .merge (.repetition "B" 0 1), none, false⟩
  ⟨"A", [],
    [⟨[collecting], [("", 0)], [("B", 1)]⟩, ⟨[collecting], [("", 0)], [("B", 2)]⟩,
      ⟨[growing], [("", 0)], []⟩]⟩

/-- Parses over that table that build no tree. -/
def Setting.mergedAway : Setting TokenList :=
  ⟨StoredTable.mergedAway.table, TokenList.source, [], none⟩

/-- The table is restored, and the parse of no tokens asks for a child that is not there. -/
theorem Setting.outOfRange_mergedAway :
    StoredTable.mergedAway.restore = .ok mergedAway.table ∧
    (mergedAway.parse ⟨[], .start, none⟩).outcome = .stopped .outOfRange := by
  have runs : (mergedAway.run 20 (.start ⟨[], .start, none⟩)).1 = .stopped .outOfRange := by
    decide +kernel
  exact ⟨by decide +kernel, outcome_of_run runs Outcome.noConfusion⟩

/-- The reason is that the rule for the root merges away what it lets grow. -/
theorem Setting.mergesGrowing_mergedAway :
    StoredTable.mergedAway.restore = .ok mergedAway.table ∧
    (mergedAway.parse ⟨[], .start, none⟩).outcome = .stopped .outOfRange ∧
    mergedAway.table.MergesGrowing := by
  have restored : StoredTable.mergedAway.restore = .ok mergedAway.table := by decide +kernel
  have runs : (mergedAway.run 20 (.start ⟨[], .start, none⟩)).1 = .stopped .outOfRange := by
    decide +kernel
  have lost := outcome_of_run runs Outcome.noConfusion
  exact ⟨restored, lost, mergesGrowing_of_outOfRange restored _ (Or.inl lost)⟩

end ShiftReduce
