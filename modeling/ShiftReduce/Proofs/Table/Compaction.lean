import ShiftReduce.Proofs.Fallible
import ShiftReduce.Proofs.Table.Rows

namespace ShiftReduce

/-!
# What a table keeps of an automaton

A table says the same as the automaton it is made of, except where it cannot.  A row shifts what its
state has transitions for.  It reduces a completed production on the lookaheads of that production,
unless the lookahead is shifted as well; each reduction that is given up for a shift is recorded, in
the order of states and lookaheads.

No table is made if two completed productions of a state share a lookahead, whether or not it is
shifted, since the claims on lookaheads are compared before shifts are considered.  That is also the
only thing that can go wrong.  The first half of the module follows the claims until they clash, and
the second half translates what rows are read off into names and productions of the grammar.
-/

namespace Automaton

variable {automaton : Automaton}

/-- A completed production among the items has the lookahead. -/
def Claimant (automaton : Automaton) (items : ItemSet) (production lookahead : Nat) : Prop :=
  Exists fun core => Exists fun set => Exists fun numbered => (core, set) ∈ items ∧
    core.production = production ∧ automaton.analysis.isComplete core = true ∧
    automaton.analysis.vocabulary.productions[core.production]? = some numbered ∧ lookahead ∈ set

/-- The conflict of two different productions that claim a lookahead. -/
structure Clash (automaton : Automaton) (items : ItemSet) (error : GrammarError)
    (lookahead first second : Nat) : Prop where
  different : first ≠ second
  left : Claimant automaton items first lookahead
  right : Claimant automaton items second lookahead
  error : error = .reduceConflict (automaton.analysis.vocabulary.name lookahead)
    (automaton.analysis.vocabulary.describe first) (automaton.analysis.vocabulary.describe second)

/-- A claim fails because of a claim that an earlier production has made. -/
theorem claim_eq_error {index place : Nat} {lookaheads : List Nat} {old : List (Nat × Nat × Nat)}
    {error : GrammarError} (failed : automaton.claim index place lookaheads old = .error error) :
    Exists fun lookahead => Exists fun other => Exists fun position =>
      lookahead ∈ lookaheads ∧ (lookahead, other, position) ∈ old ∧ other ≠ index ∧
        error = .reduceConflict (automaton.analysis.vocabulary.name lookahead)
          (automaton.analysis.vocabulary.describe other)
          (automaton.analysis.vocabulary.describe index) := by
  induction lookaheads generalizing old with
  | nil => cases failed
  | cons head rest inductionHypothesis =>
      rw [claim] at failed
      cases known : old.lookup head with
      | some found =>
          rcases found with ⟨other, position⟩
          rw [known] at failed
          dsimp only at failed
          split at failed
          · rcases inductionHypothesis failed with ⟨lookahead, first, place, listed, parts⟩
            exact ⟨lookahead, first, place, List.mem_cons_of_mem _ listed, parts⟩
          next different =>
            exact ⟨head, other, position, List.mem_cons_self, mem_of_lookup known, different,
              (Except.error.inj failed).symm⟩
      | none =>
          rw [known] at failed
          rcases inductionHypothesis failed with ⟨lookahead, first, place, listed, claimed, parts⟩
          rcases List.mem_cons.mp claimed with here | before
          · rw [Prod.mk.injEq, Prod.mk.injEq] at here
            exact (parts.1 here.2.1).elim
          · exact ⟨lookahead, first, place, List.mem_cons_of_mem _ listed, before, parts⟩

theorem addCompleted_eq_error {items done : ItemSet} {row : Row} {error : GrammarError}
    (reads : Reads automaton done row) (failed : automaton.addCompleted items row = .error error) :
    Exists fun lookahead => Exists fun first => Exists fun second =>
      Clash automaton (done ++ items) error lookahead first second := by
  induction items generalizing done row with
  | nil => cases failed
  | cons item rest inductionHypothesis =>
      rcases item with ⟨core, set⟩
      have regroup : done ++ (core, set) :: rest = done ++ [(core, set)] ++ rest := by simp
      rw [regroup]
      rw [addCompleted] at failed
      split at failed
      next numbered complete found =>
        cases made : automaton.claim core.production row.rules.size set row.claims with
        | error failure =>
            rw [made] at failed
            rcases claim_eq_error made with
              ⟨lookahead, other, position, listed, claimed, different, same⟩
            rcases reads.claims lookahead other position claimed with
              ⟨first, others, known, before, inOthers, rfl, firstComplete, firstFound, _⟩
            refine ⟨lookahead, first.production, core.production, different, ?_, ?_, ?_⟩
            · exact ⟨first, others, known, List.mem_append_left _ (List.mem_append_left _ before),
                rfl, firstComplete, firstFound, inOthers⟩
            · exact ⟨core, set, numbered,
                List.mem_append_left _ (List.mem_append_right _ List.mem_cons_self), rfl, complete,
                found, listed⟩
            · exact (Except.error.inj failed).symm.trans same
        | ok claims =>
            rw [made] at failed
            exact inductionHypothesis
              (reads_push reads complete found (claims_claim automaton _ _ made)) failed
      next notBoth => exact inductionHypothesis (reads_skip reads notBoth) failed

/-- A lookahead is claimed exactly by the completed productions that have it. -/
theorem Reads.claim_iff {items : ItemSet} {row : Row} (reads : Reads automaton items row)
    {production lookahead : Nat} :
    (Exists fun place => (lookahead, production, place) ∈ row.claims) ↔
      Claimant automaton items production lookahead := by
  constructor
  · rintro ⟨place, claimed⟩
    rcases reads.claims lookahead production place claimed with
      ⟨core, set, numbered, listed, member, rfl, complete, found, _⟩
    exact ⟨core, set, numbered, listed, rfl, complete, found, member⟩
  · rintro ⟨core, set, numbered, listed, rfl, complete, found, member⟩
    exact reads.claimed core set numbered lookahead listed complete found member

/-- Where claims were made, only one production has the lookahead. -/
theorem Reads.sole {items : ItemSet} {row : Row} (reads : Reads automaton items row)
    {first second lookahead : Nat} (left : Claimant automaton items first lookahead)
    (right : Claimant automaton items second lookahead) : first = second := by
  rcases reads.claim_iff.mpr left with ⟨place, claimed⟩
  rcases reads.claim_iff.mpr right with ⟨other, alsoClaimed⟩
  exact congrArg Prod.fst (reads.functional lookahead _ _ claimed alsoClaimed)

/-- Each completed production comes from a completed item. -/
theorem completed_eq_some {item : Core × IdSet} {completed : Nat × NumberedProduction}
    (isCompleted : (if automaton.analysis.isComplete item.1 = true then
      (automaton.analysis.vocabulary.productions[item.1.production]?).map (item.1.production, ·)
      else none) = some completed) :
    automaton.analysis.isComplete item.1 = true ∧ completed.1 = item.1.production ∧
      automaton.analysis.vocabulary.productions[item.1.production]? = some completed.2 := by
  split at isCompleted
  next complete =>
    rcases Option.map_eq_some_iff.mp isCompleted with ⟨numbered, known, rfl⟩
    exact ⟨complete, rfl, known⟩
  · cases isCompleted

theorem row_eq_error {index : Nat} {state : State} {error : GrammarError}
    (failed : automaton.row index state = .error error) :
    Exists fun lookahead => Exists fun first => Exists fun second =>
      Clash automaton (automaton.items state) error lookahead first second := by
  unfold Automaton.row at failed
  cases added : automaton.addCompleted (automaton.items state) ⟨#[], []⟩ with
  | ok read =>
      rw [added] at failed
      cases failed
  | error failure =>
      rw [added] at failed
      rw [← Except.error.inj failed]
      exact addCompleted_eq_error reads_empty added

theorem rows_eq_error {states : List State} {index : Nat} {error : GrammarError}
    (failed : automaton.rows index states = .error error) :
    Exists fun state => Exists fun number => state ∈ states ∧
      automaton.row number state = .error error := by
  induction states generalizing index with
  | nil => cases failed
  | cons state rest inductionHypothesis =>
      rw [Automaton.rows] at failed
      cases first : automaton.row index state with
      | error failure =>
          rw [first] at failed
          exact ⟨state, index, List.mem_cons_self, Except.error.inj failed ▸ first⟩
      | ok head =>
          cases others : automaton.rows (index + 1) rest with
          | error failure =>
              rw [first] at failed
              simp only [others] at failed
              rcases inductionHypothesis (Except.error.inj failed ▸ others) with
                ⟨later, number, listed, there⟩
              exact ⟨later, number, List.mem_cons_of_mem _ listed, there⟩
          | ok tail =>
              rw [first] at failed
              simp only [others] at failed
              cases failed

/-- No table is made only if two productions that are complete in a state claim a lookahead. -/
theorem toTable_eq_error {error : GrammarError} (failed : automaton.toTable = .error error) :
    Exists fun state => Exists fun lookahead => Exists fun first => Exists fun second =>
      state ∈ automaton.states ∧
        Clash automaton (automaton.items state) error lookahead first second := by
  unfold toTable at failed
  cases all : automaton.rows 0 automaton.states.toList with
  | ok result =>
      rw [all] at failed
      cases failed
  | error failure =>
      rw [all] at failed
      rcases rows_eq_error all with ⟨state, number, listed, there⟩
      rcases row_eq_error there with ⟨lookahead, first, second, clash⟩
      exact ⟨state, lookahead, first, second, Array.mem_toList_iff.mp listed,
        Except.error.inj failed ▸ clash⟩

/-- The rows and the resolved conflicts of a table, state by state. -/
theorem parts_of_toTable {table : Table} (made : automaton.toTable = .ok table) :
    Exists fun parts : List (TableState × List ResolvedConflict) =>
      parts.length = automaton.states.size ∧
      (forall (index : Nat) (state : State), automaton.states[index]? = some state ->
        Exists fun part => parts[index]? = some part ∧ automaton.row index state = .ok part) ∧
      table.states = (parts.map (·.1)).toArray ∧ table.conflicts = parts.flatMap (·.2) := by
  unfold toTable at made
  cases all : automaton.rows 0 automaton.states.toList with
  | error failure =>
      rw [all] at made
      cases made
  | ok result =>
      rw [all] at made
      rcases rows_eq_ok all with ⟨parts, each, rows, conflicts⟩
      have length := each.length_eq
      rw [List.length_zipIdx, Array.length_toList] at length
      rw [← Except.ok.inj made]
      refine ⟨parts, length.symm, ?_, congrArg List.toArray rows, conflicts⟩
      intro index state found
      have inside := (Array.getElem?_eq_some_iff.mp found).1
      have here := List.Forall₂.get each (i := index)
        (by rwa [List.length_zipIdx, Array.length_toList]) (length ▸ inside)
      simp only [List.get_eq_getElem, List.getElem_zipIdx, Array.getElem_toList, Nat.zero_add,
        (Array.getElem?_eq_some_iff.mp found).2] at here
      exact ⟨_, List.getElem?_eq_getElem (length ▸ inside), here⟩

/-- The productions that are complete in a state, in the order of its items. -/
def completed (automaton : Automaton) (index : Nat) : List Nat :=
  match automaton.states[index]? with
  | some state => (completedIn automaton (automaton.items state)).map (·.1)
  | none => []

end Automaton

/-- Resolved conflicts are ordered by state, then by lookahead. -/
def ResolvedConflict.Before (first second : ResolvedConflict) : Prop :=
  first.state < second.state ∨ first.state = second.state ∧ first.lookahead < second.lookahead

namespace PlainGrammar

open Analysis Construction Automaton

variable (grammar : PlainGrammar)

/-- In a state the dot is at the end of the production, and the name is one of its lookaheads. -/
def Completes (index production : Nat) (lookahead : String) : Prop :=
  Exists fun pair => grammar.productions[production]? = some pair ∧
    (Automaton.ofGrammar grammar).HasLookahead index ⟨production, pair.2.symbols.length⟩ lookahead

/-- In some state two different productions are complete and share a lookahead. -/
def Clashes : Prop :=
  Exists fun index => Exists fun lookahead => Exists fun first => Exists fun second =>
    first ≠ second ∧ grammar.Completes index first lookahead ∧
      grammar.Completes index second lookahead

/-- What the row of a state says. -/
structure Compacts (index : Nat) (row : TableState) : Prop where
  shift : forall name target, row.shift.get? name = some target ↔
    (Automaton.ofGrammar grammar).LeadsTo index name target
  distinct : ((Automaton.ofGrammar grammar).completed index).Nodup
  rules : row.rules.toList.map some = ((Automaton.ofGrammar grammar).completed index).map
    fun production => (grammar.productions[production]?).map reduceRule
  reduce : forall name place, row.reduce.get? name = some place ↔
    row.shift.get? name = none ∧ Exists fun production =>
      ((Automaton.ofGrammar grammar).completed index)[place]? = some production ∧
        grammar.Completes index production name

/-- A cell that could be shifted and reduced, with the production that is not reduced there. -/
def Drops (conflict : ResolvedConflict) : Prop :=
  Exists fun target => Exists fun production => Exists fun pair =>
    (Automaton.ofGrammar grammar).LeadsTo conflict.state conflict.lookahead target ∧
      grammar.Completes conflict.state production conflict.lookahead ∧
      grammar.productions[production]? = some pair ∧
      conflict.dropped = (reduceRule pair).display

variable {grammar}

/-- The closed kernel of a state is in order, and what it knows has names. -/
private theorem proper_items {index : Nat} {state : State}
    (found : (Automaton.ofGrammar grammar).states[index]? = some state) :
    index < (finished grammar).states.size ∧ (finished grammar).kernelOf index = state.kernel ∧
      Proper grammar ((Automaton.ofGrammar grammar).items state) := by
  have known : (finished grammar).states[index]? = some state := found
  have inside := (Array.getElem?_eq_some_iff.mp known).1
  have kernel := kernelOf_of_getElem? known
  have proper := proper_closure grammar (sound_finished grammar inside).proper
  rw [kernel] at proper
  exact ⟨inside, kernel, proper⟩

/-- A completed item has its dot at the end. -/
private theorem dot_of_item {index : Nat} {state : State}
    (found : (Automaton.ofGrammar grammar).states[index]? = some state) {core : Core}
    {set : IdSet} (listed : (core, set) ∈ (Automaton.ofGrammar grammar).items state)
    (complete : (Analysis.ofGrammar grammar).isComplete core = true)
    {pair : PlainRule × PlainProduction} (known : grammar.productions[core.production]? = some pair) :
    core = ⟨core.production, pair.2.symbols.length⟩ := by
  rcases proper_items found with ⟨inside, kernel, _⟩
  have member : core ∈ ((Analysis.ofGrammar grammar).closure
      ((finished grammar).kernelOf index)).cores := by
    rw [kernel]
    exact ItemSet.mem_cores.mpr ⟨set, listed⟩
  have closed := (mem_cores_closure grammar (sound_finished grammar inside).proper core).mp member
  rw [← dot_of_complete grammar inside closed complete known]

/-- Claims in terms of names and of productions of the grammar. -/
theorem claimant_iff {index : Nat} {state : State}
    (found : (Automaton.ofGrammar grammar).states[index]? = some state) {production : Nat}
    {lookahead : String} :
    (Exists fun id => id < symbolCount grammar ∧ symbolName grammar id = lookahead ∧
        Claimant (Automaton.ofGrammar grammar) ((Automaton.ofGrammar grammar).items state)
          production id) ↔
      grammar.Completes index production lookahead := by
  rcases proper_items found with ⟨_, _, proper⟩
  constructor
  · rintro ⟨id, inside, rfl, core, set, numbered, listed, rfl, complete, atNumber, member⟩
    rcases reduceRule_eq grammar atNumber with ⟨pair, known, _⟩
    have atEnd := dot_of_item found listed complete known
    refine ⟨pair, known, state, id, found, Vocabulary.getElem?_names inside, ?_⟩
    rw [← atEnd, ItemSet.lookaheads_of_mem proper.ordered listed]
    exact member
  · rintro ⟨pair, known, other, id, otherFound, name, member⟩
    rw [Option.some.inj (otherFound.symm.trans found)] at member
    rcases Vocabulary.production_exists grammar known with ⟨numbered, atNumber⟩
    exact ⟨id, proper.inside _ id member, Vocabulary.name_of_getElem? name, _, _, numbered,
      ItemSet.mem_of_mem_cores (ItemSet.mem_cores_of_mem_lookaheads member), rfl,
      complete_of_end grammar known, atNumber, member⟩

/-- A production is complete in a state at most once. -/
theorem nodup_completed (index : Nat) : ((Automaton.ofGrammar grammar).completed index).Nodup := by
  unfold Automaton.completed
  cases found : (Automaton.ofGrammar grammar).states[index]? with
  | none => exact List.nodup_nil
  | some state =>
      have distinct := List.pairwise_map.mp (ItemSet.nodup_cores (proper_items found).2.2.ordered)
      refine List.pairwise_map.mpr (List.pairwise_filterMap.mpr (distinct.imp_of_mem ?_))
      intro left right leftListed rightListed different first isFirst second isSecond same
      rcases completed_eq_some isFirst with ⟨leftComplete, leftNumber, leftFound⟩
      rcases completed_eq_some isSecond with ⟨rightComplete, rightNumber, _⟩
      have numbers : left.1.production = right.1.production :=
        leftNumber.symm.trans (same.trans rightNumber)
      rcases reduceRule_eq grammar leftFound with ⟨pair, known, _⟩
      have leftEnd := dot_of_item found leftListed leftComplete known
      have rightEnd := dot_of_item found rightListed rightComplete (numbers ▸ known)
      exact different (leftEnd.trans (numbers ▸ rightEnd.symm))

/-- A symbol leads from a state to one state. -/
theorem target_unique {index first second : Nat} {symbol : String}
    (left : (Automaton.ofGrammar grammar).LeadsTo index symbol first)
    (right : (Automaton.ofGrammar grammar).LeadsTo index symbol second) : first = second := by
  rcases (leadsTo_iff grammar).mp left with ⟨id, name, listed⟩
  rcases (leadsTo_iff grammar).mp right with ⟨other, otherName, otherListed⟩
  rcases transition_finished grammar listed with ⟨_, firstInside, _, firstCores⟩
  rcases transition_finished grammar otherListed with ⟨_, secondInside, _, secondCores⟩
  have same : symbolName grammar id = symbolName grammar other :=
    (Vocabulary.name_of_getElem? name).trans (Vocabulary.name_of_getElem? otherName).symm
  exact distinct_finished grammar firstInside secondInside
    (firstCores.trans (same ▸ secondCores.symm))

/-- A state shifts what it has transitions for. -/
theorem get?_shifts {index : Nat} {state : State}
    (found : (Automaton.ofGrammar grammar).states[index]? = some state) (name : String)
    (target : Nat) :
    ((Automaton.ofGrammar grammar).shifts state).get? name = some target ↔
      (Automaton.ofGrammar grammar).LeadsTo index name target := by
  have leads : forall place, (name, place) ∈ (state.transitions.map fun transition =>
      ((Automaton.ofGrammar grammar).analysis.vocabulary.name transition.1, transition.2)) ->
      (Automaton.ofGrammar grammar).LeadsTo index name place := by
    intro place listed
    rcases List.mem_map.mp listed with ⟨⟨id, other⟩, member, same⟩
    rw [Prod.mk.injEq] at same
    rcases same with ⟨rfl, rfl⟩
    have transition : (id, other) ∈ (finished grammar).transitionsOf index := by
      have known : (finished grammar).states[index]? = some state := found
      rw [transitionsOf, known]
      exact member
    have inside : id < symbolCount grammar := by
      rcases (settling_finished grammar).1.consistent.leads index id other transition with
        ⟨_, _, next, _⟩
      rcases (mem_nextSymbols _).mp next with ⟨core, _, atDot⟩
      exact nextSymbol?_inside grammar atDot
    exact ⟨state, id, found, Vocabulary.getElem?_names inside, member⟩
  constructor
  · exact fun shifted => leads target (NameMap.mem_of_get?_ofList shifted)
  · rintro ⟨other, id, otherFound, atName, member⟩
    rw [Option.some.inj (otherFound.symm.trans found)] at member
    have entry : (name, target) ∈ state.transitions.map fun transition =>
        ((Automaton.ofGrammar grammar).analysis.vocabulary.name transition.1, transition.2) :=
      List.mem_map.mpr ⟨(id, target), member, Prod.ext (Vocabulary.name_of_getElem? atName) rfl⟩
    rcases NameMap.get?_ofList_of_mem entry with ⟨given, shifted, listed⟩
    rw [target_unique (leads target entry) (leads given listed)]
    exact shifted

/-- The place of a claim is that of the production that makes it. -/
private theorem completed_at {index : Nat} {state : State}
    (found : (Automaton.ofGrammar grammar).states[index]? = some state)
    {rules : Array ReduceRule} {claims : List (Nat × Nat × Nat)}
    (reads : Reads (Automaton.ofGrammar grammar) ((Automaton.ofGrammar grammar).items state)
      ⟨rules, claims⟩) {lookahead production place : Nat}
    (listed : (lookahead, production, place) ∈ claims) :
    ((Automaton.ofGrammar grammar).completed index)[place]? = some production := by
  rcases reads.places lookahead production place listed with ⟨numbered, atPlace⟩
  unfold Automaton.completed
  rw [found]
  dsimp only
  rw [List.getElem?_map, atPlace]
  rfl

/-- The reductions of a state before any is given up. -/
theorem get?_reductions {index : Nat} {state : State}
    (found : (Automaton.ofGrammar grammar).states[index]? = some state)
    {rules : Array ReduceRule} {claims : List (Nat × Nat × Nat)}
    (reads : Reads (Automaton.ofGrammar grammar) ((Automaton.ofGrammar grammar).items state)
      ⟨rules, claims⟩) (name : String) (place : Nat) :
    ((Automaton.ofGrammar grammar).reductions ⟨rules, claims⟩).get? name = some place ↔
      Exists fun production =>
        ((Automaton.ofGrammar grammar).completed index)[place]? = some production ∧
          grammar.Completes index production name := by
  have inside : forall lookahead production position,
      (lookahead, production, position) ∈ claims -> lookahead < symbolCount grammar := by
    intro lookahead production position listed
    rcases reads.claim_iff.mp ⟨position, listed⟩ with ⟨core, set, _, item, _, _, _, member⟩
    have proper := (proper_items found).2.2
    rw [← ItemSet.lookaheads_of_mem proper.ordered item] at member
    exact proper.inside core lookahead member
  constructor
  · intro reduced
    rcases claim_of_reduction grammar reduced with ⟨lookahead, production, listed, rfl⟩
    exact ⟨production, completed_at found reads listed, (claimant_iff found).mp
      ⟨lookahead, inside lookahead production place listed, rfl,
        reads.claim_iff.mp ⟨place, listed⟩⟩⟩
  · rintro ⟨production, atPlace, completes⟩
    rcases (claimant_iff found).mpr completes with ⟨lookahead, lookaheadInside, rfl, claimant⟩
    rcases reads.claim_iff.mpr claimant with ⟨position, listed⟩
    have entry : (symbolName grammar lookahead, position) ∈ claims.map fun claim =>
        ((Automaton.ofGrammar grammar).analysis.vocabulary.name claim.1, claim.2.2) :=
      List.mem_map.mpr ⟨_, listed, rfl⟩
    rcases NameMap.get?_ofList_of_mem entry with ⟨given, reduced, _⟩
    have givenReduced : ((Automaton.ofGrammar grammar).reductions ⟨rules, claims⟩).get?
        (symbolName grammar lookahead) = some given := reduced
    rcases claim_of_reduction grammar givenReduced with ⟨other, another, otherListed, sameName⟩
    have same := symbolName_injective grammar (inside other another given otherListed)
      lookaheadInside sameName
    have equal := reads.functional lookahead _ _ (same ▸ otherListed) listed
    rw [Prod.mk.injEq] at equal
    have atPosition := completed_at found reads listed
    have samePlace : position = place :=
      (List.getElem?_inj (List.getElem?_eq_some_iff.mp atPosition).1 (nodup_completed index)).mp
        (atPosition.trans atPlace.symm)
    rw [givenReduced, equal.2, samePlace]

/-- The rules of a row are those of the completed productions. -/
private theorem rules_of_reads {index : Nat} {state : State}
    (found : (Automaton.ofGrammar grammar).states[index]? = some state)
    {rules : Array ReduceRule} {claims : List (Nat × Nat × Nat)}
    (reads : Reads (Automaton.ofGrammar grammar) ((Automaton.ofGrammar grammar).items state)
      ⟨rules, claims⟩) :
    rules.toList.map some = ((Automaton.ofGrammar grammar).completed index).map
      fun production => (grammar.productions[production]?).map reduceRule := by
  have order : rules.toList = _ := reads.order
  unfold Automaton.completed
  rw [order, found]
  simp only [List.map_map]
  apply List.map_congr_left
  intro completed listed
  rcases List.mem_filterMap.mp listed with ⟨item, _, isCompleted⟩
  rcases completed_eq_some isCompleted with ⟨_, number, known⟩
  rcases reduceRule_eq grammar known with ⟨pair, atNumber, same⟩
  simp only [Function.comp_apply, number, atNumber, same, Option.map_some]

theorem compacts_row {index : Nat} {state : State}
    (found : (Automaton.ofGrammar grammar).states[index]? = some state) {row : TableState}
    {conflicts : List ResolvedConflict}
    (made : (Automaton.ofGrammar grammar).row index state = .ok (row, conflicts)) :
    grammar.Compacts index row := by
  rcases row_eq_ok made with ⟨claims, reads, shift, reduce, _⟩
  refine ⟨?_, nodup_completed index, rules_of_reads found reads, ?_⟩
  · rw [shift]
    exact get?_shifts found
  · intro name place
    have kept := NameMap.get?_filter
      (fun name => !((Automaton.ofGrammar grammar).shifts state).contains name)
      ((Automaton.ofGrammar grammar).reductions ⟨row.rules, claims⟩) name
    rw [reduce, shift, kept, NameMap.contains]
    cases shifted : ((Automaton.ofGrammar grammar).shifts state).get? name with
    | none =>
        simp only [Option.isSome_none, Bool.not_false, if_true, true_and]
        exact get?_reductions found reads name place
    | some target =>
        simp only [Option.isSome_some, Bool.not_true, Bool.false_eq_true, if_false, reduceCtorEq,
          false_and]

/-- A production that is complete on some lookahead is among the completed ones. -/
theorem Completes.listed {index production : Nat} {lookahead : String}
    (completes : grammar.Completes index production lookahead) :
    production ∈ (Automaton.ofGrammar grammar).completed index := by
  have known := completes
  rcases known with ⟨_, _, state, _, found, _⟩
  rcases (claimant_iff found).mpr completes with
    ⟨_, _, _, core, set, numbered, member, rfl, complete, atNumber, _⟩
  unfold Automaton.completed
  rw [found]
  refine List.mem_map.mpr ⟨(core.production, numbered), List.mem_filterMap.mpr ⟨_, member, ?_⟩, rfl⟩
  rw [if_pos complete, atNumber, Option.map_some]

/-- The rule at the place of a completed production is its own. -/
theorem Compacts.ruleAt {index : Nat} {row : TableState} (compacts : grammar.Compacts index row)
    {place production : Nat}
    (atPlace : ((Automaton.ofGrammar grammar).completed index)[place]? = some production)
    {pair : PlainRule × PlainProduction} (known : grammar.productions[production]? = some pair) :
    row.rules[place]? = some (reduceRule pair) := by
  have same := congrArg (fun listed : List (Option ReduceRule) => listed[place]?) compacts.rules
  rw [List.getElem?_map, List.getElem?_map, atPlace, Option.map_some, known, Option.map_some,
    Array.getElem?_toList] at same
  rcases Option.map_eq_some_iff.mp same with ⟨rule, atRule, equal⟩
  rw [atRule, equal]

/-- The conflicts of a row are the cells that could be shifted and reduced. -/
theorem mem_conflicts_row {index : Nat} {state : State}
    (found : (Automaton.ofGrammar grammar).states[index]? = some state) {row : TableState}
    {conflicts : List ResolvedConflict}
    (made : (Automaton.ofGrammar grammar).row index state = .ok (row, conflicts))
    (conflict : ResolvedConflict) :
    conflict ∈ conflicts ↔ conflict.state = index ∧ grammar.Drops conflict := by
  rcases row_eq_ok made with ⟨claims, reads, _, _, rfl⟩
  have rule : forall place production pair,
      ((Automaton.ofGrammar grammar).completed index)[place]? = some production ->
      grammar.productions[production]? = some pair ->
      row.rules.getD place default = reduceRule pair := by
    intro place production pair atPlace known
    have same := congrArg (fun listed : List (Option ReduceRule) => listed[place]?)
      (rules_of_reads found reads)
    rw [List.getElem?_map, List.getElem?_map, atPlace, Option.map_some, known, Option.map_some,
      Array.getElem?_toList] at same
    rcases Option.map_eq_some_iff.mp same with ⟨rule, atRule, equal⟩
    rw [Array.getD_eq_getD_getElem?, atRule, Option.getD_some, Option.some.inj equal]
  rw [List.mem_map]
  constructor
  · rintro ⟨⟨name, place⟩, listed, rfl⟩
    rcases List.mem_filter.mp listed with ⟨member, contained⟩
    rcases Option.isSome_iff_exists.mp contained with ⟨target, shifted⟩
    have reduced := NameMap.get?_of_mem (NameMap.increasing_ofList _) member
    rcases (get?_reductions found reads name place).mp reduced with ⟨production, atPlace, completes⟩
    rcases completes with ⟨pair, known, has⟩
    exact ⟨rfl, target, production, pair, (get?_shifts found name target).mp shifted,
      ⟨pair, known, has⟩, known,
      congrArg ReduceRule.display (rule place production pair atPlace known)⟩
  · rcases conflict with ⟨number, name, words⟩
    rintro ⟨rfl, target, production, pair, leads, completes, known, dropped⟩
    dsimp only at leads completes dropped
    rcases (claimant_iff found).mpr completes with ⟨lookahead, _, _, claimant⟩
    rcases reads.claim_iff.mpr claimant with ⟨place, claimed⟩
    have atPlace := completed_at found reads claimed
    have reduced := (get?_reductions found reads name place).mpr ⟨production, atPlace, completes⟩
    refine ⟨(name, place), List.mem_filter.mpr ⟨NameMap.mem_of_get? reduced, ?_⟩, ?_⟩
    · exact Option.isSome_iff_exists.mpr ⟨target, (get?_shifts found name target).mpr leads⟩
    · unfold Automaton.dropped
      dsimp only
      rw [rule place production pair atPlace known, dropped]

theorem not_clashes_of_toTable {table : Table}
    (made : (Automaton.ofGrammar grammar).toTable = .ok table) : ¬ grammar.Clashes := by
  rintro ⟨index, lookahead, first, second, different, left, right⟩
  have completes := left
  rcases completes with ⟨_, _, state, _, found, _⟩
  rcases parts_of_toTable made with ⟨parts, _, each, _⟩
  rcases each index state found with ⟨part, _, rowMade⟩
  rcases row_eq_ok rowMade with ⟨claims, reads, _⟩
  rcases (claimant_iff found).mpr left with ⟨value, inside, name, claimant⟩
  rcases (claimant_iff found).mpr right with ⟨other, otherInside, otherName, otherClaimant⟩
  have same := symbolName_injective grammar inside otherInside (name.trans otherName.symm)
  exact different (reads.sole claimant (same ▸ otherClaimant))

/-- Where no table is made, there is a clash, and the error names it. -/
theorem clash_of_toTable {error : GrammarError}
    (failed : (Automaton.ofGrammar grammar).toTable = .error error) :
    Exists fun index => Exists fun lookahead => Exists fun first => Exists fun second =>
      first ≠ second ∧ grammar.Completes index first lookahead ∧
        grammar.Completes index second lookahead ∧
        error = .reduceConflict lookahead ((Vocabulary.ofGrammar grammar).describe first)
          ((Vocabulary.ofGrammar grammar).describe second) := by
  rcases toTable_eq_error failed with ⟨state, id, first, second, listed, clash⟩
  rcases Array.getElem?_of_mem listed with ⟨index, found⟩
  have inside : id < symbolCount grammar := by
    rcases clash.left with ⟨core, set, _, item, _, _, _, member⟩
    have proper := (proper_items found).2.2
    rw [← ItemSet.lookaheads_of_mem proper.ordered item] at member
    exact proper.inside core id member
  exact ⟨index, symbolName grammar id, first, second, clash.different,
    (claimant_iff found).mp ⟨id, inside, rfl, clash.left⟩,
    (claimant_iff found).mp ⟨id, inside, rfl, clash.right⟩, clash.error⟩

theorem compacts_toTable {table : Table}
    (made : (Automaton.ofGrammar grammar).toTable = .ok table) :
    table.states.size = (Automaton.ofGrammar grammar).states.size ∧
      forall (index : Nat) (row : TableState), table.states[index]? = some row ->
        grammar.Compacts index row := by
  rcases parts_of_toTable made with ⟨parts, length, each, states, _⟩
  rw [states]
  refine ⟨by rw [List.size_toArray, List.length_map, length], ?_⟩
  intro index row atIndex
  rw [List.getElem?_toArray, List.getElem?_map] at atIndex
  rcases Option.map_eq_some_iff.mp atIndex with ⟨part, atPart, rfl⟩
  have inside := (List.getElem?_eq_some_iff.mp atPart).1
  rw [length] at inside
  have found := Array.getElem?_eq_getElem inside
  rcases each index _ found with ⟨other, atOther, rowMade⟩
  rw [Option.some.inj (atOther.symm.trans atPart)] at rowMade
  exact compacts_row found rowMade

/-- The resolved conflicts are the cells that could be shifted and reduced, each of them once and in
order. -/
theorem conflicts_toTable {table : Table}
    (made : (Automaton.ofGrammar grammar).toTable = .ok table) :
    table.conflicts.Pairwise ResolvedConflict.Before ∧
      forall conflict, conflict ∈ table.conflicts ↔ grammar.Drops conflict := by
  rcases parts_of_toTable made with ⟨parts, length, each, _, conflicts⟩
  have rowAt : forall (index : Nat) (part : TableState × List ResolvedConflict),
      parts[index]? = some part -> Exists fun state =>
        (Automaton.ofGrammar grammar).states[index]? = some state ∧
          (Automaton.ofGrammar grammar).row index state = .ok part := by
    intro index part atPart
    have inside := (List.getElem?_eq_some_iff.mp atPart).1
    rw [length] at inside
    have found := Array.getElem?_eq_getElem inside
    rcases each index _ found with ⟨other, atOther, rowMade⟩
    rw [Option.some.inj (atOther.symm.trans atPart)] at rowMade
    exact ⟨_, found, rowMade⟩
  rw [conflicts]
  constructor
  · refine List.pairwise_flatMap.mpr ⟨?_, ?_⟩
    · intro part listed
      rcases List.getElem?_of_mem listed with ⟨index, atPart⟩
      rcases rowAt index part atPart with ⟨state, _, rowMade⟩
      rcases row_eq_ok rowMade with ⟨claims, _, _, _, resolved⟩
      rw [resolved]
      refine List.pairwise_map.mpr (((NameMap.increasing_ofList _).filter _).imp ?_)
      exact fun earlier => Or.inr ⟨rfl, earlier⟩
    · refine List.pairwise_iff_getElem.mpr ?_
      intro first second firstInside secondInside earlier left leftListed right rightListed
      rcases rowAt first _ (List.getElem?_eq_getElem firstInside) with ⟨_, found, rowMade⟩
      rcases rowAt second _ (List.getElem?_eq_getElem secondInside) with
        ⟨_, otherFound, otherMade⟩
      have leftState := ((mem_conflicts_row found rowMade left).mp leftListed).1
      have rightState := ((mem_conflicts_row otherFound otherMade right).mp rightListed).1
      exact Or.inl (by rw [leftState, rightState]; exact earlier)
  · intro conflict
    rw [List.mem_flatMap]
    constructor
    · rintro ⟨part, listed, member⟩
      rcases List.getElem?_of_mem listed with ⟨index, atPart⟩
      rcases rowAt index part atPart with ⟨state, found, rowMade⟩
      exact ((mem_conflicts_row found rowMade conflict).mp member).2
    · intro drops
      have known := drops
      rcases known with ⟨_, _, _, ⟨state, _, found, _⟩, _⟩
      rcases each conflict.state state found with ⟨part, atPart, rowMade⟩
      exact ⟨part, List.mem_of_getElem? atPart,
        (mem_conflicts_row found rowMade conflict).mpr ⟨rfl, drops⟩⟩

/-- Two productions that are complete on one lookahead are all that keeps a grammar from having a
table; the error names such a pair. Where there is none, each row of the table says what its state
says, shifts coming before reductions, and every reduction that is lost is on record. -/
theorem toTable_faithful (grammar : PlainGrammar) :
    ((Exists fun lookahead => Exists fun first => Exists fun second =>
        (Automaton.ofGrammar grammar).toTable = .error (.reduceConflict lookahead first second)) ↔
      grammar.Clashes) ∧
    (¬ grammar.Clashes -> Exists fun table =>
      (Automaton.ofGrammar grammar).toTable = .ok table ∧
      table.states.size = (Automaton.ofGrammar grammar).states.size ∧
      (forall (index : Nat) (row : TableState), table.states[index]? = some row ->
        grammar.Compacts index row ∧
          (forall name place, row.reduce.get? name = some place -> place < row.rules.size) ∧
          forall name first second, grammar.Completes index first name ->
            grammar.Completes index second name -> first = second) ∧
      table.conflicts.Pairwise ResolvedConflict.Before ∧
      forall conflict, conflict ∈ table.conflicts ↔ grammar.Drops conflict) := by
  constructor
  · constructor
    · rintro ⟨lookahead, first, second, failed⟩
      rcases clash_of_toTable failed with ⟨index, name, left, right, different, one, two, _⟩
      exact ⟨index, name, left, right, different, one, two⟩
    · intro clashes
      cases result : (Automaton.ofGrammar grammar).toTable with
      | ok table => exact (not_clashes_of_toTable result clashes).elim
      | error error =>
          rcases clash_of_toTable result with ⟨_, lookahead, _, _, _, _, _, same⟩
          exact ⟨lookahead, _, _, congrArg Except.error same⟩
  · intro none
    cases result : (Automaton.ofGrammar grammar).toTable with
    | error error =>
        rcases clash_of_toTable result with ⟨index, name, left, right, different, one, two, _⟩
        exact (none ⟨index, name, left, right, different, one, two⟩).elim
    | ok table =>
        have compacted := compacts_toTable result
        refine ⟨table, rfl, compacted.1, ?_, conflicts_toTable result⟩
        intro index row found
        have compacts := compacted.2 index row found
        refine ⟨compacts, ?_, ?_⟩
        · intro name place reduced
          rcases (compacts.reduce name place).mp reduced with ⟨_, production, atPlace, _⟩
          have inside := (List.getElem?_eq_some_iff.mp atPlace).1
          have length := congrArg List.length compacts.rules
          rw [List.length_map, List.length_map, Array.length_toList] at length
          exact length ▸ inside
        · intro name first second left right
          by_contra different
          exact none ⟨index, name, first, second, different, left, right⟩

/-- Conditionals with or without an alternative: the alternative is taken for that of the innermost
conditional. -/
theorem toTable_faithful_conditional :
    let grammar : PlainGrammar :=
      ⟨[⟨"S", [⟨["if", "S"], .report, none⟩, ⟨["if", "S", "else", "S"], .report, none⟩,
        ⟨["x"], .report, none⟩], false⟩]⟩
    ¬ grammar.Clashes ∧ Exists fun table => (Automaton.ofGrammar grammar).toTable = .ok table ∧
      table.conflicts = [⟨3, "else", "S -> if S"⟩] ∧
      forall conflict, conflict ∈ table.conflicts ↔ grammar.Drops conflict := by
  intro grammar
  have made : (Automaton.ofGrammar grammar).toTable = .ok _ := eq_ok_of_isOk (by decide +kernel)
  have resolved : (Automaton.ofGrammar grammar).toTable.map (·.conflicts) =
      .ok [⟨3, "else", "S -> if S"⟩] := by decide +kernel
  have unclashed := not_clashes_of_toTable made
  rcases (toTable_faithful grammar).2 unclashed with ⟨table, found, _, _, _, members⟩
  rw [found] at resolved
  exact ⟨unclashed, table, found, Except.ok.inj resolved, members⟩

end PlainGrammar

end ShiftReduce
