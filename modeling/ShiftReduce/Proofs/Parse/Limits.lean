import ShiftReduce.Proofs.Grammar.Origins
import ShiftReduce.Proofs.Parse.Failures
import ShiftReduce.Proofs.Parse.Steps
import ShiftReduce.Proofs.Table.Intact

namespace ShiftReduce

/-!
# Who is named when a repetition has a group too many

A run that ends because a repetition has too many groups names the rule in whose production the
repetition is written.  It knows the rule from the name of the collection only, which is that of the
helper of the repetition, and takes the part in front of the first mark.  So it names the rule also for
a repetition inside of other operators.

A grammar that is refused is treated differently.  There the draft is named which an operator stands in,
and for an operator inside of others this is a helper.
-/

namespace Halt

/-- The rule that has a group too many, and how many groups it may have. -/
def limit? : Halt -> Option (String × Nat)
  | .failed (.repetitionLimit rule most _ _ _) => some (rule, most)
  | _ => none

end Halt

namespace Outcome

/-- The rule that has a group too many at the end of a run, and how many groups it may have. -/
def limit? : Outcome -> Option (String × Nat)
  | .stopped halt => halt.limit?
  | _ => none

end Outcome

variable {name : String} {most : Nat} {halt : Halt}

/-! ## One reduction -/

theorem Halt.IsInternal.limit_eq_none (internal : halt.IsInternal) : halt.limit? = none := by
  rcases internal with ⟨_, _, rfl⟩
  rfl

/-- Below any number of merges the effect gathers groups for the named rule, of which there may be
`most`. -/
def Emit.Limits (emit : Emit) (name : String) (most : Nat) : Prop :=
  0 < most ∧ Exists fun collector => Exists fun group =>
    emit.innermost = .repetition collector most group ∧ Collections.ownerOf collector = name

/-- A reduction has a group too many only beyond its own limit. -/
theorem ReduceRule.limits_of_reduce {rule : ReduceRule} {popped : List Token}
    {collections : Collections} (failed : rule.reduce popped collections = .error halt)
    (limit : halt.limit? = some (name, most)) : rule.emit.Limits name most := by
  rcases effect_eq_error failed with ⟨collector, max, group, _, innermost, fails⟩
  cases fails with
  | uncollected _ internal => cases internal.limit_eq_none.symm.trans limit
  | childless => cases limit
  | exceeding culprit limited =>
      cases limit
      exact ⟨limited, collector, group, innermost, rfl⟩

/-! ## Whole runs -/

/-- Some rule of some row gathers groups for the named rule, of which there may be `most`. -/
def Table.Limits (table : Table) (name : String) (most : Nat) : Prop :=
  Exists fun row => row ∈ table.states ∧
    Exists fun rule => rule ∈ row.rules ∧ rule.emit.Limits name most

namespace Setting

variable {σ : Type} {setting : Setting σ} {machine last : Machine σ} {outcome : Outcome}

private theorem limits_of_reduce {row : TableState}
    (found : setting.table.states[machine.state]? = some row) {index : Nat} {rule : ReduceRule}
    (named : row.rules[index]? = some rule) {waiting : Option Token}
    (ended : setting.reduce machine rule waiting = .ended outcome last)
    (limit : outcome.limit? = some (name, most)) : setting.table.Limits name most := by
  unfold Setting.reduce at ended
  split at ended
  next halt popFails =>
    cases ended
    cases (Frame.pop_eq_error popFails).limit_eq_none.symm.trans limit
  next popped below _ =>
    split at ended
    next halt effectFails =>
      cases ended
      exact ⟨row, Array.mem_of_getElem? found, rule, Array.mem_of_getElem? named,
        rule.limits_of_reduce effectFails limit⟩
    next collections call _ =>
      dsimp only at ended
      split at ended
      next halt nodesFail =>
        cases ended
        cases (nodesAfter_eq_error nodesFail).limit_eq_none.symm.trans limit
      next =>
        split at ended
        · cases ended
          cases limit
        · cases ended

/-- A step ends a run for too many groups only by a rule of the table that gathers them. -/
theorem limits_of_step (ended : setting.step machine = .ended outcome last)
    (limit : outcome.limit? = some (name, most)) : setting.table.Limits name most := by
  have steps := setting.steps_step machine
  rw [ended] at steps
  generalize progressed : Progress.ended outcome last = progress at steps
  cases steps with
  | lost | interrupted | unnamed =>
      cases progressed
      cases limit
  | failed row error =>
      cases progressed
      cases error <;> cases limit
  | rejected waiting waits =>
      cases progressed
      unfold rejection at limit
      cases waiting <;> cases limit
  | exhausted | skipped | received | shifted | followed => cases progressed
  | reduced row waiting name index rule found ready claimed named =>
      exact limits_of_reduce found named progressed.symm limit

theorem limits_of_run (steps : Nat) (machine : Machine σ)
    (limit : (setting.run steps machine).1.limit? = some (name, most)) :
    setting.table.Limits name most := by
  induction steps generalizing machine with
  | zero => cases limit
  | succ steps inductionHypothesis =>
      rw [Setting.run] at limit
      cases progressed : setting.step machine with
      | running next =>
          rw [progressed] at limit
          exact inductionHypothesis next limit
      | ended outcome last =>
          rw [progressed] at limit
          exact limits_of_step progressed limit

/-- The outcomes that a parse has, with or without a tree. -/
def Ends (setting : Setting σ) (state : σ) (outcome : Outcome) : Prop :=
  (setting.parse state).outcome = outcome ∨ (setting.parseTree state).tree = .error outcome

/-- A parse ends as its run does, unless the nodes that are left are no tree. -/
theorem Ends.of_run {state : σ} (ends : setting.Ends state outcome) :
    (Exists fun limit => (setting.run limit (.start state)).1 = outcome) ∨
      Exists fun halt => outcome = .stopped halt ∧ halt.IsInternal := by
  rcases setting.exists_run_eq_result (.start state) with ⟨limit, run⟩
  rw [Ends, parse, parseTree, ← run, TreeResult.tree_ofRun_eq_error_iff] at ends
  rcases ends with plain | ⟨_, tree⟩ | ⟨_, halt, finishes, stopped⟩
  · exact Or.inl ⟨limit, plain⟩
  · exact Or.inl ⟨limit, tree⟩
  · exact Or.inr ⟨halt, stopped, PendingNode.finish_eq_error finishes⟩

theorem limits_of_ends {state : σ} (ends : setting.Ends state outcome)
    (limit : outcome.limit? = some (name, most)) : setting.table.Limits name most := by
  rcases ends.of_run with ⟨steps, run⟩ | ⟨halt, rfl, internal⟩
  · rw [← run] at limit
    exact limits_of_run steps (.start state) limit
  · cases internal.limit_eq_none.symm.trans limit

end Setting

/-! ## Grammars -/

namespace Grammar

open Draft

variable {grammar : Grammar}

private theorem innermost_plainProduction (owner : String) (index : Nat) (production : Production) :
    (plainProduction owner index production).emit.innermost = production.emit.innermost := by
  unfold plainProduction
  cases hasOperator production.symbols <;> rfl

/-- A table gathers groups for the rule that an operator is written in, or as the author says. -/
theorem RulesMarkless.limits_of_compile (markless : grammar.RulesMarkless) {table : Table}
    (compiled : grammar.compile = .ok table) (limits : table.Limits name most) :
    (Exists fun rule => Exists fun symbol => Exists fun least => Exists fun body =>
      rule ∈ grammar.rules ∧ rule.name = name ∧ rule.Writes symbol ∧
        repetition? symbol = some (least, most, body)) ∨
    Exists fun rule => Exists fun production => rule ∈ grammar.rules ∧
      production ∈ rule.productions ∧ production.emit.Limits name most := by
  rcases automaton_of_compile compiled with ⟨plain, made, built⟩
  rcases limits with ⟨row, rowListed, rule, inRow, positive, collector, group, innermost, owner⟩
  rcases Array.getElem?_of_mem rowListed with ⟨state, found⟩
  rcases PlainGrammar.rules_of_toTable plain built found inRow with ⟨number, pair, known, rfl⟩
  rcases draft_of_plain made (List.mem_of_getElem? known) with
    ⟨draft, index, production, drafted, atIndex, rfl⟩
  have gathers : production.emit.innermost = .repetition collector most group :=
    (innermost_plainProduction draft.name index production).symm.trans innermost
  cases drafted with
  | listed _ listed =>
      rcases List.mem_map.mp listed with ⟨written, inRules, rfl⟩
      exact Or.inr ⟨written, production, inRules, List.mem_of_getElem? atIndex, positive, collector,
        group, gathers, owner⟩
  | helper outer _ place position symbol drafted helperOf =>
      left
      rcases helperOf.place with ⟨around, atPlace, atPosition⟩
      rcases markless.rule_of_drafted drafted with ⟨written, inRules, same, operators⟩
      have writes : written.Writes symbol := operators around (List.mem_of_getElem? atPlace) symbol
        (List.mem_of_getElem? atPosition) helperOf.operator
      have belongs : Collections.ownerOf draft.name = written.name := by
        rw [helperOf.name, ownerOf_helperName, same]
      cases (expand_spec helperOf.operator helperOf.expanded).1 production
          (List.mem_of_getElem? atIndex) with
      | start least most count body front repeats =>
          cases gathers
          rw [← helperOf.name, belongs] at owner
          exact ⟨written, symbol, least, body, inRules, owner, writes, repeats⟩
      | grow least most body repeats _ =>
          cases gathers
          rw [← helperOf.name, belongs] at owner
          exact ⟨written, symbol, least, body, inRules, owner, writes, repeats⟩
      | branch => cases gathers

/-- A parse that ends at a repetition with a group too many names the rule that the repetition is written
in, however deep, unless a production of the author's gathers by itself.  A grammar that is refused for
an operator is refused in the name of the rule it is written in, if some malformed operator is inside no
other; else the name is that of a helper of the rule, and no rule has it. -/
theorem RulesMarkless.errors_name (markless : grammar.RulesMarkless) :
    (forall failure, grammar.toPlain = .error failure ->
      (grammar.rules = [] ∧ failure = .empty) ∨
      Exists fun rule => Exists fun symbol => Exists fun named => rule ∈ grammar.rules ∧
        rule.Writes symbol ∧ symbol.Fault named failure ∧ Collections.ownerOf named = rule.name ∧
        (grammar.FaultyOutside -> named = rule.name) ∧
        (¬ grammar.FaultyOutside -> named ∉ grammar.ruleNames)) ∧
    forall (σ : Type) (setting : Setting σ) (state : σ) (outcome : Outcome) (name : String)
      (most : Nat), grammar.compile = .ok setting.table ->
      setting.Ends state outcome -> outcome.limit? = some (name, most) ->
      (Exists fun rule => Exists fun symbol => Exists fun least => Exists fun body =>
        rule ∈ grammar.rules ∧ rule.name = name ∧ rule.Writes symbol ∧
          repetition? symbol = some (least, most, body)) ∨
      Exists fun rule => Exists fun production => rule ∈ grammar.rules ∧
        production ∈ rule.productions ∧ production.emit.Limits name most :=
  ⟨fun _ failed => markless.blames failed, fun _ _ _ _ _ _ compiled ends limit =>
    markless.limits_of_compile compiled (Setting.limits_of_ends ends limit)⟩

theorem rulesMarkless_boundedInside (least most : Nat) : (boundedInside least most).RulesMarkless := by
  intro rule listed
  rw [List.mem_singleton.mp listed]
  exact (by decide : '#' ∉ "A".toList)

/-- The grammar `A = (d{4,2})*` is refused in the name of the helper of the outer repetition. -/
theorem names_helper_boundedInside :
    (boundedInside 4 2).RulesMarkless ∧
    (boundedInside 4 2).toPlain = .error (.invalidBounds "A#0#0" 4 2) ∧
    "A#0#0" ∉ (boundedInside 4 2).ruleNames :=
  ⟨rulesMarkless_boundedInside 4 2, by decide +kernel, by decide⟩

end Grammar

/-- Parses with the table of `A = (d{1,2})*`. -/
def Setting.boundedInside : Setting TokenList :=
  ⟨((Grammar.boundedInside 1 2).compile.toOption).getD default, TokenList.source, [], none⟩

/-- One group more than the inner repetition allows. -/
def TokenList.overfull : TokenList :=
  ⟨List.replicate 3 ⟨"d", some "d", default⟩, default, none⟩

/-- The parse names `A` for the inner repetition, and that is where it is written. -/
theorem Setting.errors_name_boundedInside :
    (boundedInside.parse .overfull).outcome =
      .stopped (.failed (.repetitionLimit "A" 2 "d" "d" default)) ∧
    ((Exists fun rule => Exists fun symbol => Exists fun least => Exists fun body =>
      rule ∈ (Grammar.boundedInside 1 2).rules ∧ rule.name = "A" ∧ rule.Writes symbol ∧
        Draft.repetition? symbol = some (least, 2, body)) ∨
    Exists fun rule => Exists fun production => rule ∈ (Grammar.boundedInside 1 2).rules ∧
      production ∈ rule.productions ∧ production.emit.Limits "A" 2) := by
  have compiled : (Grammar.boundedInside 1 2).compile = .ok boundedInside.table :=
    eq_ok_of_isOk (by decide +kernel)
  have runs : (boundedInside.run 20 (.start .overfull)).1 =
      .stopped (.failed (.repetitionLimit "A" 2 "d" "d" default)) := by decide +kernel
  have ends := outcome_of_run runs Outcome.noConfusion
  exact ⟨ends, (Grammar.rulesMarkless_boundedInside 1 2).errors_name.2 _ boundedInside .overfull _
    "A" 2 compiled (Or.inl rfl) (by rw [ends]; rfl)⟩

end ShiftReduce
