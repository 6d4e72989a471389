import ShiftReduce.Parse.Machine

namespace ShiftReduce

/-!
# What a step does

A step asks the source for a token, shifts the lookahead, reduces a rule, shifts a rule that has been
reduced, or ends the run.  Below there is a case for each of these, with what the row of the state,
the lookahead and the answer of the source have to be.  What is true of every step is shown case by
case, and nothing else has to be known about how a step is computed.
-/

namespace Lookahead

/-- The rule that has just been reduced. -/
def made : Lookahead -> Option Token
  | .reduced nonterminal _ => some nonterminal
  | _ => none

/-- The token of the source that waits, or the end of the input; none if it is still to be read. -/
def waiting : Lookahead -> Option (Option Token)
  | .unread => none
  | .ready token => some token
  | .reduced _ token => some token

end Lookahead

/-- The machine that a step comes to. -/
def Progress.machine {σ : Type} : Progress σ -> Machine σ
  | .running machine => machine
  | .ended _ machine => machine

namespace Setting

variable {σ : Type} (setting : Setting σ)

/-- The answer that a machine gets from its source in the next step, if it asks. -/
def answer? (machine : Machine σ) : Option Answer :=
  match setting.table.states[machine.state]?, machine.lookahead with
  | some row, .unread => some (setting.source.next machine.source (.matching row.accepts)).1
  | _, _ => none

/-- The answers that a machine gets in at most `limit` steps. -/
def answers : Nat -> Machine σ -> List Answer
  | 0, _ => []
  | limit + 1, machine =>
    (setting.answer? machine).toList ++
      match setting.step machine with
      | .running next => answers limit next
      | .ended .. => []

/-- What a step comes to, and when. -/
inductive Steps (machine : Machine σ) : Progress σ -> Prop where
  | lost (missing : setting.table.states[machine.state]? = none) :
      Steps machine (.ended (.stopped .outOfRange) machine)
  | failed (row : TableState) (error : ReadError) (source : σ)
      (found : setting.table.states[machine.state]? = some row)
      (unread : machine.lookahead = .unread)
      (reply : setting.source.next machine.source (.matching row.accepts) =
        (.error error, source)) :
      Steps machine (.ended (.stopped error.halt) { machine with source })
  | exhausted (row : TableState) (source : σ)
      (found : setting.table.states[machine.state]? = some row)
      (unread : machine.lookahead = .unread)
      (reply : setting.source.next machine.source (.matching row.accepts) = (.ok none, source)) :
      Steps machine (.running { machine with source, lookahead := .ready none })
  | skipped (row : TableState) (token : Token) (source : σ)
      (found : setting.table.states[machine.state]? = some row)
      (unread : machine.lookahead = .unread)
      (reply : setting.source.next machine.source (.matching row.accepts) =
        (.ok (some token), source))
      (skip : token.name ∈ setting.skip) :
      Steps machine (.running { machine with source })
  | received (row : TableState) (token : Token) (source : σ)
      (found : setting.table.states[machine.state]? = some row)
      (unread : machine.lookahead = .unread)
      (reply : setting.source.next machine.source (.matching row.accepts) =
        (.ok (some token), source))
      (kept : token.name ∉ setting.skip) :
      Steps machine (.running { machine with source, lookahead := .ready (some token) })
  | shifted (row : TableState) (token : Token) (target : Nat)
      (found : setting.table.states[machine.state]? = some row)
      (ready : machine.lookahead = .ready (some token))
      (shifts : row.shift.get? token.name = some target) :
      Steps machine (machine.push token target .unread)
  | interrupted (token : Token) (ready : machine.lookahead = .ready (some token))
      (synthetic : token.isSynthetic = true) :
      Steps machine (machine.fail (.unexpectedEnd (setting.source.position machine.source)))
  | rejected (waiting : Option Token) (waits : machine.lookahead.waiting = some waiting) :
      Steps machine (machine.fail (setting.rejection machine waiting))
  | unnamed (row : TableState) (waiting : Option Token) (name : String) (index : Nat)
      (found : setting.table.states[machine.state]? = some row)
      (ready : machine.lookahead = .ready waiting)
      (claimed : row.reduce.get? name = some index) (missing : row.rules[index]? = none) :
      Steps machine (.ended (.stopped .outOfRange) machine)
  | reduced (row : TableState) (waiting : Option Token) (name : String) (index : Nat)
      (rule : ReduceRule) (found : setting.table.states[machine.state]? = some row)
      (ready : machine.lookahead = .ready waiting)
      (claimed : row.reduce.get? name = some index) (named : row.rules[index]? = some rule)
      (idle : forall token, waiting = some token -> row.shift.get? token.name = none)
      (key : name = (waiting.map (·.name)).getD "" ∨
        name = "" ∧ row.reduce.get? ((waiting.map (·.name)).getD "") = none) :
      Steps machine (setting.reduce machine rule waiting)
  | followed (row : TableState) (nonterminal : Token) (waiting : Option Token) (target : Nat)
      (found : setting.table.states[machine.state]? = some row)
      (made : machine.lookahead = .reduced nonterminal waiting)
      (shifts : row.shift.get? nonterminal.name = some target) :
      Steps machine (machine.push nonterminal target (.ready waiting))

variable {setting} {machine next : Machine σ}

private theorem steps_read {row : TableState}
    (found : setting.table.states[machine.state]? = some row)
    (unread : machine.lookahead = .unread) : setting.Steps machine (setting.read machine row) := by
  unfold read
  split
  next error source reply => exact .failed row error source found unread reply
  next source reply => exact .exhausted row source found unread reply
  next token source reply =>
    split
    next skip => exact .skipped row token source found unread reply skip
    next kept => exact .received row token source found unread reply kept

private theorem steps_reduceFor {row : TableState}
    (found : setting.table.states[machine.state]? = some row) {waiting : Option Token}
    (ready : machine.lookahead = .ready waiting)
    (idle : forall token, waiting = some token -> row.shift.get? token.name = none) :
    setting.Steps machine (setting.reduceFor machine row waiting) := by
  unfold reduceFor
  dsimp only
  split
  · exact .rejected waiting (by rw [ready]; rfl)
  next index claimed =>
    have either : Exists fun name => row.reduce.get? name = some index ∧
        (name = (waiting.map (·.name)).getD "" ∨
          name = "" ∧ row.reduce.get? ((waiting.map (·.name)).getD "") = none) := by
      rcases Option.or_eq_some_iff.mp claimed with own | ⟨missing, default⟩
      · exact ⟨_, own, Or.inl rfl⟩
      · exact ⟨_, default, Or.inr ⟨rfl, missing⟩⟩
    rcases either with ⟨name, claimed, key⟩
    split
    next missing => exact .unnamed row waiting name index found ready claimed missing
    next rule named =>
      exact .reduced row waiting name index rule found ready claimed named idle key

theorem steps_step (setting : Setting σ) (machine : Machine σ) :
    setting.Steps machine (setting.step machine) := by
  unfold step
  split
  next missing => exact .lost missing
  next row found =>
    split
    next unread => exact steps_read found unread
    next ready => exact steps_reduceFor found ready fun _ impossible => by cases impossible
    next token ready =>
      split
      next target shifts => exact .shifted row token target found ready shifts
      next refused =>
        split
        next synthetic => exact .interrupted token ready synthetic
        · refine steps_reduceFor found ready fun other same => ?_
          rw [← Option.some.inj same]
          exact refused
    next nonterminal waiting made =>
      split
      next target shifts => exact .followed row nonterminal waiting target found made shifts
      · exact .rejected waiting (by rw [made]; rfl)

/-! ## Answers -/

theorem answer?_of_reply (unread : machine.lookahead = .unread) {row : TableState}
    (found : setting.table.states[machine.state]? = some row) {answer : Answer} {source : σ}
    (reply : setting.source.next machine.source (.matching row.accepts) = (answer, source)) :
    setting.answer? machine = some answer := by
  unfold answer?
  rw [found, unread]
  dsimp only
  rw [reply]

end Setting

variable {σ : Type} {setting : Setting σ} {machine next : Machine σ}

theorem answer?_unread (unread : machine.lookahead = .unread) {row : TableState}
    (found : setting.table.states[machine.state]? = some row) :
    setting.answer? machine =
      some (setting.source.next machine.source (.matching row.accepts)).1 := by
  unfold Setting.answer?
  rw [found, unread]

/-- In a state that the table lacks, a run ends and asks nothing. -/
theorem step_lost (missing : setting.table.states[machine.state]? = none) :
    setting.step machine = .ended (.stopped .outOfRange) machine ∧ setting.answer? machine = none := by
  unfold Setting.step Setting.answer?
  rw [missing]
  exact ⟨rfl, rfl⟩

theorem step_unread (unread : machine.lookahead = .unread) {row : TableState}
    (found : setting.table.states[machine.state]? = some row) :
    setting.step machine = setting.read machine row := by
  unfold Setting.step
  rw [found, unread]

/-- Nothing is asked while there is a lookahead. -/
theorem answer?_waiting (waiting : machine.lookahead ≠ .unread) :
    setting.answer? machine = none := by
  unfold Setting.answer?
  split
  next isUnread => exact (waiting isUnread).elim
  · rfl

theorem answer?_of_ready {waiting : Option Token} (ready : machine.lookahead = .ready waiting) :
    setting.answer? machine = none :=
  answer?_waiting (by rw [ready]; exact Lookahead.noConfusion)

theorem answer?_of_reduced {nonterminal : Token} {waiting : Option Token}
    (made : machine.lookahead = .reduced nonterminal waiting) : setting.answer? machine = none :=
  answer?_waiting (by rw [made]; exact Lookahead.noConfusion)

/-! ## Lookahead and source -/

namespace Setting

theorem source_of_reduce {rule : ReduceRule} {waiting : Option Token}
    (goes : setting.reduce machine rule waiting = .running next) :
    next.source = machine.source ∧
      Exists fun nonterminal => next.lookahead = .reduced nonterminal waiting := by
  unfold reduce at goes
  split at goes
  · cases goes
  · split at goes
    · cases goes
    · dsimp only at goes
      split at goes
      · cases goes
      · split at goes
        · cases goes
        · cases goes
          exact ⟨rfl, _, rfl⟩

/-- A step that asks nothing does not touch the source.  It shifts the lookahead, puts a rule that has
been reduced in front of it, or shifts such a rule. -/
theorem lookahead_of_step (waiting : machine.lookahead ≠ .unread)
    (goes : setting.step machine = .running next) :
    next.source = machine.source ∧
      ((Exists fun token => machine.lookahead = .ready (some token) ∧ next.lookahead = .unread) ∨
        (Exists fun nonterminal => Exists fun ahead =>
          machine.lookahead = .ready ahead ∧ next.lookahead = .reduced nonterminal ahead) ∨
        Exists fun nonterminal => Exists fun ahead =>
          machine.lookahead = .reduced nonterminal ahead ∧ next.lookahead = .ready ahead) := by
  have steps := setting.steps_step machine
  generalize setting.step machine = progress at steps goes
  cases steps with
  | lost | failed | interrupted | rejected | unnamed => cases goes
  | exhausted row source found unread | skipped row token source found unread
  | received row token source found unread => exact (waiting unread).elim
  | shifted row token target found ready =>
      cases goes
      exact ⟨rfl, Or.inl ⟨token, ready, rfl⟩⟩
  | reduced row ahead name index rule found ready =>
      rcases source_of_reduce goes with ⟨source, nonterminal, after⟩
      exact ⟨source, Or.inr (Or.inl ⟨nonterminal, ahead, ready, after⟩)⟩
  | followed row nonterminal ahead target found made =>
      cases goes
      exact ⟨rfl, Or.inr (Or.inr ⟨nonterminal, ahead, made, rfl⟩)⟩

/-- The end of the input stays ahead. -/
theorem ended_of_step (waiting : machine.lookahead ≠ .unread)
    (goes : setting.step machine = .running next) :
    next.lookahead.waiting = some none ↔ machine.lookahead.waiting = some none := by
  rcases (lookahead_of_step waiting goes).2 with
    ⟨_, before, after⟩ | ⟨_, _, before, after⟩ | ⟨_, _, before, after⟩
  · rw [before, after]
    simp [Lookahead.waiting]
  · rw [before, after]
    rfl
  · rw [before, after]
    rfl

/-- Reading reduces nothing. -/
theorem made_of_unread (unread : machine.lookahead = .unread)
    (goes : setting.step machine = .running next) : next.lookahead.made = none := by
  have steps := setting.steps_step machine
  generalize setting.step machine = progress at steps goes
  cases steps with
  | lost | failed | interrupted | rejected | unnamed => cases goes
  | exhausted | received =>
      cases goes
      rfl
  | skipped =>
      cases goes
      rw [unread]
      rfl
  | shifted row token target found ready | reduced row ahead name index rule found ready
  | followed row nonterminal ahead target found ready =>
      rw [unread] at ready
      cases ready

/-! ## Whole runs -/

/-- A run that has ended does not take more steps. -/
theorem run_add {limit : Nat} (ended : (setting.run limit machine).1 ≠ .unfinished)
    (more : Nat) : setting.run (limit + more) machine = setting.run limit machine := by
  induction limit generalizing machine with
  | zero => exact (ended rfl).elim
  | succ limit inductionHypothesis =>
      rw [Nat.add_right_comm, run, run]
      rw [run] at ended
      split
      next next goes =>
        rw [goes] at ended
        exact inductionHypothesis ended
      · rfl

/-- A step that ends a run finishes it. -/
theorem ne_unfinished_of_step {machine last : Machine σ} {outcome : Outcome}
    (goes : setting.step machine = .ended outcome last) : outcome ≠ .unfinished := by
  have steps := setting.steps_step machine
  generalize setting.step machine = progress at steps goes
  cases steps with
  | lost | failed | interrupted | rejected | unnamed =>
      cases goes
      exact Outcome.noConfusion
  | exhausted | skipped | received | shifted | followed => cases goes
  | reduced =>
      unfold reduce at goes
      split at goes
      · cases goes
        exact Outcome.noConfusion
      · split at goes
        · cases goes
          exact Outcome.noConfusion
        · dsimp only at goes
          split at goes
          · cases goes
            exact Outcome.noConfusion
          · split at goes
            · cases goes
              exact Outcome.noConfusion
            · cases goes

/-- A run that is finished has ended after so many steps. -/
theorem exists_run_of_finish {ended : Outcome × Machine σ}
    (finished : setting.finish machine = some ended) :
    Exists fun limit => setting.run limit machine = ended ∧ ended.1 ≠ .unfinished := by
  refine finish.partial_correctness setting
    (fun machine ended =>
      Exists fun limit => setting.run limit machine = ended ∧ ended.1 ≠ .unfinished)
    (fun finish later machine ended finished => ?_) machine ended finished
  split at finished
  next next goes =>
    rcases later next ended finished with ⟨limit, same, ends⟩
    exact ⟨limit + 1, by rw [run, goes]; exact same, ends⟩
  next outcome last goes =>
    cases finished
    exact ⟨1, by rw [run, goes], ne_unfinished_of_step goes⟩

/-- A run that has ended after so many steps is finished there. -/
theorem finish_of_run {limit : Nat} (ended : (setting.run limit machine).1 ≠ .unfinished) :
    setting.finish machine = some (setting.run limit machine) := by
  induction limit generalizing machine with
  | zero => exact (ended rfl).elim
  | succ limit inductionHypothesis =>
      rw [finish, run]
      rw [run] at ended
      split
      next next goes =>
        rw [goes] at ended
        exact inductionHypothesis ended
      · rfl

theorem result_of_run {limit : Nat} (ended : (setting.run limit machine).1 ≠ .unfinished) :
    setting.result machine = setting.run limit machine := by
  rw [result, finish_of_run ended, Option.getD_some]

/-- However many steps are allowed, the run wants to take more. -/
def Endless (setting : Setting σ) (machine : Machine σ) : Prop :=
  forall limit, (setting.run limit machine).1 = .unfinished

/-- Nothing comes of a run exactly if it is endless. -/
theorem finish_eq_none_iff : setting.finish machine = none ↔ setting.Endless machine := by
  constructor
  · intro nothing limit
    refine Decidable.byContradiction fun ended => ?_
    rw [finish_of_run ended] at nothing
    cases nothing
  · intro endless
    cases finished : setting.finish machine with
    | none => rfl
    | some ended =>
        rcases exists_run_of_finish finished with ⟨limit, rfl, ends⟩
        exact (ends (endless limit)).elim

/-- What is true of a run after every number of steps is true of its result. -/
theorem exists_run_eq_result (setting : Setting σ) (machine : Machine σ) :
    Exists fun limit => setting.run limit machine = setting.result machine := by
  unfold result
  cases finished : setting.finish machine with
  | none => exact ⟨0, rfl⟩
  | some ended =>
      rcases exists_run_of_finish finished with ⟨limit, same, _⟩
      exact ⟨limit, same⟩

/-- What is true of two runs after every number of steps is true of their results, if they end at
the same time. -/
theorem exists_runs_eq_results {τ : Type} {other : Setting τ} {begun : Machine τ}
    (together : forall limit, (other.run limit begun).1 = (setting.run limit machine).1) :
    Exists fun limit => setting.run limit machine = setting.result machine ∧
      other.run limit begun = other.result begun := by
  cases finished : setting.finish machine with
  | none =>
      have endless := finish_eq_none_iff.mp finished
      have otherEndless : other.Endless begun := fun limit => (together limit).trans (endless limit)
      refine ⟨0, ?_, ?_⟩
      · rw [result, finished]
        rfl
      · rw [result, finish_eq_none_iff.mpr otherEndless]
        rfl
  | some ended =>
      rcases exists_run_of_finish finished with ⟨limit, rfl, ends⟩
      exact ⟨limit, (result_of_run ends).symm, (result_of_run (together limit ▸ ends)).symm⟩

/-- A parse is what its run has come to where it ends. -/
theorem parse_of_run {state : σ} {limit : Nat}
    (ended : (setting.run limit (.start state)).1 ≠ .unfinished) :
    setting.parse state = .ofRun (setting.run limit (.start state)) := by
  rw [parse, result_of_run ended]

theorem outcome_of_run {state : σ} {limit : Nat} {outcome : Outcome}
    (runs : (setting.run limit (.start state)).1 = outcome) (ended : outcome ≠ .unfinished) :
    (setting.parse state).outcome = outcome := by
  rw [parse_of_run (runs ▸ ended)]
  exact runs

theorem parseTree_of_run {state : σ} {limit : Nat}
    (ended : (setting.run limit (.start state)).1 ≠ .unfinished) :
    setting.parseTree state = .ofRun (setting.run limit (.start state)) := by
  rw [parseTree, result_of_run ended]

end Setting

/-! ## What runs have come to -/

namespace TreeResult

theorem calls_ofRun (ended : Outcome × Machine σ) :
    (ofRun ended).calls = (ParseResult.ofRun ended).calls := by
  rcases ended with ⟨outcome, machine⟩
  cases outcome with
  | accepted =>
      rw [ofRun]
      split <;> rfl
  | stopped | unfinished => rfl

/-- A run gives a tree if it accepts and its nodes have become one tree. -/
theorem tree_ofRun_eq_ok_iff {ended : Outcome × Machine σ} {tree : ParseTree} :
    (ofRun ended).tree = .ok tree ↔
      ended.1 = .accepted ∧ PendingNode.finish ended.2.nodes = .ok tree := by
  rcases ended with ⟨outcome, machine⟩
  cases outcome with
  | accepted =>
      rw [ofRun]
      cases PendingNode.finish machine.nodes with
      | ok _ => simp
      | error _ => simp
  | stopped | unfinished =>
      exact ⟨fun impossible => (by cases impossible), fun accepts => (by cases accepts.1)⟩

/-- A run that accepts gives no tree if its nodes have not become one tree. -/
theorem tree_ofRun_eq_error_iff {ended : Outcome × Machine σ} {outcome : Outcome} :
    (ofRun ended).tree = .error outcome ↔
      (ended.1 ≠ .accepted ∧ ended.1 = outcome) ∨
      (ended.1 = .accepted ∧ Exists fun halt =>
        PendingNode.finish ended.2.nodes = .error halt ∧ outcome = .stopped halt) := by
  rcases ended with ⟨own, machine⟩
  cases own with
  | accepted =>
      rw [ofRun]
      cases PendingNode.finish machine.nodes with
      | ok _ => simp
      | error _ => simp [eq_comm]
  | stopped | unfinished =>
      exact ⟨fun same => Or.inl ⟨Outcome.noConfusion, Except.error.inj same⟩,
        fun either => either.elim (fun same => congrArg Except.error same.2)
          fun accepts => (by cases accepts.1)⟩

end TreeResult

/-- A parse gives the tree that its run has come to. -/
theorem Setting.tree_of_run {state : σ} {limit : Nat} {tree : ParseTree}
    (runs : (TreeResult.ofRun (setting.run limit (.start state))).tree = .ok tree) :
    (setting.parseTree state).tree = .ok tree := by
  have accepted := (TreeResult.tree_ofRun_eq_ok_iff.mp runs).1
  rwa [parseTree_of_run (by rw [accepted]; exact Outcome.noConfusion)]

end ShiftReduce
