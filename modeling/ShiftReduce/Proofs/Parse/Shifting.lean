import ShiftReduce.Proofs.Parse.Safety
import ShiftReduce.Proofs.Parse.Stack
import ShiftReduce.Proofs.Parse.Steps

namespace ShiftReduce

/-!
# What stands on a stack

Every token on a stack has the name that the state below it asks for, and it is there for one of two
reasons.  It stands for a rule that was reduced, and then it has the name of a nonterminal and no
text; or it is a token of the source.  This holds of all grammars that have a table, of all sources
and at every point of a run, also when the run has failed.

Whether the name that a state asks for is that of a rule plays no part in shifting a token of the
source.  A table has one map for both kinds of names, so a token that is named like a rule stands in
for the rule, with no reduction and with text where the rule would have none.  If no such token is
offered, the tokens with text on a stack are those that the grammar has no productions for.
-/

/-- A token that stands on a stack stands for a rule, or it is one that the source has offered. -/
def Setting.Accounted {σ : Type} (setting : Setting σ) (plain : PlainGrammar)
    (heard : List Answer) (token : Token) : Prop :=
  (token.isSynthetic = true ∧ plain.IsNonterminal token.name) ∨
    (token.name ∉ setting.skip ∧ .ok (some token) ∈ heard)

/-- The state below asks for the name: an item has it behind the dot. -/
def PlainGrammar.Asks (plain : PlainGrammar) (below : List Frame) (name : String) : Prop :=
  Exists fun core => Exists fun rest =>
    plain.InClosure (plain.kernels (stateOf below)) core ∧
      plain.fromDot core.production core.dot = name :: rest

variable {σ : Type} {setting : Setting σ} {plain : PlainGrammar} {heard : List Answer}
  {machine : Machine σ}

/-- What a machine has on its stack, and what it is about to put there, can be accounted for. -/
structure Vouched (setting : Setting σ) (plain : PlainGrammar) (heard : List Answer)
    (machine : Machine σ) : Prop where
  stacked : Stacked plain setting.table plain.kernels machine.stack
  frames : forall frame, frame ∈ machine.stack -> setting.Accounted plain heard frame.token
  made : forall token, machine.lookahead.made = some token ->
    token.isSynthetic = true ∧ plain.IsNonterminal token.name
  waiting : forall token, machine.lookahead.waiting = some (some token) ->
    token.name ∉ setting.skip ∧ .ok (some token) ∈ heard

theorem vouched_start (state : σ) : Vouched setting plain [] (.start state) :=
  ⟨.empty, fun _ impossible => (List.not_mem_nil impossible).elim,
    fun _ impossible => (by cases impossible), fun _ impossible => (by cases impossible)⟩

namespace Vouched

theorem mono (vouched : Vouched setting plain heard machine) (more : List Answer) :
    Vouched setting plain (heard ++ more) machine :=
  ⟨vouched.stacked,
    fun frame member => (vouched.frames frame member).imp_right fun offered =>
      ⟨offered.1, List.mem_append_left _ offered.2⟩,
    vouched.made,
    fun token waits => ⟨(vouched.waiting token waits).1,
      List.mem_append_left _ (vouched.waiting token waits).2⟩⟩

/-- A frame is pushed whose token the state asks for. -/
theorem push (drives : Drives plain setting.table plain.kernels)
    (vouched : Vouched setting plain heard machine) {row : TableState}
    (found : setting.table.states[machine.state]? = some row) {token : Token} {target : Nat}
    (shifts : row.shift.get? token.name = some target)
    (accounted : setting.Accounted plain heard token) {lookahead : Lookahead}
    (fresh : lookahead.made = none)
    (waiting : forall token, lookahead.waiting = some (some token) ->
      machine.lookahead.waiting = some (some token)) :
    Vouched setting plain heard
      { machine with stack := ⟨token, target⟩ :: machine.stack, lookahead } := by
  rw [state_eq] at found
  refine ⟨vouched.stacked.shift drives found shifts, ?_, ?_,
    fun token waits => vouched.waiting token (waiting token waits)⟩
  · intro frame member
    rcases List.mem_cons.mp member with rfl | before
    · exact accounted
    · exact vouched.frames frame before
  · intro token impossible
    dsimp only at impossible
    rw [fresh] at impossible
    cases impossible

/-- A reduction takes frames away, and the rule is a nonterminal. -/
theorem reduce (vouched : Vouched setting plain heard machine) {waiting : Option Token}
    (ready : machine.lookahead = .ready waiting) {rule : ReduceRule}
    (nonterminal : plain.IsNonterminal rule.nonterminal) :
    Vouched setting plain heard (setting.reduce machine rule waiting).machine := by
  unfold Setting.reduce
  split
  · exact vouched
  next popped stack pops =>
    rcases Frame.of_pop pops with ⟨top, split, _⟩
    have stacked : Stacked plain setting.table plain.kernels stack :=
      (split ▸ vouched.stacked).of_append
    have frames : forall frame, frame ∈ stack -> setting.Accounted plain heard frame.token :=
      fun frame member => vouched.frames frame (split ▸ List.mem_append_right _ member)
    have later := vouched.waiting
    rw [ready] at later
    split
    · exact vouched
    · dsimp only
      split
      · exact ⟨stacked, frames, vouched.made, vouched.waiting⟩
      · split
        · exact ⟨stacked, frames, vouched.made, vouched.waiting⟩
        · refine ⟨stacked, frames, ?_, later⟩
          intro token same
          cases same
          exact ⟨rfl, nonterminal⟩

/-- What is on the stack can be accounted for after each step. -/
theorem step (drives : Drives plain setting.table plain.kernels)
    (vouched : Vouched setting plain heard machine) :
    Vouched setting plain (heard ++ (setting.answer? machine).toList)
      (setting.step machine).machine := by
  have later := vouched.mono (setting.answer? machine).toList
  have steps := setting.steps_step machine
  generalize setting.step machine = progress at steps ⊢
  cases steps with
  | lost | interrupted | rejected | unnamed => exact later
  | failed row error source found unread reply =>
      exact ⟨later.stacked, later.frames, later.made, later.waiting⟩
  | exhausted row source found unread reply =>
      exact ⟨later.stacked, later.frames, fun _ impossible => (by cases impossible),
        fun _ impossible => (by cases impossible)⟩
  | skipped row token source found unread reply skip =>
      exact ⟨later.stacked, later.frames, later.made, later.waiting⟩
  | received row token source found unread reply kept =>
      refine ⟨later.stacked, later.frames, fun _ impossible => (by cases impossible), ?_⟩
      intro other same
      cases same
      rw [Setting.answer?_of_reply unread found reply]
      exact ⟨kept, List.mem_append_right _ (List.mem_singleton_self _)⟩
  | shifted row token target found ready shifts =>
      have offered := later.waiting token (by rw [ready]; rfl)
      exact later.push drives found shifts (Or.inr offered) rfl
        fun _ impossible => by cases impossible
  | reduced row waiting name index rule found ready claimed named =>
      rw [state_eq] at found
      rcases drives.reduce _ row name index found claimed with ⟨number, pair, known, atIndex, _⟩
      rw [Option.some.inj (named.symm.trans atIndex)]
      exact later.reduce ready ⟨pair, List.mem_of_getElem? known, rfl⟩
  | followed row nonterminal waiting target found made shifts =>
      have accounted := later.made nonterminal (by rw [made]; rfl)
      refine later.push drives found shifts (Or.inl accounted) rfl ?_
      intro token waits
      rw [made]
      exact waits

/-- So it can after a whole run. -/
theorem run (drives : Drives plain setting.table plain.kernels) (limit : Nat)
    (vouched : Vouched setting plain heard machine) :
    Vouched setting plain (heard ++ setting.answers limit machine)
      (setting.run limit machine).2 := by
  induction limit generalizing heard machine with
  | zero => exact vouched.mono []
  | succ limit inductionHypothesis =>
      have after := vouched.step drives
      rw [Setting.answers, Setting.run]
      cases result : setting.step machine with
      | running next =>
          rw [result] at after
          dsimp only
          rw [← List.append_assoc]
          exact inductionHypothesis after
      | ended outcome last =>
          rw [result] at after
          dsimp only
          rw [List.append_nil]
          exact after

end Vouched

namespace Setting

/-- Whenever a run has shifted a token, the state below asks for its name.  A token without text
stands for a nonterminal, and one with text is a token of the source that is not skipped.  So if the
source offers no token that is named like a rule with productions, the tokens with text are shifted
exactly where a terminal is asked for. -/
theorem frames_of_run {grammar : Grammar} (made : grammar.toPlain = .ok plain)
    (compiled : grammar.compile = .ok setting.table) (state : σ) (limit : Nat)
    (texts : forall token, .ok (some token) ∈ setting.answers limit (.start state) ->
      token.text.isSome = true) :
    forall above frame below,
      (setting.run limit (.start state)).2.stack = above ++ frame :: below ->
      plain.Asks below frame.token.name ∧
        (frame.token.isSynthetic = true -> plain.IsNonterminal frame.token.name) ∧
        (frame.token.isSynthetic = false -> frame.token.name ∉ setting.skip ∧
          .ok (some frame.token) ∈ setting.answers limit (.start state)) ∧
        ((forall token, .ok (some token) ∈ setting.answers limit (.start state) ->
            token.name ∉ setting.skip -> ¬ plain.IsNonterminal token.name) ->
          (frame.token.isSynthetic = true ↔ plain.IsNonterminal frame.token.name)) := by
  intro above frame below split
  rcases of_bind_eq_ok compiled with ⟨other, otherMade, tabled⟩
  rw [made, Except.ok.injEq] at otherMade
  rw [← otherMade] at tabled
  have drives := PlainGrammar.drives_toTable plain tabled
  have starts : Vouched setting plain [] (.start state) := vouched_start state
  have vouched := starts.run drives limit
  rw [List.nil_append] at vouched
  have stacked := vouched.stacked
  rw [split] at stacked
  have accounted := vouched.frames frame (split ▸ List.mem_append_right _ List.mem_cons_self)
  have nonterminal : frame.token.isSynthetic = true -> plain.IsNonterminal frame.token.name := by
    intro synthetic
    rcases accounted with reduced | offered
    · exact reduced.2
    · have real := Token.real_of_text (texts frame.token offered.2)
      rw [synthetic] at real
      cases real
  have offered : frame.token.isSynthetic = false -> frame.token.name ∉ setting.skip ∧
      .ok (some frame.token) ∈ setting.answers limit (.start state) := by
    intro real
    rcases accounted with reduced | offered
    · rw [reduced.1] at real
      cases real
    · exact offered
  refine ⟨?_, nonterminal, offered, ?_⟩
  · cases stacked.of_append with
    | push _ _ core rest _ _ _ member dotted => exact ⟨core, rest, member, dotted⟩
  · intro apart
    refine ⟨nonterminal, fun isNonterminal => ?_⟩
    by_contra real
    have given := offered (Bool.eq_false_iff.mpr real)
    exact apart frame.token given.2 given.1 isNonterminal

/-- An item is shifted at the start of a list. -/
theorem frames_of_run_oneOrTwo :
    Exists fun plain => Exists fun frame => Grammar.oneOrTwo.toPlain = .ok plain ∧
      (oneOrTwo.run 2 (.start .twoItems)).2.stack = [frame] ∧ plain.Asks [] frame.token.name ∧
      (frame.token.isSynthetic = true ↔ plain.IsNonterminal frame.token.name) := by
  have made : Grammar.oneOrTwo.toPlain = .ok _ := eq_ok_of_isOk (by decide +kernel)
  have each : forall answer, answer ∈ oneOrTwo.answers 2 (.start .twoItems) ->
      forall token, token ∈ answer.toOption.join -> token.text.isSome = true ∧
        ¬ (Grammar.oneOrTwo.toPlain.toOption.getD default).IsNonterminal token.name := by
    decide +kernel
  have single : (oneOrTwo.run 2 (.start .twoItems)).2.stack =
      [] ++ ⟨⟨"item", some "a", default⟩, 2⟩ :: [] := by decide +kernel
  have vouched := frames_of_run made compiled_oneOrTwo .twoItems 2
    (fun token asked => (each _ asked token rfl).1) [] _ [] single
  exact ⟨_, _, made, single, vouched.1,
    vouched.2.2.2 fun token asked _ => (each _ asked token rfl).2⟩

end Setting

/-! ## A token named like a rule -/

/-- A rule and a terminal. -/
def Grammar.ruleThenTerminal : Grammar :=
  ⟨[⟨"S", [{ symbols := [.name "A", .name "b"] }]⟩, ⟨"A", [{ symbols := [.name "a"] }]⟩],
    by decide⟩

/-- The first token is named like the rule. -/
def TokenList.ruleNamed : TokenList :=
  ⟨[⟨"A", some "x", default⟩, ⟨"b", some "b", default⟩], default, none⟩

/-- A run of the grammar's table. -/
def Setting.ruleThenTerminal : Setting TokenList :=
  ⟨(Grammar.ruleThenTerminal.compile.toOption).getD default, TokenList.source, [], none⟩

/-- A token with text can be shifted although its name is that of a rule. -/
theorem Setting.shifts_rule_named :
    ¬ forall (grammar : Grammar) (setting : Setting TokenList) (state : TokenList) (limit : Nat),
      grammar.compile = .ok setting.table ->
      (forall token, .ok (some token) ∈ setting.answers limit (.start state) ->
        token.text.isSome = true) ->
      forall frame, frame ∈ (setting.run limit (.start state)).2.stack ->
        frame.token.text.isSome = true -> frame.token.name ∉ grammar.ruleNames := by
  intro never
  have compiled : Grammar.ruleThenTerminal.compile = .ok ruleThenTerminal.table :=
    eq_ok_of_isOk (by decide +kernel)
  have each : forall answer, answer ∈ ruleThenTerminal.answers 2 (.start .ruleNamed) ->
      forall token, token ∈ answer.toOption.join -> token.text.isSome = true := by decide +kernel
  have single : (ruleThenTerminal.run 2 (.start .ruleNamed)).2.stack =
      [⟨⟨"A", some "x", default⟩, 1⟩] := by decide +kernel
  refine never Grammar.ruleThenTerminal ruleThenTerminal .ruleNamed 2 compiled
    (fun token asked => each _ asked token rfl) ⟨⟨"A", some "x", default⟩, 1⟩ ?_ rfl (by decide)
  rw [single]
  exact List.mem_singleton_self _

end ShiftReduce
