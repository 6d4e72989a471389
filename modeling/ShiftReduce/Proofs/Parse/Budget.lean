import ShiftReduce.Proofs.Parse.Planting
import ShiftReduce.Proofs.Parse.Progress

namespace ShiftReduce

/-!
# Runs with a budget

A run pays for its steps with what it has heard and with the trees that it has grown.  Trees are small
if every production weighs less than its name: what they have in nodes is missing from the weight of
their roots.  The roots are the tokens on the stack, and a stack does not weigh much if every state has
a height that the entries of the table climb by what they put on the stack.

So the length of a run is bounded by the tokens that it has read, whether they are those of a sentence
or not, and a run that has taken more steps has ended.  For this, neither the lookaheads nor the effects
of productions matter.
-/

variable {σ : Type} {setting : Setting σ} {plain : PlainGrammar} {table : Table}
  {weight : String -> Int} {height : Nat -> Int}

/-! ## Stacks that do not weigh much -/

/-- Every frame was put on the stack by an entry of the table. -/
inductive Tracked (table : Table) : List Frame -> Prop where
  | empty : Tracked table []
  | push (frame : Frame) (below : List Frame) (row : TableState) (tracked : Tracked table below)
      (found : table.states[stateOf below]? = some row)
      (entered : row.shift.get? frame.token.name = some frame.state) :
      Tracked table (frame :: below)

theorem Tracked.of_append {top below : List Frame} (tracked : Tracked table (top ++ below)) :
    Tracked table below := by
  induction top with
  | nil => exact tracked
  | cons frame rest inductionHypothesis =>
      cases tracked with
      | push _ _ row tracked => exact inductionHypothesis tracked

/-- A reduction leaves a part of the stack. -/
theorem Setting.stack_of_reduce {machine next : Machine σ} {rule : ReduceRule}
    {waiting : Option Token} (goes : setting.reduce machine rule waiting = .running next) :
    Exists fun top => machine.stack = top ++ next.stack := by
  unfold Setting.reduce at goes
  split at goes
  · cases goes
  next popped below pops =>
    rcases Frame.of_pop pops with ⟨top, divided, _⟩
    split at goes
    · cases goes
    · dsimp only at goes
      split at goes
      · cases goes
      · split at goes
        · cases goes
        · cases goes
          exact ⟨top, divided⟩

theorem Tracked.step {machine next : Machine σ} (tracked : Tracked setting.table machine.stack)
    (goes : setting.step machine = .running next) : Tracked setting.table next.stack := by
  have steps := setting.steps_step machine
  generalize setting.step machine = progress at steps goes
  cases steps with
  | lost | failed | interrupted | rejected | unnamed => cases goes
  | exhausted | skipped | received =>
      cases goes
      exact tracked
  | shifted row token target found ready shifts =>
      cases goes
      rw [state_eq] at found
      exact .push ⟨token, target⟩ machine.stack row tracked found shifts
  | reduced row waiting name index rule =>
      rcases Setting.stack_of_reduce goes with ⟨top, divided⟩
      exact (divided ▸ tracked).of_append
  | followed row nonterminal waiting target found made shifts =>
      cases goes
      rw [state_eq] at found
      exact .push ⟨nonterminal, target⟩ machine.stack row tracked found shifts

/-- Every entry of the table climbs from its state by the weight of its name. -/
structure Climbs (table : Table) (weight : String -> Int) (height : Nat -> Int) : Prop where
  start : 0 ≤ height 0
  entry : forall (state : Nat) (row : TableState) (name : String) (target : Nat),
    table.states[state]? = some row -> row.shift.get? name = some target ->
    height state + weight name ≤ height target

/-- A stack weighs no more than its state is high. -/
theorem Tracked.weight_le (climbs : Climbs table weight height) {stack : List Frame}
    (tracked : Tracked table stack) : ((namesOf stack).map weight).sum ≤ height (stateOf stack) := by
  induction tracked with
  | empty => exact climbs.start
  | push frame below row _ found entered inductionHypothesis =>
      have climbed := climbs.entry _ row _ _ found entered
      have top : stateOf (frame :: below) = frame.state := rfl
      rw [namesOf, List.map_cons, List.map_cons, List.sum_cons, top]
      rw [namesOf] at inductionHypothesis
      omega

/-! ## How long a run can be -/

/-- A run that is not finished has taken all of its steps, and what each of them preserves is true of
the machine that it has come to. -/
theorem Setting.run_unfinished {holds : Machine σ -> List Answer -> Nat -> Prop}
    (kept : forall machine next heard steps, holds machine heard steps ->
      setting.step machine = .running next ->
      holds next (heard ++ (setting.answer? machine).toList) (steps + 1))
    {limit : Nat} {machine : Machine σ} {heard : List Answer} {steps : Nat}
    (begun : holds machine heard steps)
    (unfinished : (setting.run limit machine).1 = .unfinished) :
    holds (setting.run limit machine).2 (heard ++ setting.answers limit machine) (steps + limit) := by
  induction limit generalizing machine heard steps with
  | zero =>
      rw [answers, List.append_nil]
      exact begun
  | succ limit inductionHypothesis =>
      rw [run] at unfinished ⊢
      rw [answers]
      cases goes : setting.step machine with
      | ended outcome last =>
          rw [goes] at unfinished
          exact (ne_unfinished_of_step goes unfinished).elim
      | running next =>
          rw [goes] at unfinished
          have later := inductionHypothesis (kept machine next heard steps begun goes) unfinished
          rwa [List.append_assoc, Nat.add_assoc, Nat.add_comm 1] at later

/-- Whether a name is cheap and how high a state is, both between fixed bounds. -/
structure Bounded (weight : String -> Int) (height : Nat -> Int) (least most top : Nat) : Prop where
  least : forall name, -(least : Int) ≤ weight name
  most : forall name, weight name ≤ most
  top : forall state, height state ≤ top

theorem Bounded.weight_ge {least most top : Nat} (bounded : Bounded weight height least most top)
    (word : List Token) :
    -((least * word.length : Nat) : Int) ≤ (word.map fun token => weight token.name).sum := by
  induction word with
  | nil => exact Int.le_refl _
  | cons token rest inductionHypothesis =>
      have cheap := bounded.least token.name
      rw [List.map_cons, List.sum_cons, List.length_cons, Nat.mul_succ]
      omega

/-- The tokens of a machine weigh little, however many there are. -/
theorem weight_tokens_le (climbs : Climbs setting.table weight height) {least most top : Nat}
    (bounded : Bounded weight height least most top) {machine : Machine σ}
    (tracked : Tracked setting.table machine.stack) :
    ((machine.tokens.map Token.name).map weight).sum ≤ top + most := by
  have stack := Int.le_trans (tracked.weight_le climbs) (bounded.top _)
  have onStack : (((Frame.tokensOf machine.stack).map Token.name).map weight).sum =
      ((namesOf machine.stack).map weight).sum := by
    rw [Frame.names_tokensOf, List.map_reverse, List.sum_reverse]
  unfold Machine.tokens
  rw [List.map_append, List.map_append, List.sum_append, onStack]
  cases machine.lookahead.made with
  | none =>
      rw [Option.toList_none, List.map_nil, List.map_nil, List.sum_nil]
      omega
  | some token =>
      have made := bounded.most token.name
      rw [Option.toList_some, List.map_singleton, List.map_singleton, List.sum_singleton]
      omega

/-- How a machine stands whose run has a budget: with a stack that the table has made, and with trees
that have been grown in so many steps. -/
def Budgeted (setting : Setting σ) (plain : PlainGrammar) (machine : Machine σ)
    (heard : List Answer) (steps : Nat) : Prop :=
  Tracked setting.table machine.stack ∧ Exists fun trees => Exists fun word =>
    Planted setting plain heard machine trees word steps

theorem budgeted_start (state : σ) : Budgeted setting plain (.start state) [] 0 :=
  ⟨.empty, [], [], planted_start state⟩

theorem Budgeted.step (drives : Drives plain setting.table plain.kernels)
    (offers : forall state preference token,
      (setting.source.next state preference).1 = .ok (some token) ->
      token.isSynthetic = false ∧ ¬ plain.IsNonterminal token.name) {machine next : Machine σ}
    {heard : List Answer} {steps : Nat} (budgeted : Budgeted setting plain machine heard steps)
    (goes : setting.step machine = .running next) :
    Budgeted setting plain next (heard ++ (setting.answer? machine).toList) (steps + 1) := by
  rcases budgeted with ⟨tracked, trees, word, planted⟩
  have grown := planted.step drives fun token asked => by
    unfold Setting.answer? at asked
    split at asked
    · exact offers _ _ token (Option.some.inj asked)
    · cases asked
  rw [goes] at grown
  cases grown with
  | running _ trees word _ planted => exact ⟨tracked.step goes, trees, word, planted⟩

/-- The steps of a machine are paid for by the tokens that it has read. -/
theorem Budgeted.steps_le (pays : forall pair, pair ∈ plain.productions ->
      (pair.2.symbols.map weight).sum + 1 ≤ weight pair.1.name)
    (climbs : Climbs setting.table weight height) {least most top : Nat}
    (bounded : Bounded weight height least most top) {machine : Machine σ} {heard : List Answer}
    {steps : Nat} (budgeted : Budgeted setting plain machine heard steps) :
    Exists fun tokens : List Token =>
      tokens.map (fun token => .ok (some token)) <+: heard ∧
      steps ≤ 2 * (least + 1) * tokens.length + 2 * (top + most) + 1 := by
  rcases budgeted with ⟨tracked, trees, word, planted⟩
  have small := planted.grows.nodeCount_le pays
  have light := weight_tokens_le climbs bounded tracked
  have heavy := bounded.weight_ge word
  have spent := planted.spent
  rcases planted.answers with ⟨tokens, all, read⟩
  refine ⟨tokens, ?_, ?_⟩
  · rw [all]
    exact List.prefix_append _ _
  · have few : word.length ≤ tokens.length := by
      have length := congrArg List.length read
      have filtered : (setting.unskipped tokens).length ≤ tokens.length := List.length_filter_le _ _
      rw [List.length_append] at length
      omega
    have asked : heard.length ≤ tokens.length + 1 := by
      rw [all, List.length_append, List.length_map]
      split
      · exact Nat.le_refl _
      · exact Nat.le_succ _
    have paid := Nat.mul_le_mul_left least few
    rw [Nat.mul_assoc, Nat.add_one_mul least]
    omega

/-- A run that is not finished has not taken more steps than the tokens pay for that it has read. -/
theorem Setting.limit_le_of_unfinished (drives : Drives plain setting.table plain.kernels)
    (pays : forall pair, pair ∈ plain.productions ->
      (pair.2.symbols.map weight).sum + 1 ≤ weight pair.1.name)
    (climbs : Climbs setting.table weight height) {least most top : Nat}
    (bounded : Bounded weight height least most top)
    (offers : forall state preference token,
      (setting.source.next state preference).1 = .ok (some token) ->
      token.isSynthetic = false ∧ ¬ plain.IsNonterminal token.name) {state : σ} {limit : Nat}
    (unfinished : (setting.run limit (.start state)).1 = .unfinished) :
    Exists fun tokens : List Token =>
      tokens.map (fun token => .ok (some token)) <+: setting.answers limit (.start state) ∧
      limit ≤ 2 * (least + 1) * tokens.length + 2 * (top + most) + 1 := by
  have standing := run_unfinished (fun _ _ _ _ budgeted goes => budgeted.step drives offers goes)
    (budgeted_start state) unfinished
  rw [List.nil_append, Nat.zero_add] at standing
  exact standing.steps_le pays climbs bounded

end ShiftReduce
