import ShiftReduce.Proofs.Grammar.Beginnings
import ShiftReduce.Proofs.Parse.Completeness
import ShiftReduce.Proofs.Parse.Planting

namespace ShiftReduce

/-!
# Rejections

A parse that meets a wrong token may go on reducing for a while, because a table reduces on tokens
that cannot follow as well.  It never shifts the wrong token, so what it has read by then is what it
had read before, and the trees that it has grown show that this begins a sentence.

That nothing goes on with the wrong token follows from completeness.  What the run does until it fails
depends on the tokens that it has read and not on the source they come from.  If some sentence went
on, a list of its tokens would lead the run to the same failure, but it has to be accepted.
-/

namespace ParseError

/-- The error blames the lookahead, be it a token or the end of the input. -/
def BlamesLookahead : ParseError -> Prop
  | .unexpectedToken .. => True
  | .unexpectedEnd _ => True
  | _ => False

end ParseError

variable {σ : Type} {setting : Setting σ} {grammar : Grammar} {plain : PlainGrammar}
  {heard : List Answer} {machine next last : Machine σ} {trees : List (DerivationTree Token)}
  {word : List Token} {steps : Nat}

/-! ## What a rejection is -/

/-- Popping blames the table. -/
theorem Frame.not_blamed_of_pop {symbols : List String} {stack : List Frame} {error : ParseError}
    (fails : Frame.pop symbols stack = .error (.failed error)) : ¬ error.BlamesLookahead := by
  unfold Frame.pop at fails
  split at fails
  · cases fails
    exact id
  · dsimp only at fails
    split at fails
    · cases fails
      exact id
    · cases fails

/-- Gathering blames the table or the number of groups. -/
theorem Collections.not_blamed_of_gather {collector : String} {most group : Nat}
    {popped children : List Token} {collections : Collections} {error : ParseError}
    (fails : collections.gather collector most group popped children = .error (.failed error)) :
    ¬ error.BlamesLookahead := by
  unfold gather at fails
  extract_lets recursive size at fails
  split at fails
  · cases fails
  · split at fails
    · cases fails
      exact id
    · split at fails
      · cases fails
      · extract_lets groups at fails
        split at fails
        · cases fails
          exact id
        · cases fails

/-- An effect blames the table or the number of groups. -/
theorem ReduceRule.not_blamed_of_effect {rule : ReduceRule} {popped children : List Token}
    {emit : Emit} {collections : Collections} {error : ParseError}
    (fails : rule.effect popped emit children collections = .error (.failed error)) :
    ¬ error.BlamesLookahead := by
  induction emit generalizing children collections with
  | none => cases fails
  | report => cases fails
  | callback identity => cases fails
  | choice collector => cases fails
  | merge inner inductionHypothesis => exact inductionHypothesis fails
  | repetition collector most group =>
      rw [effect] at fails
      cases gathered : collections.gather collector most group popped children with
      | ok after =>
          rw [gathered] at fails
          cases fails
      | error halt =>
          rw [gathered] at fails
          cases fails
          exact Collections.not_blamed_of_gather gathered

namespace Setting

/-- Making a node blames the table. -/
theorem not_blamed_of_nodesAfter {rule : ReduceRule} {popped : List Token}
    {nodes : List PendingNode} {error : ParseError}
    (fails : setting.nodesAfter rule popped nodes = .error (.failed error)) :
    ¬ error.BlamesLookahead := by
  unfold nodesAfter at fails
  split at fails
  · unfold PendingNode.reduce at fails
    dsimp only at fails
    split at fails
    · cases fails
      exact id
    · cases fails
  · cases fails

/-- A reduction that takes place does not blame the lookahead. -/
theorem not_blamed_of_reduce {rule : ReduceRule} {waiting : Option Token} {error : ParseError}
    (ends : setting.reduce machine rule waiting = .ended (.stopped (.failed error)) last) :
    ¬ error.BlamesLookahead := by
  unfold reduce at ends
  split at ends
  next halt popping =>
    cases ends
    exact Frame.not_blamed_of_pop popping
  · split at ends
    next halt effect =>
      cases ends
      exact ReduceRule.not_blamed_of_effect effect
    · dsimp only at ends
      split at ends
      next halt nodes =>
        cases ends
        exact not_blamed_of_nodesAfter nodes
      · split at ends
        · cases ends
        · cases ends

/-- A step that ends by blaming the lookahead changes nothing. -/
theorem rejected_of_step {error : ParseError}
    (ends : setting.step machine = .ended (.stopped (.failed error)) last)
    (blamed : error.BlamesLookahead)
    (real : forall token, machine.lookahead.waiting = some (some token) ->
      token.isSynthetic = false) :
    last = machine ∧ Exists fun waiting => machine.lookahead.waiting = some waiting ∧
      error = setting.rejection machine waiting := by
  have steps := setting.steps_step machine
  generalize setting.step machine = progress at steps ends
  cases steps with
  | lost | exhausted | skipped | received | shifted | unnamed | followed => cases ends
  | failed row reason =>
      cases reason with
      | lex reason =>
          cases ends
          exact blamed.elim
      | unclaimed => cases ends
  | interrupted token ready synthetic =>
      have isReal := real token (by rw [ready]; rfl)
      rw [isReal] at synthetic
      cases synthetic
  | rejected waiting waits =>
      cases ends
      exact ⟨rfl, waiting, waits, rfl⟩
  | reduced => exact (not_blamed_of_reduce ends blamed).elim

end Setting

/-! ## What has been read begins a sentence -/

/-- The root can be rewritten to the tokens and something behind them. -/
def PlainGrammar.BeginsWith (plain : PlainGrammar) (word : List Token) : Prop :=
  Exists fun rest => plain.Derives [plain.root] (word.map Token.name ++ rest)

/-- What has been read can go on, unless a rule has just been reduced and is not shifted yet. -/
theorem Planted.beginsWith (drives : Drives plain setting.table plain.kernels)
    (planted : Planted setting plain heard machine trees word steps)
    (settled : machine.lookahead.made = none) : plain.BeginsWith word := by
  have grows := planted.grows
  unfold Machine.tokens at grows
  rw [settled, Option.toList_none, List.append_nil, Frame.names_tokensOf] at grows
  have stacked := planted.stacked
  cases shape : machine.stack with
  | nil =>
      rw [shape] at grows
      cases word with
      | nil => exact ⟨[plain.root], .refl _⟩
      | cons token rest => cases grows
  | cons frame below =>
      have reaches := stacked.reaches drives
      rw [shape] at stacked reaches grows
      cases stacked with
      | push _ _ core rest _ _ moves member dotted =>
          have inside : plain.InClosure (plain.kernels frame.state) core.advance := by
            refine .kernel _ ?_
            rw [moves]
            exact ⟨core, rest, member, dotted, rfl⟩
          rcases reaches.derives inside with ⟨more, derives⟩
          exact ⟨_, derives.trans (grows.derives.append_right _)⟩

/-- The tokens read so far are known from the answers. -/
theorem Setting.Heard.unique {answers : List Answer} {left right : List Token}
    {waiting : Option (Option Token)} (first : setting.Heard answers left waiting)
    (second : setting.Heard answers right waiting) : left = right := by
  rcases first with ⟨tokens, isAnswers, isLeft⟩
  rcases second with ⟨others, sameAnswers, isRight⟩
  have same := List.append_cancel_right (isAnswers.symm.trans sameAnswers)
  have injective : Function.Injective fun token : Token => (.ok (some token) : Answer) :=
    fun _ _ equal => Option.some.inj (Except.ok.inj equal)
  rw [List.map_injective_iff.mpr injective same] at isLeft
  exact List.append_cancel_right (isLeft.symm.trans isRight)

/-- A step does not change that what has been read can go on. -/
theorem Planted.beginsWith_step (drives : Drives plain setting.table plain.kernels)
    (planted : Planted setting plain heard machine trees word steps)
    (begins : plain.BeginsWith word) (goes : setting.step machine = .running next)
    {later : List Token} {others : List (DerivationTree Token)} {more : Nat}
    (after : Planted setting plain (heard ++ (setting.answer? machine).toList) next others later
      more) : plain.BeginsWith later := by
  cases made : next.lookahead.made with
  | none => exact after.beginsWith drives made
  | some token =>
      -- A rule has been reduced, so nothing was read or shifted.
      have waiting : machine.lookahead ≠ .unread := by
        intro unread
        rw [Setting.made_of_unread unread goes] at made
        cases made
      rcases (Setting.lookahead_of_step waiting goes).2 with
        ⟨_, _, unread⟩ | ⟨nonterminal, ahead, ready, reduced⟩ | ⟨_, _, _, ready⟩
      · rw [unread] at made
        cases made
      · have before := planted.answers
        have now := after.answers
        rw [answer?_waiting waiting, Option.toList_none, List.append_nil, reduced] at now
        rw [ready] at before
        exact now.unique before ▸ begins
      · rw [ready] at made
        cases made

/-- A run that ends by blaming the lookahead has read what can go on. -/
theorem Planted.rejected (drives : Drives plain setting.table plain.kernels) (limit : Nat)
    (planted : Planted setting plain heard machine trees word steps)
    (begins : plain.BeginsWith word)
    (offers : forall token, .ok (some token) ∈ setting.answers limit machine ->
      token.isSynthetic = false ∧ ¬ plain.IsNonterminal token.name) {error : ParseError}
    (ends : (setting.run limit machine).1 = .stopped (.failed error))
    (blamed : error.BlamesLookahead) :
    Exists fun read => Exists fun waiting =>
      setting.Heard (heard ++ setting.answers limit machine) read (some waiting) ∧
      plain.BeginsWith read ∧
      error = setting.rejection (setting.run limit machine).2 waiting := by
  induction limit generalizing heard machine trees word steps with
  | zero => cases ends
  | succ limit inductionHypothesis =>
      rw [Setting.answers] at offers ⊢
      rw [Setting.run] at ends ⊢
      have grown := planted.step drives fun token asked =>
        offers token (List.mem_append_left _ (by rw [asked]; exact List.mem_singleton_self _))
      cases goes : setting.step machine with
      | running next =>
          rw [goes] at grown offers ends
          cases grown with
          | running _ others later _ after =>
              rw [← List.append_assoc]
              exact inductionHypothesis after (planted.beginsWith_step drives begins goes after)
                (fun token inside => offers token (List.mem_append_right _ inside)) ends
      | ended outcome last =>
          rw [goes] at ends
          dsimp only at ends ⊢
          rw [ends] at goes
          rcases Setting.rejected_of_step goes blamed fun token waits =>
            (planted.waiting token waits).1 with ⟨rfl, waiting, waits, isError⟩
          have unasked : last.lookahead ≠ .unread := by
            intro unread
            rw [unread] at waits
            cases waits
          have soFar := planted.answers
          rw [waits] at soFar
          rw [answer?_waiting unasked, Option.toList_none, List.append_nil, List.append_nil]
          exact ⟨word, waiting, soFar, begins, isError⟩

/-! ## The same run over a list -/

/-- The table over lists of tokens, none of which is skipped. -/
def Setting.overList (setting : Setting σ) : Setting TokenList :=
  ⟨setting.table, TokenList.source, [], setting.keep⟩

/-- The end of the input has not been read.  If something waits, it is a token of the source. -/
structure Machine.BeforeEnd (machine : Machine σ) : Prop where
  unended : machine.lookahead.waiting ≠ some none
  real : forall token, machine.lookahead.waiting = some (some token) -> token.isSynthetic = false

theorem Machine.beforeEnd_unread (unread : machine.lookahead = .unread) : machine.BeforeEnd := by
  constructor
  · rw [unread]
    exact fun impossible => by cases impossible
  · rw [unread]
    exact fun _ impossible => by cases impossible

theorem Machine.beforeEnd_ready {token : Token} (ready : machine.lookahead = .ready (some token))
    (real : token.isSynthetic = false) : machine.BeforeEnd := by
  constructor
  · rw [ready]
    exact fun impossible => by cases impossible
  · rw [ready]
    intro other same
    cases same
    exact real

theorem Machine.BeforeEnd.step (before : machine.BeforeEnd) (waiting : machine.lookahead ≠ .unread)
    (goes : setting.step machine = .running next) : next.BeforeEnd := by
  rcases (Setting.lookahead_of_step waiting goes).2 with
    ⟨_, _, unread⟩ | ⟨_, _, ready, reduced⟩ | ⟨_, _, reduced, ready⟩
  · exact Machine.beforeEnd_unread unread
  · have same : next.lookahead.waiting = machine.lookahead.waiting := by rw [ready, reduced]; rfl
    exact ⟨same ▸ before.unended, same ▸ before.real⟩
  · have same : next.lookahead.waiting = machine.lookahead.waiting := by rw [ready, reduced]; rfl
    exact ⟨same ▸ before.unended, same ▸ before.real⟩

/-- The machine in front of a list of tokens. -/
def Machine.overList (machine : Machine σ) (tokens : List Token) : Machine TokenList :=
  ⟨machine.stack, machine.lookahead, ⟨tokens, default, none⟩, machine.collections, machine.nodes,
    machine.calls⟩

/-- The machine of a step in front of a list of tokens. -/
def Progress.overList (tokens : List Token) : Progress σ -> Progress TokenList
  | .running machine => .running (machine.overList tokens)
  | .ended outcome machine => .ended outcome (machine.overList tokens)

namespace Setting

theorem reduce_overList (rule : ReduceRule) (token : Token) (tokens : List Token) :
    setting.overList.reduce (machine.overList tokens) rule (some token) =
      (setting.reduce machine rule (some token)).overList tokens := by
  have sameStack : (machine.overList tokens).stack = machine.stack := rfl
  have sameCollections : (machine.overList tokens).collections = machine.collections := rfl
  have sameNodes : forall popped nodes,
      setting.overList.nodesAfter rule popped nodes = setting.nodesAfter rule popped nodes :=
    fun _ _ => rfl
  unfold reduce
  rw [sameStack]
  cases Frame.pop rule.symbols machine.stack with
  | error halt => rfl
  | ok parts =>
      rcases parts with ⟨popped, stack⟩
      dsimp only
      rw [sameCollections]
      cases rule.reduce popped machine.collections with
      | error halt => rfl
      | ok effects =>
          rcases effects with ⟨collections, call⟩
          dsimp only
          rw [sameNodes]
          have nodes : (machine.overList tokens).nodes = machine.nodes := rfl
          rw [nodes]
          cases setting.nodesAfter rule popped machine.nodes with
          | error halt => rfl
          | ok made =>
              -- In front of a token nothing is accepted, and a rule stands where a token stands.
              have places : forall (left : Machine TokenList) (right : Machine σ),
                  setting.overList.placeOf left popped (some token) =
                    setting.placeOf right popped (some token) := by
                intro left right
                unfold placeOf
                cases popped.getLast? <;> rfl
              dsimp only
              rw [if_neg fun accepts => Bool.false_ne_true accepts.1,
                if_neg fun accepts => Bool.false_ne_true accepts.1, places]
              rfl

theorem reduceFor_overList (row : TableState) (token : Token) (tokens : List Token) :
    setting.overList.reduceFor (machine.overList tokens) row (some token) =
      (setting.reduceFor machine row (some token)).overList tokens := by
  unfold reduceFor
  dsimp only
  split
  · rfl
  · split
    · rfl
    · exact reduce_overList _ token tokens

/-- A step that asks nothing does not depend on the source, unless the input is at its end. -/
theorem step_overList (waiting : machine.lookahead ≠ .unread) (before : machine.BeforeEnd)
    (tokens : List Token) :
    setting.overList.step (machine.overList tokens) = (setting.step machine).overList tokens := by
  rcases before with ⟨unended, real⟩
  have sameRow : setting.overList.table.states[(machine.overList tokens).state]? =
      setting.table.states[machine.state]? := rfl
  have sameLookahead : (machine.overList tokens).lookahead = machine.lookahead := rfl
  unfold step
  rw [sameRow, sameLookahead]
  split
  · rfl
  next row found =>
    cases lookahead : machine.lookahead with
    | unread => exact (waiting lookahead).elim
    | ready ahead =>
        rw [lookahead] at unended real
        cases ahead with
        | none => exact (unended rfl).elim
        | some token =>
            dsimp only
            split
            · rfl
            · rw [real token rfl, if_neg Bool.false_ne_true, if_neg Bool.false_ne_true]
              exact reduceFor_overList row token tokens
    | reduced nonterminal ahead =>
        rw [lookahead] at unended
        dsimp only
        split
        · rfl
        · cases ahead with
          | none => exact (unended rfl).elim
          | some token => rfl

/-- A step that reads a token which is not skipped reads it from a list as well. -/
theorem step_overList_read (unread : machine.lookahead = .unread) {row : TableState}
    (found : setting.table.states[machine.state]? = some row) (token : Token)
    (tokens : List Token) (source : σ) :
    setting.overList.step (machine.overList (token :: tokens)) =
      .running (Machine.overList { machine with source, lookahead := .ready (some token) } tokens) := by
  have sameRow : setting.overList.table.states[(machine.overList (token :: tokens)).state]? =
      some row := found
  have sameLookahead : (machine.overList (token :: tokens)).lookahead = .unread := unread
  rw [step_unread sameLookahead sameRow]
  rfl

/-- A machine whose answers are tokens reads the first of them, and skips it or waits with it. -/
theorem reads_of_answers (unread : machine.lookahead = .unread) {row : TableState}
    (found : setting.table.states[machine.state]? = some row) {limit : Nat} {read : List Token}
    (answered : setting.answers (limit + 1) machine =
      read.map fun token => .ok (some token)) :
    Exists fun token => Exists fun rest => Exists fun next => read = token :: rest ∧
      setting.step machine = .running next ∧
      setting.answers limit next = rest.map (fun token => .ok (some token)) ∧
      Exists fun source =>
        token.name ∈ setting.skip ∧ next = { machine with source } ∨
        token.name ∉ setting.skip ∧ next = { machine with source, lookahead := .ready (some token) }
    := by
  rw [answers, answer?_unread unread found, step_unread unread found, Setting.read] at answered
  rw [step_unread unread found, Setting.read]
  generalize setting.source.next machine.source (.matching row.accepts) = reply at answered ⊢
  rcases reply with ⟨answer, source⟩
  cases read with
  | nil => cases answered
  | cons token rest =>
      rcases List.cons.inj answered with ⟨isToken, later⟩
      subst isToken
      dsimp only at later ⊢
      by_cases skip : token.name ∈ setting.skip
      · rw [if_pos skip] at later ⊢
        exact ⟨token, rest, _, rfl, rfl, later, source, Or.inl ⟨skip, rfl⟩⟩
      · rw [if_neg skip] at later ⊢
        exact ⟨token, rest, _, rfl, rfl, later, source, Or.inr ⟨skip, rfl⟩⟩

/-- A run over tokens that does not reach the end of the input ends in the same way over a list of the
tokens that are not skipped, whatever stands behind them. -/
theorem run_overList (limit : Nat) {read : List Token}
    (answered : setting.answers limit machine = read.map fun token => .ok (some token))
    (real : forall token, token ∈ read -> token.isSynthetic = false) (before : machine.BeforeEnd)
    {halt : Halt} (ends : (setting.run limit machine).1 = .stopped halt) (more : List Token) :
    Exists fun taken => (setting.overList.run taken
      (machine.overList (setting.unskipped read ++ more))).1 = .stopped halt := by
  induction limit generalizing machine read with
  | zero => cases ends
  | succ limit inductionHypothesis =>
      rw [run] at ends
      by_cases unread : machine.lookahead = .unread
      · cases found : setting.table.states[machine.state]? with
        | none =>
            have goes : setting.step machine = .ended (.stopped .outOfRange) machine := by
              unfold step
              rw [found]
            have sameRow : setting.overList.table.states[(machine.overList
                (setting.unskipped read ++ more)).state]? = none := found
            rw [goes] at ends
            refine ⟨1, ?_⟩
            rw [run, step, sameRow]
            exact ends
        | some row =>
            rcases reads_of_answers unread found answered with
              ⟨token, rest, next, rfl, goes, after, source, moved⟩
            have restReal := fun other member => real other (List.mem_cons_of_mem _ member)
            rw [goes] at ends
            rcases moved with ⟨skip, rfl⟩ | ⟨kept, rfl⟩
            · have same : setting.unskipped (token :: rest) = setting.unskipped rest :=
                List.filter_cons_of_neg (by simpa using skip)
              rw [same]
              have stops := inductionHypothesis after restReal (Machine.beforeEnd_unread unread) ends
              exact stops
            · have same : setting.unskipped (token :: rest) = token :: setting.unskipped rest :=
                List.filter_cons_of_pos (by simpa using kept)
              have ready : Machine.BeforeEnd
                  { machine with source, lookahead := .ready (some token) } :=
                Machine.beforeEnd_ready rfl (real token List.mem_cons_self)
              rcases inductionHypothesis after restReal ready ends with ⟨taken, stops⟩
              refine ⟨taken + 1, ?_⟩
              rw [same, List.cons_append, run, step_overList_read unread found token _ source]
              exact stops
      · rw [answers, answer?_waiting unread, Option.toList_none, List.nil_append] at answered
        cases goes : setting.step machine with
        | ended outcome last =>
            rw [goes] at ends
            refine ⟨1, ?_⟩
            rw [run, step_overList unread before, goes]
            exact ends
        | running next =>
            rw [goes] at answered ends
            rcases inductionHypothesis answered real (before.step unread goes) ends with
              ⟨taken, stops⟩
            refine ⟨taken + 1, ?_⟩
            rw [run, step_overList unread before, goes]
            exact stops

/-! ## The first bad token -/

/-- If no conflict was resolved, no sentence begins with the tokens of a run that stops before the end
of the input. -/
theorem not_sentence_of_stopped (prepared : Prepared grammar plain setting.table)
    (decides : Decides plain setting.table plain.kernels) (fits : grammar.FloorsFit) {state : σ}
    {limit : Nat} {read : List Token}
    (answered : setting.answers limit (.start state) = read.map fun token => .ok (some token))
    (real : forall token, token ∈ read -> token.isSynthetic = false) {halt : Halt}
    (ends : (setting.run limit (.start state)).1 = .stopped halt) (rest : List String) :
    ¬ grammar.Sentence (setting.significant read ++ rest) := by
  intro sentence
  let more : List Token := rest.map fun name => ⟨name, some "", default⟩
  have moreNames : more.map Token.name = rest := by
    rw [List.map_map]
    exact List.map_id rest
  have moreReal : forall token, token ∈ more -> token.isSynthetic = false := by
    intro token member
    rcases List.mem_map.mp member with ⟨name, _, rfl⟩
    rfl
  rcases run_overList limit answered real (Machine.beforeEnd_unread rfl) ends more with
    ⟨taken, stops⟩
  have feeds : setting.overList.Feeds
      (.start ⟨setting.unskipped read ++ more, default, none⟩) (setting.unskipped read ++ more) := by
    refine ⟨setting.unskipped read ++ more, ?_, ?_, ?_⟩
    · intro token member
      rcases List.mem_append.mp member with early | late
      · exact real token (List.mem_of_mem_filter early)
      · exact moreReal token late
    · exact List.filter_eq_self.mpr fun token _ => decide_eq_true List.not_mem_nil
    · exact fun limit => TokenList.answers_prefix rfl limit rfl
  have sameTable : Prepared grammar plain setting.overList.table ∧
      Decides plain setting.overList.table plain.kernels := ⟨prepared, decides⟩
  have accepts : setting.overList.Accepts
      (.start ⟨setting.unskipped read ++ more, default, none⟩) := by
    apply accepts_of_sentence sameTable.1 sameTable.2 fits feeds
    rw [List.map_append, moreNames]
    exact sentence
  rcases accepts with ⟨bound, accepts⟩
  have accepted := accepts taken
  have started : Machine.overList (.start state : Machine σ) (setting.unskipped read ++ more) =
      .start ⟨setting.unskipped read ++ more, default, none⟩ := rfl
  rw [started] at stops
  rw [Nat.add_comm, run_add (by rw [stops]; exact Outcome.noConfusion), stops] at accepted
  cases accepted

/-- What a run has read that ends by blaming the lookahead, and what it blames. -/
theorem read_of_rejected (prepared : Prepared grammar plain setting.table) {state : σ}
    {tokens : List Token} (terminals : forall token, token ∈ tokens ->
      token.text.isSome = true ∧ token.name ∉ grammar.allRuleNames)
    (answers : forall limit, setting.answers limit (.start state) <+:
      tokens.map (fun token => .ok (some token)) ++ [.ok none]) {limit : Nat} {error : ParseError}
    (ends : (setting.run limit (.start state)).1 = .stopped (.failed error))
    (blamed : error.BlamesLookahead) :
    Exists fun word => Exists fun waiting =>
      setting.Heard (setting.answers limit (.start state)) word (some waiting) ∧
      plain.BeginsWith word ∧
      error = setting.rejection (setting.run limit (.start state)).2 waiting := by
  have offers : forall token, .ok (some token) ∈ setting.answers limit (.start state) ->
      token.isSynthetic = false ∧ ¬ plain.IsNonterminal token.name := by
    intro token asked
    rcases List.mem_append.mp ((answers limit).subset asked) with member | last
    · rcases List.mem_map.mp member with ⟨other, listed, same⟩
      cases same
      rcases terminals _ listed with ⟨text, outside⟩
      exact ⟨Token.real_of_text text, Grammar.not_nonterminal_of_outside prepared.made outside⟩
    · cases Except.ok.inj (List.mem_singleton.mp last)
  have all := (planted_start state).rejected prepared.drives limit ⟨[plain.root], .refl _⟩ offers
    ends blamed
  rwa [List.nil_append] at all

/-- The last token that is not skipped, with what is in front of it and behind. -/
theorem split_of_unskipped {read word : List Token} {token : Token}
    (isRead : setting.unskipped read = word ++ [token]) :
    Exists fun front => Exists fun back => read = front ++ token :: back ∧
      setting.unskipped front = word ∧ token.name ∉ setting.skip := by
  rcases List.filter_eq_append_iff.mp isRead with ⟨before, behind, rfl, isWord, isToken⟩
  rcases List.filter_eq_cons_iff.mp isToken with ⟨skipped, after, rfl, noneKept, kept, _⟩
  refine ⟨before ++ skipped, after, (List.append_assoc _ _ _).symm, ?_, by simpa using kept⟩
  rw [unskipped_append, unskipped, isWord, unskipped, List.filter_eq_nil_iff.mpr noneKept,
    List.append_nil]

/-- What begins a string of the plain grammar begins a sentence. -/
theorem begins_of_plain (prepared : Prepared grammar plain setting.table)
    (productive : grammar.IsProductive) (exactly : grammar.BoundsExactly)
    (fits : grammar.FloorsFit) {word : List Token}
    (terminals : forall token, token ∈ word -> token.name ∉ grammar.allRuleNames)
    (begins : plain.BeginsWith word) :
    Exists fun rest => grammar.Sentence (word.map Token.name ++ rest) := by
  rcases begins with ⟨rest, derives⟩
  refine Grammar.begins_sentence productive exactly fits prepared.admissible.helpersApart
    prepared.made derives ?_
  intro name member
  rcases List.mem_map.mp member with ⟨token, listed, rfl⟩
  exact terminals token listed

/-- A token ends a run.  What stands before it begins a sentence, and nothing goes on with it. -/
theorem first_bad_token (prepared : Prepared grammar plain setting.table)
    (decides : Decides plain setting.table plain.kernels) (productive : grammar.IsProductive)
    (exactly : grammar.BoundsExactly) (fits : grammar.FloorsFit) {state : σ} {tokens : List Token}
    (terminals : forall token, token ∈ tokens ->
      token.text.isSome = true ∧ token.name ∉ grammar.allRuleNames)
    (answers : forall limit, setting.answers limit (.start state) <+:
      tokens.map (fun token => .ok (some token)) ++ [.ok none]) {limit : Nat} {name text : String}
    {position : Position} (ends : (setting.run limit (.start state)).1 =
      .stopped (.failed (.unexpectedToken name text position))) :
    Exists fun front => Exists fun token => Exists fun back =>
      tokens = front ++ token :: back ∧ token.name ∉ setting.skip ∧
      ParseError.unexpected token = .unexpectedToken name text position ∧
      (Exists fun rest => grammar.Sentence (setting.significant front ++ rest)) ∧
      forall rest, ¬ grammar.Sentence (setting.significant front ++ token.name :: rest) := by
  rcases read_of_rejected prepared terminals answers ends trivial with
    ⟨word, waiting, ⟨read, isAnswers, isRead⟩, goesOn, isError⟩
  cases waiting with
  | none => cases isError
  | some token =>
      rw [if_neg (fun impossible => by cases impossible), List.append_nil] at isAnswers
      have front := answers limit
      rw [isAnswers] at front
      rcases prefix_of_answers front with ⟨unread, rfl⟩
      rcases split_of_unskipped isRead with ⟨before, after, rfl, isWord, kept⟩
      subst isWord
      have among : forall other, other ∈ before -> other ∈ before ++ token :: after ++ unread :=
        fun other member => List.mem_append_left _ (List.mem_append_left _ member)
      refine ⟨before, token, after ++ unread, List.append_assoc _ _ _, kept, isError.symm, ?_, ?_⟩
      · exact begins_of_plain prepared productive exactly fits
          (fun other member => (terminals other (among other (List.mem_of_mem_filter member))).2)
          goesOn
      · intro rest sentence
        refine not_sentence_of_stopped prepared decides fits isAnswers ?_ ends rest ?_
        · exact fun other member =>
            Token.real_of_text (terminals other (List.mem_append_left _ member)).1
        · have names := congrArg (List.map Token.name) isRead
          rw [List.map_append] at names
          change grammar.Sentence ((setting.unskipped _).map Token.name ++ rest)
          rw [names, List.append_assoc]
          exact sentence

/-- The end of the input ends a run.  The tokens begin a sentence and are none. -/
theorem bad_end (prepared : Prepared grammar plain setting.table)
    (decides : Decides plain setting.table plain.kernels) (productive : grammar.IsProductive)
    (exactly : grammar.BoundsExactly) (fits : grammar.FloorsFit) {state : σ} {tokens : List Token}
    (terminals : forall token, token ∈ tokens ->
      token.text.isSome = true ∧ token.name ∉ grammar.allRuleNames)
    (answers : forall limit, setting.answers limit (.start state) <+:
      tokens.map (fun token => .ok (some token)) ++ [.ok none]) {limit : Nat} {position : Position}
    (ends : (setting.run limit (.start state)).1 = .stopped (.failed (.unexpectedEnd position))) :
    (Exists fun rest => grammar.Sentence (setting.significant tokens ++ rest)) ∧
      ¬ grammar.Sentence (setting.significant tokens) := by
  rcases read_of_rejected prepared terminals answers ends trivial with
    ⟨word, waiting, ⟨read, isAnswers, isRead⟩, goesOn, isError⟩
  cases waiting with
  | some token => cases isError
  | none =>
      rw [if_pos rfl] at isAnswers
      have front := answers limit
      rw [isAnswers] at front
      have all := eq_of_answers front
      subst all
      have isWord : setting.unskipped read = word := isRead.trans (List.append_nil word)
      subst isWord
      constructor
      · exact begins_of_plain prepared productive exactly fits
          (fun token member => (terminals token (List.mem_of_mem_filter member)).2) goesOn
      · intro sentence
        have real := fun token member => Token.real_of_text (terminals token member).1
        rcases accepts_of_sentence prepared decides fits ⟨read, real, rfl, answers⟩ sentence with
          ⟨bound, accepts⟩
        have accepted := accepts limit
        rw [Nat.add_comm, run_add (by rw [ends]; exact Outcome.noConfusion), ends] at accepted
        cases accepted

/-- A syntax error is found at the first bad token, if nothing is lost in a floor.  If a run ends
because of a token, what stands before that token begins a sentence and nothing goes on with the
token.  If it ends because of the end of the input, the tokens begin a sentence and are none. -/
theorem error_at_first_bad_token (admissible : grammar.Admissible)
    (compiled : grammar.compile = .ok setting.table) (decided : setting.table.conflicts = [])
    (productive : grammar.IsProductive) (exactly : grammar.BoundsExactly)
    (fits : grammar.FloorsFit) (state : σ) (tokens : List Token)
    (terminals : forall token, token ∈ tokens ->
      token.text.isSome = true ∧ token.name ∉ grammar.allRuleNames)
    (answers : forall limit, setting.answers limit (.start state) <+:
      tokens.map (fun token => .ok (some token)) ++ [.ok none]) (limit : Nat) :
    (forall name text position, (setting.run limit (.start state)).1 =
        .stopped (.failed (.unexpectedToken name text position)) ->
      Exists fun front => Exists fun token => Exists fun back =>
        tokens = front ++ token :: back ∧ token.name ∉ setting.skip ∧
        ParseError.unexpected token = .unexpectedToken name text position ∧
        (Exists fun rest => grammar.Sentence (setting.significant front ++ rest)) ∧
        forall rest, ¬ grammar.Sentence (setting.significant front ++ token.name :: rest)) ∧
    (forall position, (setting.run limit (.start state)).1 =
        .stopped (.failed (.unexpectedEnd position)) ->
      (Exists fun rest => grammar.Sentence (setting.significant tokens ++ rest)) ∧
        ¬ grammar.Sentence (setting.significant tokens)) := by
  rcases prepared_of_compile admissible compiled with ⟨plain, prepared, decides⟩
  constructor
  · intro name text position ends
    exact first_bad_token prepared (decides decided) productive exactly fits terminals
      answers ends
  · intro position ends
    exact bad_end prepared (decides decided) productive exactly fits terminals
      answers ends

end Setting

/-! ## Two items and one too many -/

/-- A list of two items. -/
def Grammar.pair : Grammar :=
  ⟨[⟨"list", [{ symbols := [.bounded 2 2 [.name "item"]] }]⟩], List.nodup_singleton _⟩

theorem Grammar.admissible_pair : pair.Admissible :=
  admissible_of_reports (by decide) (by decide) (by decide)

theorem Grammar.isProductive_pair : pair.IsProductive := by
  intro name isRule
  have isList : name = "list" := List.mem_singleton.mp isRule
  subst isList
  have items : pair.Derives [.name "item", .name "item"] ["item", "item"] :=
    .token "item" _ _ (by decide) (.token "item" [] [] (by decide) .nil)
  refine ⟨["item", "item"], .rule pair.rules.head! _ [] ["item", "item"] [] List.mem_cons_self
    List.mem_cons_self ?_ .nil⟩
  have unfolds := Symbol.Unfolds.bounded 2 2 [.name "item"] 2 (Nat.le_refl 2) fun _ => Nat.le_refl 2
  exact .operator _ _ [] _ [] unfolds items .nil

theorem Grammar.boundsExactly_pair : pair.BoundsExactly :=
  boundsExactly_of_written (by decide)

/-- A parse of such a list, nothing being skipped but blanks. -/
def Setting.pair : Setting TokenList :=
  ⟨(Grammar.pair.compile.toOption).getD default, TokenList.source, ["blank"], none⟩

/-- Three items, with a blank after the first. -/
def TokenList.threeItems : TokenList :=
  ⟨[⟨"item", some "a", default⟩, ⟨"blank", some " ", default⟩, ⟨"item", some "b", default⟩,
    ⟨"item", some "c", default⟩], default, none⟩

/-- The third item is the first bad token of three. -/
theorem Setting.error_at_first_bad_token_pair :
    (Setting.pair.run 20 (.start .threeItems)).1 =
      .stopped (.failed (.unexpectedToken "item" "c" default)) ∧
    Exists fun front => Exists fun token => Exists fun back =>
      TokenList.threeItems.tokens = front ++ token :: back ∧ token.name ∉ Setting.pair.skip ∧
      ParseError.unexpected token = .unexpectedToken "item" "c" default ∧
      (Exists fun rest => Grammar.pair.Sentence (Setting.pair.significant front ++ rest)) ∧
      forall rest, ¬ Grammar.pair.Sentence (Setting.pair.significant front ++ token.name :: rest) := by
  have ends : (Setting.pair.run 20 (.start .threeItems)).1 =
      .stopped (.failed (.unexpectedToken "item" "c" default)) := by decide +kernel
  have compiled : Grammar.pair.compile = .ok Setting.pair.table := eq_ok_of_isOk (by decide +kernel)
  have first := Setting.error_at_first_bad_token Grammar.admissible_pair compiled
    (by decide +kernel) Grammar.isProductive_pair Grammar.boundsExactly_pair (by decide) .threeItems
    TokenList.threeItems.tokens (by decide +kernel)
    (fun limit => TokenList.answers_prefix rfl limit rfl) 20
  exact ⟨ends, first.1 "item" "c" default ends⟩

/-! ## Two tokens that are blamed wrongly -/

/-- The sentence has all the copies. -/
theorem Grammar.sentence_emptyFloor : (emptyFloor halfWord).Sentence
    ("a" :: "b" :: (List.replicate (halfWord - 1) ["a", "b"]).flatten) := by
  have copy : (emptyFloor halfWord).Derives [.name "a", .name "b"] ["a", "b"] :=
    .token "a" _ _ (by decide) (.token "b" [] [] (by decide) .nil)
  have all := copy.append (copy.copies (halfWord - 1))
  rw [← List.flatten_cons, ← List.replicate_succ] at all
  have list := Derives.operator (.bounded halfWord halfWord _) _ [] _ []
    (.bounded _ _ _ halfWord (Nat.le_refl _) fun _ => Nat.le_refl _) all .nil
  have root := Derives.rule (emptyFloor halfWord).rules.head! _ [] _ [] List.mem_cons_self
    List.mem_cons_self list .nil
  rw [List.append_nil, List.append_nil] at root
  exact ⟨"A", rfl, root⟩

theorem Grammar.isProductive_emptyFloor : (emptyFloor halfWord).IsProductive := by
  intro name isRule
  have isRoot : name = "A" := List.mem_singleton.mp isRule
  subst isRoot
  rcases sentence_emptyFloor with ⟨root, isRoot, derives⟩
  cases isRoot
  exact ⟨_, derives⟩

/-- Its only operator is bounded exactly. -/
theorem Grammar.boundsExactly_emptyFloor : (emptyFloor halfWord).BoundsExactly :=
  boundsExactly_of_written (by decide)

theorem Grammar.isProductive_repetitionFirst : repetitionFirst.IsProductive := by
  intro name isRule
  have isRoot : name = "S" := List.mem_singleton.mp isRule
  subst isRoot
  exact ⟨["c"], .rule repetitionFirst.rules.head! { symbols := [.name "c"] } [] ["c"] []
    List.mem_cons_self (by decide) (.token "c" [] [] (by decide) .nil) .nil⟩

theorem Grammar.boundsExactly_repetitionFirst : repetitionFirst.BoundsExactly :=
  boundsExactly_of_written (by decide)

/-- One name, which begins a sentence but has no copy to stand in. -/
def TokenList.firstName : TokenList := ⟨[⟨"a", some "a", default⟩], default, none⟩

/-- A token that has the name of a helper, and another token. -/
def TokenList.helperNamedThenOther : TokenList :=
  ⟨[⟨"a", some "a", default⟩, ⟨"S#0#1", some "x", default⟩, ⟨"c", some "c", default⟩], default, none⟩

/-- Of two runs that end because of a token, one has read what begins no sentence, and one could have
gone on with the token. -/
theorem Setting.blames_wrong_token :
    (Grammar.repetitionFirst.Admissible ∧ Grammar.repetitionFirst.IsProductive ∧
      Grammar.repetitionFirst.BoundsExactly ∧
      (forall token, token ∈ TokenList.helperNamedThenOther.tokens ->
        token.text.isSome = true ∧ token.name ∉ Grammar.repetitionFirst.ruleNames) ∧
      Grammar.repetitionFirst.compile = .ok repetitionFirst.table ∧
      repetitionFirst.table.conflicts = [] ∧
      (repetitionFirst.run 20 (.start .helperNamedThenOther)).1 =
        .stopped (.failed (.unexpectedToken "c" "c" default)) ∧
      forall rest, ¬ Grammar.repetitionFirst.Sentence (["a", "S#0#1"] ++ rest)) ∧
    (Grammar.emptyFloor halfWord).Admissible ∧ (Grammar.emptyFloor halfWord).IsProductive ∧
      (Grammar.emptyFloor halfWord).BoundsExactly ∧
      (Grammar.emptyFloor halfWord).compile = .ok (ofGrammar (.emptyFloor halfWord)).table ∧
      (ofGrammar (.emptyFloor halfWord)).table.conflicts = [] ∧
      ((ofGrammar (.emptyFloor halfWord)).run 20 (.start .firstName)).1 =
        .stopped (.failed (.unexpectedToken "a" "a" default)) ∧
      Exists fun rest => (Grammar.emptyFloor halfWord).Sentence ("a" :: rest) := by
  refine ⟨⟨Grammar.admissible_repetitionFirst, Grammar.isProductive_repetitionFirst,
    Grammar.boundsExactly_repetitionFirst, by decide, compiled_repetitionFirst, by decide +kernel,
    by decide +kernel, ?_⟩, Grammar.admissible_emptyFloor _, Grammar.isProductive_emptyFloor,
    Grammar.boundsExactly_emptyFloor, eq_ok_of_isOk (by decide +kernel), by decide +kernel,
    by decide +kernel, _, Grammar.sentence_emptyFloor⟩
  intro rest sentence
  have written := sentence.written "S#0#1" (List.mem_append_left _ (by decide))
  exact absurd written (by decide)

end ShiftReduce
