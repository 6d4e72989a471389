import ShiftReduce.Proofs.Parse.Standing

namespace ShiftReduce

/-!
# Parses that have to go on

To show that a run accepts, one follows it from one lookahead to the next.  A machine is ready if its
lookahead is the first of the tokens that are still to be parsed, or the end of the input if there
are none.  All that is known of the source is that its answers follow a list of tokens; how it comes
by them, and whether it heeds the preferences of the parse, does not matter.

Statements about acceptance are in terms of what remains: a machine accepts if every machine that a
part of the run leads to does.  A run that accepts early is then no special case.
-/

namespace Setting

variable {σ : Type} (setting : Setting σ)

/-- Given enough steps, the run accepts. -/
def Accepts (machine : Machine σ) : Prop :=
  Exists fun limit => forall more, (setting.run (limit + more) machine).1 = .accepted

/-- From now on the source offers tokens with text and then ends, and `later` are those of them that
are not skipped. -/
def Feeds (machine : Machine σ) (later : List Token) : Prop :=
  Exists fun unread : List Token => (forall token, token ∈ unread -> token.isSynthetic = false) ∧
    (unread.filter fun token => token.name ∉ setting.skip) = later ∧
    forall limit, setting.answers limit machine <+:
      unread.map (fun token => .ok (some token)) ++ [.ok none]

variable {setting} {machine next : Machine σ}

theorem Accepts.of_running (goes : setting.step machine = .running next)
    (accepts : setting.Accepts next) : setting.Accepts machine := by
  rcases accepts with ⟨limit, later⟩
  refine ⟨limit + 1, fun more => ?_⟩
  rw [Nat.add_right_comm, run, goes]
  exact later more

theorem Accepts.of_ended (goes : setting.step machine = .ended .accepted next) :
    setting.Accepts machine := by
  refine ⟨1, fun more => ?_⟩
  rw [Nat.add_comm, run, goes]

/-- A step that asks nothing leaves what the source offers. -/
theorem Feeds.quiet {later : List Token} (feeds : setting.Feeds machine later)
    (waiting : machine.lookahead ≠ .unread) (goes : setting.step machine = .running next) :
    setting.Feeds next later := by
  rcases feeds with ⟨unread, real, kept, answers⟩
  refine ⟨unread, real, kept, fun limit => ?_⟩
  have after := answers (limit + 1)
  rw [Setting.answers, answer?_waiting waiting, goes] at after
  exact after

end Setting

variable {σ : Type} {setting : Setting σ} {grammar : Grammar} {plain : PlainGrammar}
  {machine : Machine σ} {entries : List Entry}

/-- The lookahead is the first of the tokens ahead. -/
structure Ready (setting : Setting σ) (grammar : Grammar) (plain : PlainGrammar)
    (machine : Machine σ) (entries : List Entry) (ahead : List Token) : Prop where
  standing : Exists fun heard =>
    Standing setting grammar plain (fun _ => True) heard machine entries
  lookahead : machine.lookahead = .ready ahead.head?
  feeds : forall token later, ahead = token :: later -> setting.Feeds machine later

theorem Ready.waiting {ahead : List Token}
    (ready : Ready setting grammar plain machine entries ahead) : machine.lookahead ≠ .unread := by
  rw [ready.lookahead]
  exact Lookahead.noConfusion

/-! ## Reading -/

/-- The source gives the first of the answers that are expected of it, and then the others. -/
private theorem reply_eq (unread : machine.lookahead = .unread) {row : TableState}
    (found : setting.table.states[machine.state]? = some row) {first : Answer}
    {others : List Answer}
    (answers : forall limit, setting.answers limit machine <+: first :: others) :
    Exists fun source =>
      setting.source.next machine.source (.matching row.accepts) = (first, source) ∧
      forall next, setting.step machine = .running next ->
        forall limit, setting.answers limit next <+: others := by
  cases reply : setting.source.next machine.source (.matching row.accepts) with
  | mk answer source =>
      have same : answer = first := by
        have all := answers 1
        rw [Setting.answers, answer?_unread unread found, reply] at all
        exact (List.cons_prefix_cons.mp all).1
      refine ⟨source, by rw [same], ?_⟩
      intro next goes limit
      have all := answers (limit + 1)
      rw [Setting.answers, answer?_unread unread found, reply, goes] at all
      exact (List.cons_prefix_cons.mp all).2

/-- A machine that has to read becomes ready for the next token that is not skipped. -/
theorem accepts_of_unread (prepared : Prepared grammar plain setting.table) {heard : List Answer}
    (standing : Standing setting grammar plain (fun _ => True) heard machine entries)
    (unread : machine.lookahead = .unread) {later : List Token}
    (feeds : setting.Feeds machine later)
    (goal : forall next : Machine σ, Ready setting grammar plain next entries later ->
      next.stack = machine.stack -> setting.Accepts next) : setting.Accepts machine := by
  rcases feeds with ⟨tokens, real, kept, answers⟩
  induction tokens generalizing heard machine with
  | nil =>
      rcases standing.row prepared.grounded with ⟨row, found⟩
      rcases reply_eq unread found answers with ⟨source, reply, _⟩
      have goes : setting.step machine =
          .running { machine with source, lookahead := .ready none } := by
        rw [step_unread unread found, Setting.read, reply]
      have nothing : [] = later := kept
      refine .of_running goes (goal _ ⟨⟨_, standing.exhausted unread source⟩, ?_, ?_⟩ rfl)
      · rw [← nothing]
        rfl
      · intro token others split
        rw [← nothing] at split
        cases split
  | cons token rest inductionHypothesis =>
      rcases standing.row prepared.grounded with ⟨row, found⟩
      rcases reply_eq unread found answers with ⟨source, reply, others⟩
      have restReal := fun other member => real other (List.mem_cons_of_mem _ member)
      rw [List.filter_cons] at kept
      by_cases skip : token.name ∈ setting.skip
      · have goes : setting.step machine = .running { machine with source } := by
          rw [step_unread unread found, Setting.read, reply]
          dsimp only
          rw [if_pos skip]
        rw [if_neg (by simpa using skip)] at kept
        refine .of_running goes ?_
        exact inductionHypothesis (standing.skipped unread skip source) unread goal restReal kept
          (others _ goes)
      · have goes : setting.step machine =
            .running { machine with source, lookahead := .ready (some token) } := by
          rw [step_unread unread found, Setting.read, reply]
          dsimp only
          rw [if_neg skip]
        rw [if_pos (by simpa using skip)] at kept
        have offered := And.intro (real token List.mem_cons_self) trivial
        refine .of_running goes (goal _ ⟨⟨_, standing.received unread skip offered source⟩, ?_, ?_⟩
          rfl)
        · rw [← kept]
          rfl
        · intro first remaining split
          rw [← kept, List.cons.injEq] at split
          exact ⟨rest, restReal, split.2, others _ goes⟩

/-! ## Shifting -/

/-- A machine that is ready for a token which its state shifts becomes ready for the next one. -/
theorem Ready.shift (prepared : Prepared grammar plain setting.table) {token : Token}
    {later : List Token} (ready : Ready setting grammar plain machine entries (token :: later))
    {row : TableState} (found : setting.table.states[machine.state]? = some row) {target : Nat}
    (shifted : row.shift.get? token.name = some target)
    (goal : forall next : Machine σ,
      Ready setting grammar plain next (.leaf token :: entries) later ->
      next.stack = ⟨token, target⟩ :: machine.stack -> setting.Accepts next) :
    setting.Accepts machine := by
  rcases ready.standing with ⟨heard, standing⟩
  have lookahead : machine.lookahead = .ready (some token) := ready.lookahead
  have goes : setting.step machine = .running
      { machine with stack := ⟨token, target⟩ :: machine.stack, lookahead := .unread } := by
    unfold Setting.step
    rw [found, lookahead]
    dsimp only
    rw [shifted]
    rfl
  have feeds := (ready.feeds token later rfl).quiet ready.waiting goes
  exact .of_running goes (accepts_of_unread prepared
    (standing.shift prepared.grounded lookahead found shifted) rfl feeds goal)

/-- A rule that has been reduced is shifted, and the machine is ready again. -/
theorem Ready.follow (prepared : Prepared grammar plain setting.table) {heard : List Answer}
    {nonterminal : Token} {ahead : List Token}
    (standing : Standing setting grammar plain (fun _ => True) heard machine entries)
    (reduced : machine.lookahead = .reduced nonterminal ahead.head?)
    (feeds : forall token later, ahead = token :: later -> setting.Feeds machine later)
    {row : TableState} (found : setting.table.states[machine.state]? = some row) {target : Nat}
    (shifted : row.shift.get? nonterminal.name = some target)
    (goal : forall next : Machine σ, Ready setting grammar plain next entries ahead ->
      next.stack = ⟨nonterminal, target⟩ :: machine.stack -> setting.Accepts next) :
    setting.Accepts machine := by
  have goes : setting.step machine = .running
      { machine with stack := ⟨nonterminal, target⟩ :: machine.stack,
                     lookahead := .ready ahead.head? } := by
    unfold Setting.step
    rw [found, reduced]
    dsimp only
    rw [shifted]
    rfl
  have waiting : machine.lookahead ≠ .unread := by
    rw [reduced]
    exact Lookahead.noConfusion
  refine .of_running goes (goal _ ⟨⟨heard, standing.follow prepared.grounded reduced found shifted⟩, rfl, ?_⟩
    rfl)
  exact fun token later split => (feeds token later split).quiet waiting goes

/-! ## What a source is asked for -/

/-- The source answers one question after another in this way. -/
inductive TokenSource.Gives (source : TokenSource σ) : σ -> List Answer -> Prop where
  | nil (state : σ) : Gives source state []
  | cons (state next : σ) (preference : Preference) (answer : Answer) (answers : List Answer)
      (reply : source.next state preference = (answer, next)) (later : Gives source next answers) :
      Gives source state (answer :: answers)

/-- What a run hears is what its source answers. -/
theorem Setting.gives_answers (limit : Nat) (machine : Machine σ) :
    setting.source.Gives machine.source (setting.answers limit machine) := by
  induction limit generalizing machine with
  | zero => exact .nil _
  | succ limit inductionHypothesis =>
      rw [Setting.answers]
      by_cases unread : machine.lookahead = .unread
      · cases found : setting.table.states[machine.state]? with
        | none =>
            rcases step_lost found with ⟨goes, silent⟩
            rw [goes, silent]
            exact .nil _
        | some row =>
            rw [answer?_unread unread found, step_unread unread found, Setting.read]
            generalize reply : setting.source.next machine.source (.matching row.accepts) = answer
            rcases answer with ⟨_ | _ | token, source⟩
            · exact .cons _ source _ _ _ reply (.nil source)
            · exact .cons _ source _ _ _ reply
                (inductionHypothesis { machine with source, lookahead := .ready none })
            · dsimp only
              by_cases skip : token.name ∈ setting.skip
              · rw [if_pos skip]
                exact .cons _ source _ _ _ reply (inductionHypothesis { machine with source })
              · rw [if_neg skip]
                exact .cons _ source _ _ _ reply
                  (inductionHypothesis { machine with source, lookahead := .ready (some token) })
      · rw [answer?_waiting unread, Option.toList_none, List.nil_append]
        cases goes : setting.step machine with
        | ended outcome last => exact .nil _
        | running next =>
            rw [← (Setting.lookahead_of_step unread goes).1]
            exact inductionHypothesis next

/-- What a run gets from its source is what the source gives in a state that it can come to. -/
theorem Setting.state_of_answers {holds : σ -> Prop}
    (kept : forall state preference, holds state -> holds (setting.source.next state preference).2)
    {limit : Nat} {machine : Machine σ} (begun : holds machine.source) {answer : Answer}
    (asked : answer ∈ setting.answers limit machine) :
    Exists fun state => Exists fun preference => holds state ∧
      (setting.source.next state preference).1 = answer := by
  have gives := setting.gives_answers limit machine
  generalize machine.source = state at begun gives
  generalize setting.answers limit machine = answers at asked gives
  induction gives with
  | nil => cases asked
  | cons state next preference first answers reply _ inductionHypothesis =>
      rcases List.mem_cons.mp asked with rfl | later
      · exact ⟨state, preference, begun, by rw [reply]⟩
      · have goesOn := kept state preference begun
        rw [reply] at goesOn
        exact inductionHypothesis goesOn later

/-! ## Sources that are lists -/

/-- Whatever it is asked, the source gives these tokens and then ends. -/
def TokenSource.Yields (source : TokenSource σ) : List Token -> σ -> Prop
  | [], state => forall preference, (source.next state preference).1 = .ok none
  | token :: rest, state => forall preference,
    (source.next state preference).1 = .ok (some token) ∧
      Yields source rest (source.next state preference).2

/-- The answers are those tokens and the end of the input, as long as the end is not ahead. -/
theorem Setting.answers_prefix (limit : Nat) {machine : Machine σ} {tokens : List Token}
    (yields : machine.lookahead.waiting ≠ some none ->
      setting.source.Yields tokens machine.source) :
    setting.answers limit machine <+:
      if machine.lookahead.waiting = some none then []
      else tokens.map (fun token => .ok (some token)) ++ [.ok none] := by
  induction limit generalizing machine tokens with
  | zero => exact List.nil_prefix
  | succ limit inductionHypothesis =>
      rw [Setting.answers]
      by_cases unread : machine.lookahead = .unread
      · have unended : ¬ machine.lookahead.waiting = some none := by
          rw [unread]
          exact fun impossible => by cases impossible
        have gives := yields unended
        rw [if_neg unended]
        cases found : setting.table.states[machine.state]? with
        | none =>
            rcases step_lost found with ⟨goes, silent⟩
            rw [goes, silent]
            exact List.nil_prefix
        | some row =>
            rw [answer?_unread unread found, step_unread unread found, Setting.read]
            generalize reply : setting.source.next machine.source (.matching row.accepts) = answer
            rcases answer with ⟨answer, source⟩
            cases tokens with
            | nil =>
                have isEnd := gives (.matching row.accepts)
                rw [reply] at isEnd
                dsimp only at isEnd
                subst isEnd
                have later := @inductionHypothesis
                  { machine with source, lookahead := .ready none } [] fun more => (more rfl).elim
                exact List.cons_prefix_cons.mpr ⟨rfl, later⟩
            | cons token rest =>
                have isToken := gives (.matching row.accepts)
                rw [reply] at isToken
                rcases isToken with ⟨same, others⟩
                dsimp only at same others
                subst same
                refine List.cons_prefix_cons.mpr ⟨rfl, ?_⟩
                dsimp only
                by_cases skip : token.name ∈ setting.skip
                · have later := @inductionHypothesis { machine with source } rest fun _ => others
                  rw [if_neg unended] at later
                  rw [if_pos skip]
                  exact later
                · have later := @inductionHypothesis
                    { machine with source, lookahead := .ready (some token) } rest fun _ => others
                  rw [if_neg fun impossible => by cases impossible] at later
                  rw [if_neg skip]
                  exact later
      · rw [answer?_waiting unread, Option.toList_none, List.nil_append]
        cases goes : setting.step machine with
        | ended outcome last => exact List.nil_prefix
        | running next =>
            have same := (Setting.lookahead_of_step unread goes).1
            have ended := Setting.ended_of_step unread goes
            have later := @inductionHypothesis next tokens fun unended =>
              same ▸ yields fun isEnd => unended (ended.mpr isEnd)
            simp only [ended] at later
            exact later

/-- Tokens that have been given are the first of those that are expected. -/
theorem prefix_of_answers {read tokens : List Token}
    (front : read.map (fun token => (.ok (some token) : Answer)) <+:
      tokens.map (fun token => .ok (some token)) ++ [.ok none]) : read <+: tokens := by
  induction read generalizing tokens with
  | nil => exact List.nil_prefix
  | cons token rest inductionHypothesis =>
      cases tokens with
      | nil => cases (List.cons_prefix_cons.mp front).1
      | cons other others =>
          rcases List.cons_prefix_cons.mp front with ⟨same, later⟩
          cases same
          exact List.cons_prefix_cons.mpr ⟨rfl, inductionHypothesis later⟩

/-- Behind the end of the input there are no answers. -/
theorem eq_of_answers {read tokens : List Token}
    (front : read.map (fun token => (.ok (some token) : Answer)) ++ [.ok none] <+:
      tokens.map (fun token => .ok (some token)) ++ [.ok none]) : read = tokens := by
  induction read generalizing tokens with
  | nil =>
      cases tokens with
      | nil => rfl
      | cons token rest => cases (List.cons_prefix_cons.mp front).1
  | cons token rest inductionHypothesis =>
      cases tokens with
      | nil => cases (List.cons_prefix_cons.mp front).1
      | cons other others =>
          rcases List.cons_prefix_cons.mp front with ⟨same, later⟩
          cases same
          rw [inductionHypothesis later]

theorem TokenList.yields (position : Position) (tokens : List Token) :
    TokenList.source.Yields tokens ⟨tokens, position, none⟩ := by
  induction tokens with
  | nil => exact fun _ => rfl
  | cons token rest inductionHypothesis => exact fun _ => ⟨rfl, inductionHypothesis⟩

/-- A list of tokens answers with its tokens in order and then with the end of the input. -/
theorem TokenList.answers_prefix {setting : Setting TokenList}
    (isList : setting.source = TokenList.source) (limit : Nat) {machine : Machine TokenList}
    {tokens : List Token} {position : Position}
    (source : machine.source = ⟨tokens, position, none⟩) :
    setting.answers limit machine <+:
      if machine.lookahead.waiting = some none then []
      else tokens.map (fun token => .ok (some token)) ++ [.ok none] :=
  Setting.answers_prefix limit fun _ => isList ▸ source ▸ TokenList.yields position tokens

end ShiftReduce
