import ShiftReduce.Proofs.Parse.Planting
import ShiftReduce.Proofs.Parse.Progress

namespace ShiftReduce

/-!
# A run does not notice its tree

Whether a tree is built makes no difference to how a run goes, and this is so for every table.  A
reduction could only fail for want of nodes if fewer nodes waited than there are synthetic tokens
among those it has popped.  But every synthetic token was made by a reduction, and a reduction leaves
one node in the place of those that it takes, so there are as many nodes as synthetic tokens.

Nothing is asked of the table here, not even that it comes from a grammar.  The tokens of the source
have to have text, since nothing else tells them from reduced rules.
-/

variable {σ : Type}

/-- The setting of the same run without a tree. -/
def Setting.treeless (setting : Setting σ) : Setting σ := { setting with keep := none }

/-- The machine of the same run without a tree. -/
def Machine.treeless (machine : Machine σ) : Machine σ := { machine with nodes := [] }

/-- There is a node for every synthetic token, and the token of the source that waits is not
synthetic. -/
structure Backed (machine : Machine σ) : Prop where
  nodes : machine.nodes.length = machine.tokens.countP Token.isSynthetic
  real : forall token, machine.lookahead.waiting = some (some token) -> token.isSynthetic = false

/-- The two steps of a run with a tree and of the same run without one.  If they accept, a single node
is left. -/
inductive InStep : Progress σ -> Progress σ -> Prop where
  | running (machine : Machine σ) (backed : Backed machine) :
      InStep (.running machine) (.running machine.treeless)
  | ended (outcome : Outcome) (machine : Machine σ)
      (single : outcome = .accepted -> machine.nodes.length = 1) :
      InStep (.ended outcome machine) (.ended outcome machine.treeless)

variable {setting : Setting σ} {keep : Token -> Bool} {machine : Machine σ}

theorem backed_start (state : σ) : Backed (.start state) :=
  ⟨rfl, fun _ impossible => by cases impossible⟩

theorem InStep.stopped (halt : Halt) (machine : Machine σ) :
    InStep (.ended (.stopped halt) machine) (.ended (.stopped halt) machine.treeless) :=
  .ended _ _ fun impossible => by cases impossible

theorem tokens_of_quiet (quiet : machine.lookahead.made = none) :
    machine.tokens = Frame.tokensOf machine.stack := by
  simp [Machine.tokens, quiet]

/-! ## Steps -/

theorem Backed.read (backed : Backed machine) (unread : machine.lookahead = .unread)
    (row : TableState)
    (real : forall token, (setting.source.next machine.source (.matching row.accepts)).1 =
      .ok (some token) -> token.isSynthetic = false) :
    InStep (setting.read machine row) (setting.treeless.read machine.treeless row) := by
  have nodes := backed.nodes
  rw [tokens_of_quiet (by rw [unread]; rfl)] at nodes
  have sameReply : setting.treeless.source.next machine.treeless.source (.matching row.accepts) =
      setting.source.next machine.source (.matching row.accepts) := rfl
  unfold Setting.read
  rw [sameReply]
  generalize setting.source.next machine.source (.matching row.accepts) = reply at real ⊢
  rcases reply with ⟨answer, source⟩
  cases answer with
  | error failure => exact .stopped _ _
  | ok result =>
      cases result with
      | none =>
          refine .running { machine with source, lookahead := .ready none } ⟨?_, ?_⟩
          · rw [tokens_of_quiet rfl]
            exact nodes
          · exact fun _ impossible => by cases impossible
      | some token =>
          have sameSkip : setting.treeless.skip = setting.skip := rfl
          dsimp only
          rw [sameSkip]
          split
          · exact .running { machine with source } ⟨backed.nodes, backed.real⟩
          · refine .running { machine with source, lookahead := .ready (some token) } ⟨?_, ?_⟩
            · rw [tokens_of_quiet rfl]
              exact nodes
            · intro other same
              cases same
              exact real token rfl

/-- A reduction finds a node for every synthetic token that it has popped, and leaves one more than
there are synthetic tokens below. -/
theorem Backed.nodesAfter (backed : Backed machine) (keeps : setting.keep = some keep)
    (quiet : machine.lookahead.made = none) (rule : ReduceRule) {popped : List Token}
    {below : List Frame} (pops : Frame.pop rule.symbols machine.stack = .ok (popped, below)) :
    Exists fun made => setting.nodesAfter rule popped machine.nodes = .ok made ∧
      made.length = (Frame.tokensOf below).countP Token.isSynthetic + 1 := by
  rcases Frame.of_pop pops with ⟨top, split, rfl, _⟩
  have count := backed.nodes
  rw [tokens_of_quiet quiet, split, Frame.tokensOf_append, List.countP_append] at count
  unfold Setting.nodesAfter PendingNode.reduce
  rw [keeps]
  dsimp only
  rw [if_neg (by omega)]
  refine ⟨_, rfl, ?_⟩
  rw [List.length_cons, List.length_drop]
  omega

theorem Backed.reduce (backed : Backed machine) (keeps : setting.keep = some keep)
    {waiting : Option Token} (ready : machine.lookahead = .ready waiting) (rule : ReduceRule) :
    InStep (setting.reduce machine rule waiting)
      (setting.treeless.reduce machine.treeless rule waiting) := by
  have quiet : machine.lookahead.made = none := by
    rw [ready]
    rfl
  have sameStack : machine.treeless.stack = machine.stack := rfl
  have sameCollections : machine.treeless.collections = machine.collections := rfl
  have noNodes : forall popped, setting.treeless.nodesAfter rule popped machine.treeless.nodes =
      .ok [] := fun _ => rfl
  have sameRoot : setting.treeless.table.root = setting.table.root := rfl
  unfold Setting.reduce
  rw [sameStack, sameCollections]
  cases pops : Frame.pop rule.symbols machine.stack with
  | error halt => exact .stopped _ _
  | ok parts =>
      rcases parts with ⟨popped, below⟩
      dsimp only
      cases rule.reduce popped machine.collections with
      | error halt => exact .stopped _ _
      | ok effects =>
          rcases effects with ⟨collections, call⟩
          rcases backed.nodesAfter keeps quiet rule pops with ⟨made, isMade, count⟩
          dsimp only
          rw [isMade, noNodes, sameRoot]
          dsimp only
          split
          next accepts =>
            refine .ended .accepted { machine with
              stack := below, collections, calls := call.toList ++ machine.calls, nodes := made }
              fun _ => ?_
            rw [List.isEmpty_iff.mp accepts.2.1] at count
            exact count
          · refine .running { machine with
              stack := below, collections, calls := call.toList ++ machine.calls, nodes := made
              lookahead := .reduced _ waiting } ⟨?_, ?_⟩
            · refine count.trans ?_
              simp [Machine.tokens, Lookahead.made, Token.isSynthetic, Token.synthetic]
            · intro token same
              exact backed.real token (by rw [ready]; exact same)

theorem Backed.reduceFor (backed : Backed machine) (keeps : setting.keep = some keep)
    {waiting : Option Token} (ready : machine.lookahead = .ready waiting) (row : TableState) :
    InStep (setting.reduceFor machine row waiting)
      (setting.treeless.reduceFor machine.treeless row waiting) := by
  unfold Setting.reduceFor
  dsimp only
  split
  · exact .stopped _ _
  · split
    · exact .stopped _ _
    · exact backed.reduce keeps ready _

/-- A token that is shifted is counted as before. -/
theorem Backed.push (backed : Backed machine) (token : Token) (target : Nat)
    {lookahead : Lookahead} (quiet : lookahead.made = none)
    (counted : machine.tokens.countP Token.isSynthetic =
      (Frame.tokensOf machine.stack ++ [token]).countP Token.isSynthetic)
    (real : forall token, lookahead.waiting = some (some token) -> token.isSynthetic = false) :
    InStep (machine.push token target lookahead) (machine.treeless.push token target lookahead) := by
  refine .running { machine with stack := ⟨token, target⟩ :: machine.stack, lookahead } ⟨?_, real⟩
  rw [tokens_push token target lookahead quiet, ← counted]
  exact backed.nodes

/-- Both runs take the same step. -/
theorem Backed.step (backed : Backed machine) (keeps : setting.keep = some keep)
    (real : forall token, setting.answer? machine = some (.ok (some token)) ->
      token.isSynthetic = false) :
    InStep (setting.step machine) (setting.treeless.step machine.treeless) := by
  have sameRow : setting.treeless.table.states[machine.treeless.state]? =
      setting.table.states[machine.state]? := rfl
  have sameLookahead : machine.treeless.lookahead = machine.lookahead := rfl
  unfold Setting.step
  rw [sameRow, sameLookahead]
  cases found : setting.table.states[machine.state]? with
  | none => exact .stopped _ _
  | some row =>
      dsimp only
      cases lookahead : machine.lookahead with
      | unread =>
          rw [answer?_unread lookahead found] at real
          exact backed.read lookahead row fun token gives => real token (congrArg some gives)
      | ready waiting =>
          cases waiting with
          | none => exact backed.reduceFor keeps lookahead row
          | some token =>
              have isReal := backed.real token (by rw [lookahead]; rfl)
              dsimp only
              split
              · refine backed.push token _ rfl ?_ fun _ impossible => by cases impossible
                simp [tokens_of_quiet (by rw [lookahead]; rfl : machine.lookahead.made = none),
                  isReal]
              · rw [isReal, if_neg Bool.false_ne_true, if_neg Bool.false_ne_true]
                exact backed.reduceFor keeps lookahead row
      | reduced nonterminal waiting =>
          dsimp only
          split
          · refine backed.push nonterminal _ rfl ?_ fun token same =>
              backed.real token (by rw [lookahead]; exact same)
            rw [Machine.tokens, lookahead]
            rfl
          · exact .stopped _ _

/-! ## Runs -/

/-- So both runs end in the same way, with the same reports. -/
theorem Backed.run (keeps : setting.keep = some keep) (limit : Nat) (backed : Backed machine)
    (real : forall token, .ok (some token) ∈ setting.answers limit machine ->
      token.isSynthetic = false) :
    setting.treeless.run limit machine.treeless =
      ((setting.run limit machine).1, (setting.run limit machine).2.treeless) ∧
    ((setting.run limit machine).1 = .accepted -> (setting.run limit machine).2.nodes.length = 1) := by
  induction limit generalizing machine with
  | zero => exact ⟨rfl, fun impossible => by cases impossible⟩
  | succ limit inductionHypothesis =>
      rw [Setting.answers] at real
      have inStep := backed.step keeps fun token asked =>
        real token (List.mem_append_left _ (by rw [asked]; exact List.mem_singleton_self _))
      rw [Setting.run, Setting.run]
      generalize setting.step machine = first at inStep real ⊢
      generalize setting.treeless.step machine.treeless = second at inStep ⊢
      cases inStep with
      | running next after =>
          exact inductionHypothesis after fun token asked =>
            real token (List.mem_append_right _ asked)
      | ended outcome last single => exact ⟨rfl, single⟩

namespace Setting

/-- After every number of steps, both runs have come to the same outcome and the same reports. -/
theorem run_inStep (keeps : setting.keep = some keep) (state : σ) (limit : Nat)
    (real : forall token, .ok (some token) ∈ setting.answers limit (.start state) ->
      token.isSynthetic = false) :
    ParseResult.ofRun (setting.treeless.run limit (.start state)) =
      .ofRun (setting.run limit (.start state)) := by
  have started : (Machine.start state).treeless = .start state := rfl
  rw [← started, ((backed_start state).run keeps limit real).1]
  rfl

/-- Parsing to a tree fails exactly if parsing fails, and with the same outcome; the reports are the
same in any case. -/
theorem parseTree_inStep (keeps : setting.keep = some keep) (state : σ)
    (real : forall limit token, .ok (some token) ∈ setting.answers limit (.start state) ->
      token.isSynthetic = false) :
    (setting.parseTree state).calls = (setting.treeless.parse state).calls ∧
    forall outcome, (setting.parseTree state).tree = .error outcome ↔
      outcome ≠ .accepted ∧ (setting.treeless.parse state).outcome = outcome := by
  have each := fun limit => (backed_start state).run keeps limit (real limit)
  have started : (Machine.start state).treeless = .start state := rfl
  rw [started] at each
  have together : forall limit, (setting.treeless.run limit (.start state)).1 =
      (setting.run limit (.start state)).1 := fun limit => by rw [(each limit).1]
  rcases exists_runs_eq_results together with ⟨limit, own, other⟩
  rcases each limit with ⟨same, single⟩
  unfold parse parseTree
  rw [← own, ← other, same]
  generalize setting.run limit (.start state) = ended at single ⊢
  refine ⟨TreeResult.calls_ofRun ended, fun outcome => ?_⟩
  rw [TreeResult.tree_ofRun_eq_error_iff]
  constructor
  · rintro (⟨fails, rfl⟩ | ⟨accepts, halt, impossible, _⟩)
    · exact ⟨fails, rfl⟩
    · rcases List.length_eq_one_iff.mp (single accepts) with ⟨node, nodes⟩
      rw [nodes] at impossible
      cases impossible
  · rintro ⟨fails, rfl⟩
    exact Or.inl ⟨fails, rfl⟩

end Setting

end ShiftReduce
