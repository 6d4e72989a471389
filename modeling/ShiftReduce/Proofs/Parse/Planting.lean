import ShiftReduce.Proofs.Grammar.Forests
import ShiftReduce.Proofs.Parse.Standing

namespace ShiftReduce

/-!
# The tree that a run grows

A run builds a derivation tree without knowing it.  Every token on the stack bears a tree: one that
has been read bears itself, and a rule that has been reduced bears the node of its production over
the trees of the popped tokens.  The leaves of these trees are what has been read, and the nodes that
wait for their place are those of the trees, so that an accepted run leaves the node of a tree of the
root.

Every step is paid for by something that lasts.  Reading is paid by an answer of the source, shifting
a token by a leaf, and reducing and shifting a rule by a node.  The number of steps follows from the
answers and from the size of the trees, whatever the table is.

Nothing is asked of the collections here, and so nothing of the effects of productions.
-/

namespace DerivationTree

variable (plain : PlainGrammar) (keep : Token -> Bool)

/-- The node of a tree that waits for its place. -/
def pending? : DerivationTree Token -> Option PendingNode
  | .leaf _ => none
  | .node production children => some (pendingOf plain production (plantedOfEach plain keep children))

/-- The tree stands on the stack under the token. -/
inductive BorneBy : Token -> DerivationTree Token -> Prop where
  | leaf (token : Token) (real : token.isSynthetic = false) : BorneBy token (.leaf token)
  | node (token : Token) (synthetic : token.isSynthetic = true) (production : Nat)
      (children : List (DerivationTree Token)) : BorneBy token (.node production children)

variable {plain} {keep} {tokens : List Token} {trees : List (DerivationTree Token)}

theorem filterMap_pending_node (production : Nat) (children rest : List (DerivationTree Token)) :
    (.node production children :: rest).filterMap (pending? plain keep) =
      pendingOf plain production (plantedOfEach plain keep children) ::
        rest.filterMap (pending? plain keep) :=
  List.filterMap_cons_some rfl

/-- The synthetic tokens are those that bear nodes. -/
theorem countP_synthetic (borne : List.Forall₂ BorneBy tokens trees) :
    tokens.countP Token.isSynthetic = (trees.filterMap (pending? plain keep)).length := by
  induction borne with
  | nil => rfl
  | cons first _ inductionHypothesis =>
      cases first with
      | leaf real =>
          rw [List.countP_cons_of_neg (by rw [real]; exact Bool.false_ne_true),
            List.filterMap_cons_none rfl, inductionHypothesis]
      | node synthetic production children =>
          rw [List.countP_cons_of_pos synthetic, inductionHypothesis, filterMap_pending_node]
          rfl

/-- The children of a reduction are those that the trees of the popped tokens add. -/
theorem childrenOf_eq (borne : List.Forall₂ BorneBy tokens trees) :
    PendingNode.childrenOf keep tokens (trees.filterMap (pending? plain keep)) =
      plantedOfEach plain keep trees := by
  induction borne with
  | nil => rfl
  | cons first _ inductionHypothesis =>
      cases first with
      | leaf real =>
          rw [List.filterMap_cons_none rfl, plantedOfEach, planted, leavesOf,
            PendingNode.childrenOf.eq_def]
          dsimp only
          rw [real, inductionHypothesis, if_neg Bool.false_ne_true]
          split <;> rfl
      | node synthetic production children =>
          rw [filterMap_pending_node, plantedOfEach, planted, PendingNode.childrenOf.eq_def]
          dsimp only
          rw [if_pos synthetic, inductionHypothesis]

end DerivationTree

open DerivationTree

variable {σ : Type}

/-- The token that has just been reduced and those of the stack, in the order of the input. -/
def Machine.tokens (machine : Machine σ) : List Token :=
  Frame.tokensOf machine.stack ++ machine.lookahead.made.toList

/-- How a machine stands that has taken `steps` steps, got the answers `heard` and grown trees over
`word`. -/
structure Planted (setting : Setting σ) (plain : PlainGrammar) (heard : List Answer)
    (machine : Machine σ) (trees : List (DerivationTree Token)) (word : List Token)
    (steps : Nat) : Prop where
  stacked : Stacked plain setting.table plain.kernels machine.stack
  borne : List.Forall₂ BorneBy machine.tokens trees
  grows : plain.Grows Token.name (machine.tokens.map Token.name) trees word
  nodes : forall keep, setting.keep = some keep ->
    machine.nodes = (trees.filterMap (pending? plain keep)).reverse
  answers : setting.Heard heard word machine.lookahead.waiting
  waiting : forall token, machine.lookahead.waiting = some (some token) ->
    token.isSynthetic = false ∧ ¬ plain.IsNonterminal token.name
  spent : steps + machine.lookahead.made.toList.length =
    heard.length + word.length + 2 * nodeCountOfEach trees

/-- What a run comes to that has taken `steps` steps. -/
inductive Bears (setting : Setting σ) (plain : PlainGrammar) (heard : List Answer) :
    Outcome -> Machine σ -> Nat -> Prop where
  | accepted (machine : Machine σ) (tree : DerivationTree Token) (word : List Token) (steps : Nat)
      (grows : plain.Grows Token.name [plain.root] [tree] word)
      (node : forall keep, setting.keep = some keep ->
        machine.nodes = (tree.pending? plain keep).toList)
      (answers : setting.Heard heard word (some none))
      (spent : steps + 1 = heard.length + word.length + 2 * tree.nodeCount) :
      Bears setting plain heard .accepted machine steps
  | stopped (machine : Machine σ) (halt : Halt) (steps : Nat) :
      Bears setting plain heard (.stopped halt) machine steps
  | unfinished (machine : Machine σ) (trees : List (DerivationTree Token)) (word : List Token)
      (steps : Nat) (planted : Planted setting plain heard machine trees word steps) :
      Bears setting plain heard .unfinished machine steps

/-- What one step comes to, after which `steps` have been taken. -/
inductive Grown (setting : Setting σ) (plain : PlainGrammar) (heard : List Answer) :
    Progress σ -> Nat -> Prop where
  | running (machine : Machine σ) (trees : List (DerivationTree Token)) (word : List Token)
      (steps : Nat) (planted : Planted setting plain heard machine trees word steps) :
      Grown setting plain heard (.running machine) steps
  | ended (outcome : Outcome) (machine : Machine σ) (steps : Nat)
      (bears : Bears setting plain heard outcome machine steps) :
      Grown setting plain heard (.ended outcome machine) steps

variable {setting : Setting σ} {plain : PlainGrammar} {heard : List Answer} {machine : Machine σ}
  {trees : List (DerivationTree Token)} {word : List Token} {steps : Nat}

theorem planted_start (state : σ) : Planted setting plain [] (.start state) [] [] 0 :=
  ⟨.empty, .nil, .nil, fun _ _ => rfl, ⟨[], rfl, rfl⟩, fun _ impossible => (by cases impossible),
    rfl⟩

theorem tokens_push (token : Token) (target : Nat) (lookahead : Lookahead)
    (quiet : lookahead.made = none) :
    Machine.tokens { machine with stack := ⟨token, target⟩ :: machine.stack, lookahead } =
      Frame.tokensOf machine.stack ++ [token] := by
  unfold Machine.tokens
  rw [quiet, Frame.tokensOf, List.map_cons, List.reverse_cons]
  exact List.append_nil _

/-! ## Reading and shifting -/

/-- An answer pays for the step that asks for it. -/
private theorem Planted.paid (planted : Planted setting plain heard machine trees word steps)
    (unread : machine.lookahead = .unread) (answer : Answer) : steps + 1 + 0 =
      (heard ++ [answer]).length + word.length + 2 * nodeCountOfEach trees := by
  have before : steps + 0 = heard.length + word.length + 2 * nodeCountOfEach trees := by
    have spent := planted.spent
    rw [unread] at spent
    exact spent
  rw [List.length_append, List.length_singleton, Nat.add_zero]
  omega

theorem Planted.exhausted (planted : Planted setting plain heard machine trees word steps)
    (unread : machine.lookahead = .unread) (source : σ) :
    Planted setting plain (heard ++ [.ok none]) { machine with source, lookahead := .ready none }
      trees word (steps + 1) := by
  have soFar := planted.answers
  have borne := planted.borne
  have grows := planted.grows
  unfold Machine.tokens at borne grows
  rw [unread] at soFar borne grows
  refine ⟨planted.stacked, borne, grows, planted.nodes, soFar.ended, ?_, planted.paid unread _⟩
  exact fun _ impossible => by cases impossible

theorem Planted.skipped (planted : Planted setting plain heard machine trees word steps)
    (unread : machine.lookahead = .unread) {token : Token} (skip : token.name ∈ setting.skip)
    (source : σ) :
    Planted setting plain (heard ++ [.ok (some token)]) { machine with source } trees word
      (steps + 1) := by
  have soFar := planted.answers
  rw [unread] at soFar
  refine ⟨planted.stacked, planted.borne, planted.grows, planted.nodes, ?_, planted.waiting, ?_⟩
  · dsimp only
    rw [unread]
    exact soFar.skipped skip
  · dsimp only
    rw [unread]
    exact planted.paid unread _

theorem Planted.received (planted : Planted setting plain heard machine trees word steps)
    (unread : machine.lookahead = .unread) {token : Token} (kept : token.name ∉ setting.skip)
    (offered : token.isSynthetic = false ∧ ¬ plain.IsNonterminal token.name) (source : σ) :
    Planted setting plain (heard ++ [.ok (some token)])
      { machine with source, lookahead := .ready (some token) } trees word (steps + 1) := by
  have soFar := planted.answers
  have borne := planted.borne
  have grows := planted.grows
  unfold Machine.tokens at borne grows
  rw [unread] at soFar borne grows
  refine ⟨planted.stacked, borne, grows, planted.nodes, soFar.read kept, ?_,
    planted.paid unread _⟩
  intro other same
  cases same
  exact offered

theorem Planted.shift (drives : Drives plain setting.table plain.kernels)
    (planted : Planted setting plain heard machine trees word steps) {token : Token}
    (ready : machine.lookahead = .ready (some token)) {row : TableState}
    (found : setting.table.states[machine.state]? = some row) {target : Nat}
    (shifted : row.shift.get? token.name = some target) :
    Planted setting plain heard
      { machine with stack := ⟨token, target⟩ :: machine.stack, lookahead := .unread }
      (trees ++ [.leaf token]) (word ++ [token]) (steps + 1) := by
  have soFar := planted.answers
  have spent := planted.spent
  have borne := planted.borne
  have grows := planted.grows
  have waiting := planted.waiting token
  unfold Machine.tokens at borne grows
  rw [ready] at soFar spent borne grows waiting
  rcases waiting rfl with ⟨real, terminal⟩
  rw [state_eq] at found
  have quiet : (Lookahead.ready (some token)).made.toList = [] := rfl
  rw [quiet, List.append_nil] at borne grows
  have single : plain.Grows Token.name [token.name] [.leaf token] [token] :=
    .leaf token [] [] [] terminal .nil
  refine ⟨planted.stacked.shift drives found shifted, ?_, ?_, ?_, soFar.shifted, ?_, ?_⟩
  · rw [tokens_push token target .unread rfl]
    exact List.rel_append borne (.cons (.leaf token real) .nil)
  · rw [tokens_push token target .unread rfl, List.map_append]
    exact grows.append single
  · intro keep isKept
    rw [List.filterMap_append]
    exact (planted.nodes keep isKept).trans (congrArg List.reverse (List.append_nil _).symm)
  · exact fun _ impossible => by cases impossible
  · rw [quiet] at spent
    rw [List.length_append, nodeCountOfEach_append, nodeCountOfEach_singleton]
    have before : steps + 0 = heard.length + word.length + 2 * nodeCountOfEach trees := spent
    change steps + 1 + 0 = heard.length + (word.length + 1) + 2 * (nodeCountOfEach trees + 0)
    omega

theorem Planted.follow (drives : Drives plain setting.table plain.kernels)
    (planted : Planted setting plain heard machine trees word steps) {nonterminal : Token}
    {waiting : Option Token} (reduced : machine.lookahead = .reduced nonterminal waiting)
    {row : TableState} (found : setting.table.states[machine.state]? = some row) {target : Nat}
    (shifted : row.shift.get? nonterminal.name = some target) :
    Planted setting plain heard
      { machine with stack := ⟨nonterminal, target⟩ :: machine.stack, lookahead := .ready waiting }
      trees word (steps + 1) := by
  have soFar := planted.answers
  have spent := planted.spent
  have borne := planted.borne
  have grows := planted.grows
  have later := planted.waiting
  unfold Machine.tokens at borne grows
  rw [reduced] at soFar spent borne grows later
  rw [state_eq] at found
  refine ⟨planted.stacked.shift drives found shifted, ?_, ?_, planted.nodes, soFar, later, spent⟩
  · rw [tokens_push nonterminal target (.ready waiting) rfl]
    exact borne
  · rw [tokens_push nonterminal target (.ready waiting) rfl]
    exact grows

/-! ## Reducing -/

/-- The nodes after a reduction are those of the trees after it. -/
theorem nodesAfter_planted {tokens : List Token} {rest children : List (DerivationTree Token)}
    (borne : List.Forall₂ BorneBy tokens children) {nodes : List PendingNode}
    (before : forall keep, setting.keep = some keep ->
      nodes = ((rest ++ children).filterMap (pending? plain keep)).reverse) {number : Nat}
    {pair : PlainRule × PlainProduction} (known : plain.productions[number]? = some pair) :
    Exists fun made =>
      setting.nodesAfter (PlainGrammar.reduceRule pair) tokens nodes = .ok made ∧
      forall keep, setting.keep = some keep ->
        made = ((rest ++ [DerivationTree.node number children]).filterMap
          (pending? plain keep)).reverse := by
  unfold Setting.nodesAfter
  cases isKept : setting.keep with
  | none => exact ⟨nodes, rfl, fun _ impossible => by cases impossible⟩
  | some keep =>
      have own : forall other, some keep = some other -> keep = other := fun _ => Option.some.inj
      have wanted : tokens.countP Token.isSynthetic =
          (children.filterMap (pending? plain keep)).length := countP_synthetic borne
      have waiting : nodes = (children.filterMap (pending? plain keep)).reverse ++
          (rest.filterMap (pending? plain keep)).reverse := by
        rw [before keep isKept, List.filterMap_append, List.reverse_append]
      have length : tokens.countP Token.isSynthetic =
          (children.filterMap (pending? plain keep)).reverse.length := by
        rw [wanted, List.length_reverse]
      dsimp only
      unfold PendingNode.reduce
      dsimp only
      rw [waiting, length, List.take_left, List.drop_left, List.reverse_reverse,
        childrenOf_eq borne, if_neg (by rw [List.length_append]; omega)]
      refine ⟨_, rfl, ?_⟩
      intro other same
      rw [← own other same, List.filterMap_append, List.reverse_append, filterMap_pending_node,
        pendingOf, known]
      rfl

/-- The trees and their leaves on both sides of a cut through the stack, behind which the symbols of
`pair` stand. -/
structure Divided (setting : Setting σ) (plain : PlainGrammar)
    (pair : PlainRule × PlainProduction) (popped below : List Frame)
    (rest children : List (DerivationTree Token)) (front inner : List Token) : Prop where
  stacked : Stacked plain setting.table plain.kernels below
  pops : Frame.pop pair.2.symbols (popped ++ below) = .ok (Frame.tokensOf popped, below)
  borneRest : List.Forall₂ BorneBy (Frame.tokensOf below) rest
  borneChildren : List.Forall₂ BorneBy (Frame.tokensOf popped) children
  growsRest : plain.Grows Token.name ((Frame.tokensOf below).map Token.name) rest front
  growsChildren : plain.Grows Token.name pair.2.symbols children inner

/-- The trees are divided where the stack is. -/
theorem Planted.divided (drives : Drives plain setting.table plain.kernels)
    (planted : Planted setting plain heard machine trees word steps)
    (quiet : machine.lookahead.made = none) {number : Nat} {pair : PlainRule × PlainProduction}
    (known : plain.productions[number]? = some pair)
    (complete : plain.InClosure (plain.kernels (stateOf machine.stack))
      ⟨number, pair.2.symbols.length⟩) :
    Exists fun popped => Exists fun below => Exists fun rest => Exists fun children =>
      Exists fun front => Exists fun inner =>
        machine.stack = popped ++ below ∧ trees = rest ++ children ∧ word = front ++ inner ∧
        Divided setting plain pair popped below rest children front inner := by
  have borne := planted.borne
  have grows := planted.grows
  unfold Machine.tokens at borne grows
  rcases planted.stacked.complete drives known complete with
    ⟨popped, below, split, names, length, stacked, _⟩
  have poppedNames : (Frame.tokensOf popped).map Token.name = pair.2.symbols :=
    (Frame.names_tokensOf popped).trans names
  rw [quiet, Option.toList_none, List.append_nil, split, Frame.tokensOf_append] at borne grows
  rw [List.map_append, poppedNames] at grows
  rcases grows.split with ⟨rest, children, front, inner, rfl, rfl, growsRest, growsChildren⟩
  have restLength : rest.length = (Frame.tokensOf below).length := by
    rw [growsRest.length, List.length_map]
  have borneRest := List.forall₂_take_append _ _ _ borne
  have borneChildren := List.forall₂_drop_append _ _ _ borne
  rw [restLength, List.take_left] at borneRest
  rw [restLength, List.drop_left] at borneChildren
  exact ⟨popped, below, rest, children, front, inner, split, rfl, rfl, stacked,
    Frame.pop_eq names length, borneRest, borneChildren, growsRest, growsChildren⟩

/-- A reduction puts a node in the place of the trees of the popped tokens. -/
theorem Planted.reduce (drives : Drives plain setting.table plain.kernels)
    (planted : Planted setting plain heard machine trees word steps) {waiting : Option Token}
    (ready : machine.lookahead = .ready waiting) {row : TableState}
    (found : setting.table.states[machine.state]? = some row) {name : String} {index : Nat}
    (claimed : row.reduce.get? name = some index) {rule : ReduceRule}
    (atIndex : row.rules[index]? = some rule) :
    Grown setting plain heard (setting.reduce machine rule waiting) (steps + 1) := by
  have soFar := planted.answers
  have spent := planted.spent
  have later := planted.waiting
  rw [ready] at soFar spent later
  rw [state_eq] at found
  rcases drives.reduce _ row name index found claimed with
    ⟨number, pair, known, sameIndex, complete⟩
  have sameRule := Option.some.inj (atIndex.symm.trans sameIndex)
  rcases planted.divided drives (by rw [ready]; rfl) known complete with
    ⟨popped, below, rest, children, front, inner, split, rfl, rfl, divided⟩
  rcases nodesAfter_planted divided.borneChildren planted.nodes known with ⟨nodes, made, after⟩
  have node : plain.Grows Token.name [pair.1.name] [.node number children] inner := by
    have all := PlainGrammar.Grows.node number pair children inner [] [] [] known
      divided.growsChildren .nil
    rwa [List.append_nil] at all
  have paid : steps + 1 + 1 = heard.length + (front ++ inner).length +
      2 * nodeCountOfEach (rest ++ [.node number children]) := by
    rw [nodeCountOfEach_append] at spent
    rw [nodeCountOfEach_append, nodeCountOfEach_singleton, nodeCount]
    have before : steps + 0 = heard.length + (front ++ inner).length +
      2 * (nodeCountOfEach rest + nodeCountOfEach children) := spent
    omega
  have pops : Frame.pop (PlainGrammar.reduceRule pair).symbols (popped ++ below) =
      .ok (Frame.tokensOf popped, below) := divided.pops
  unfold Setting.reduce
  rw [sameRule, split, pops]
  dsimp only
  split
  · exact .ended _ _ _ (.stopped _ _ _)
  next collections call effect =>
    rw [made]
    dsimp only
    split
    next accepts =>
      rcases accepts with ⟨ended, emptied, isRoot⟩
      have growsRest := divided.growsRest
      rw [List.isEmpty_iff.mp emptied] at growsRest
      rcases growsRest.eq_nil with ⟨rfl, rfl⟩
      have isRoot : pair.1.name = plain.root := isRoot.trans drives.root
      rw [isRoot] at node
      rw [Option.isNone_iff_eq_none.mp ended] at soFar
      refine .ended _ _ _ (.accepted _ (.node number children) _ _ node ?_ soFar ?_)
      · intro keep isKept
        rw [after keep isKept]
        rfl
      · rw [paid, List.nil_append, List.nil_append, nodeCountOfEach_singleton]
    · refine .running _ (rest ++ [DerivationTree.node number children]) _ _
        ⟨divided.stacked, ?_, ?_, after, soFar, later, paid⟩
      · exact List.rel_append divided.borneRest (.cons (.node _ rfl number children) .nil)
      · unfold Machine.tokens
        rw [List.map_append]
        exact divided.growsRest.append node

/-- Each step grows the trees or ends the run. -/
theorem Planted.step (drives : Drives plain setting.table plain.kernels)
    (planted : Planted setting plain heard machine trees word steps)
    (offers : forall token, setting.answer? machine = some (.ok (some token)) ->
      token.isSynthetic = false ∧ ¬ plain.IsNonterminal token.name) :
    Grown setting plain (heard ++ (setting.answer? machine).toList) (setting.step machine)
      (steps + 1) := by
  have comes := setting.steps_step machine
  generalize setting.step machine = progress at comes ⊢
  cases comes with
  | lost | failed | interrupted | rejected | unnamed => exact .ended _ _ _ (.stopped _ _ _)
  | exhausted row source found unread reply =>
      rw [Setting.answer?_of_reply unread found reply]
      exact .running _ trees word _ (planted.exhausted unread source)
  | skipped row token source found unread reply skip =>
      rw [Setting.answer?_of_reply unread found reply]
      exact .running _ trees word _ (planted.skipped unread skip source)
  | received row token source found unread reply kept =>
      have offered := offers token (Setting.answer?_of_reply unread found reply)
      rw [Setting.answer?_of_reply unread found reply]
      exact .running _ trees word _ (planted.received unread kept offered source)
  | shifted row token target found ready shifts =>
      rw [answer?_of_ready ready, Option.toList_none, List.append_nil]
      exact .running _ _ _ _ (planted.shift drives ready found shifts)
  | reduced row waiting name index rule found ready claimed named =>
      rw [answer?_of_ready ready, Option.toList_none, List.append_nil]
      exact planted.reduce drives ready found claimed named
  | followed row nonterminal waiting target found made shifts =>
      rw [answer?_of_reduced made, Option.toList_none, List.append_nil]
      exact .running _ _ _ _ (planted.follow drives made found shifts)

/-! ## Whole runs -/

/-- A run grows trees with every step that it takes, and takes no step after the last. -/
theorem Planted.run (drives : Drives plain setting.table plain.kernels) (limit : Nat)
    (planted : Planted setting plain heard machine trees word steps)
    (offers : forall token, .ok (some token) ∈ setting.answers limit machine ->
      token.isSynthetic = false ∧ ¬ plain.IsNonterminal token.name) :
    Exists fun taken => taken ≤ limit ∧ setting.run taken machine = setting.run limit machine ∧
      Bears setting plain (heard ++ setting.answers limit machine) (setting.run limit machine).1
        (setting.run limit machine).2 (steps + taken) := by
  induction limit generalizing heard machine trees word steps with
  | zero =>
      refine ⟨0, Nat.le_refl _, rfl, ?_⟩
      rw [Setting.answers, List.append_nil]
      exact .unfinished machine trees word steps planted
  | succ limit inductionHypothesis =>
      rw [Setting.answers] at offers ⊢
      have grown := planted.step drives fun token asked =>
        offers token (List.mem_append_left _ (by rw [asked]; exact List.mem_singleton_self _))
      cases result : setting.step machine with
      | running next =>
          rw [result] at grown offers
          cases grown with
          | running _ others longer _ after =>
              rcases inductionHypothesis after
                (fun token inside => offers token (List.mem_append_right _ inside)) with
                ⟨taken, few, same, bears⟩
              have goes : forall count,
                  setting.run (count + 1) machine = setting.run count next := by
                intro count
                rw [Setting.run, result]
              refine ⟨taken + 1, Nat.succ_le_succ few, ?_, ?_⟩
              · rw [goes, goes, same]
              · rw [goes, ← List.append_assoc, ← Nat.add_assoc, Nat.add_right_comm]
                exact bears
      | ended outcome last =>
          rw [result] at grown
          have stops : forall count, setting.run (count + 1) machine = (outcome, last) := by
            intro count
            rw [Setting.run, result]
          refine ⟨1, Nat.succ_le_succ (Nat.zero_le _), ?_, ?_⟩
          · rw [stops, ← Nat.zero_add 1, stops]
          · dsimp only
            rw [stops, List.append_nil]
            cases grown with
            | ended _ _ _ bears => exact bears

end ShiftReduce
