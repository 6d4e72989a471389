import ShiftReduce.Proofs.Parse.Pruning
import ShiftReduce.Proofs.Parse.TreeReports
import ShiftReduce.Proofs.Text.Tilings

namespace ShiftReduce

/-!
# A tree has every token once

The nodes that wait for their place and the tokens on the stack are matched by their number and order
alone.  What a machine stands for are the leaves that it would have if everything on its stack were
put into one node.  A reduction does not change them: the nodes that it takes are those of the tokens
that it pops, because there is a node for every synthetic token, and whether its own node is spliced
or stays whole, the leaves are the same.  A shift adds the token that was read, so the leaves are the
tokens that have been read and not skipped.

Nothing is asked of the table here, and nothing of names.
-/

open ParseTree

namespace PendingNode

/-- Whether its node is spliced or not, a reduction passes its leaves on. -/
theorem leavesOfEach_contribution (node : PendingNode) :
    leavesOfEach node.contribution = leavesOfEach node.children := by
  unfold contribution
  split
  · rfl
  · exact List.append_nil _

/-- Children are made part by part if the nodes are divided as the tokens are. -/
theorem childrenOf_append (keep : Token -> Bool) {tokens : List Token} (others : List Token)
    {nodes : List PendingNode} (more : List PendingNode)
    (counted : nodes.length = tokens.countP Token.isSynthetic) :
    childrenOf keep (tokens ++ others) (nodes ++ more) =
      childrenOf keep tokens nodes ++ childrenOf keep others more := by
  induction tokens generalizing nodes with
  | nil =>
      rw [List.length_eq_zero_iff.mp counted]
      rfl
  | cons token rest inductionHypothesis =>
      rw [List.cons_append, childrenOf.eq_def, childrenOf.eq_def keep (token :: rest)]
      dsimp only
      cases synthetic : token.isSynthetic with
      | true =>
          rw [List.countP_cons_of_pos synthetic] at counted
          cases nodes with
          | nil => cases counted
          | cons node nodes =>
              rw [if_pos rfl, if_pos rfl, List.cons_append]
              dsimp only
              rw [inductionHypothesis (Nat.succ.inj counted), List.append_assoc]
      | false =>
          rw [List.countP_cons_of_neg (by rw [synthetic]; exact Bool.false_ne_true)] at counted
          rw [if_neg Bool.false_ne_true, if_neg Bool.false_ne_true, inductionHypothesis counted]
          split <;> rfl

end PendingNode

open PendingNode

variable {σ : Type}

/-- The leaves that the machine would have if everything on its stack were put into one node. -/
def Machine.leaves (machine : Machine σ) : List Token :=
  leavesOfEach (childrenOf (fun _ => true) machine.tokens machine.nodes.reverse)

variable {setting : Setting σ} {machine : Machine σ} {heard : List Answer}

/-! ## Reductions -/

theorem Backed.reversed (backed : Backed machine) :
    machine.nodes.reverse.length = machine.tokens.countP Token.isSynthetic :=
  List.length_reverse.trans backed.nodes

/-- The node of a reduction has the leaves of the tokens that are popped, and the nodes below it have
those of the tokens below. -/
theorem Backed.leaves_reduce (backed : Backed machine) (quiet : machine.lookahead.made = none)
    {rule : ReduceRule} {popped : List Token} {below : List Frame}
    (pops : Frame.pop rule.symbols machine.stack = .ok (popped, below)) {made : List PendingNode}
    (reduced : PendingNode.reduce (fun _ => true) rule popped machine.nodes = .ok made) :
    Exists fun node => Exists fun rest => made = node :: rest ∧
      rest.reverse.length = (Frame.tokensOf below).countP Token.isSynthetic ∧
      machine.leaves =
        leavesOfEach (childrenOf (fun _ => true) (Frame.tokensOf below) rest.reverse) ++
          leavesOfEach node.children := by
  rcases Frame.of_pop pops with ⟨top, split, rfl, _⟩
  have count := backed.nodes
  rw [tokens_of_quiet quiet, split, Frame.tokensOf_append, List.countP_append] at count
  unfold PendingNode.reduce at reduced
  dsimp only at reduced
  rw [if_neg (by omega)] at reduced
  cases reduced
  generalize wanted : (Frame.tokensOf top).countP Token.isSynthetic = taken at count
  have belowCount : (machine.nodes.drop taken).reverse.length =
      (Frame.tokensOf below).countP Token.isSynthetic := by
    rw [List.length_reverse, List.length_drop]
    omega
  refine ⟨_, _, rfl, belowCount, ?_⟩
  rw [Machine.leaves, tokens_of_quiet quiet, split, Frame.tokensOf_append,
    ← Grammar.leavesOfEach_append, ← childrenOf_append _ _ _ belowCount, ← List.reverse_append,
    List.take_append_drop]

/-- A rule that has just been reduced stands for the leaves of its node. -/
theorem leaves_of_made {name : String} {position : Position} {waiting : Option Token}
    (made : machine.lookahead = .reduced (.synthetic name position) waiting) {node : PendingNode}
    {rest : List PendingNode} (nodes : machine.nodes = node :: rest)
    (counted : rest.reverse.length = (Frame.tokensOf machine.stack).countP Token.isSynthetic) :
    machine.leaves =
      leavesOfEach (childrenOf (fun _ => true) (Frame.tokensOf machine.stack) rest.reverse) ++
        leavesOfEach node.children := by
  have own : childrenOf (fun _ => true) [.synthetic name position] [node] = node.contribution :=
    List.append_nil _
  have tokens : machine.tokens = Frame.tokensOf machine.stack ++ [.synthetic name position] := by
    rw [Machine.tokens, made]
    rfl
  rw [Machine.leaves, tokens, nodes, List.reverse_cons, childrenOf_append _ _ _ counted, own,
    Grammar.leavesOfEach_append, leavesOfEach_contribution]

/-! ## Steps -/

/-- What a step comes to, when the answers of the source are `heard`. -/
inductive Bundles (setting : Setting σ) (heard : List Answer) : Progress σ -> Prop where
  | running (machine : Machine σ)
      (read : setting.Heard heard machine.leaves machine.lookahead.waiting) :
      Bundles setting heard (.running machine)
  | accepted (machine : Machine σ) (node : PendingNode) (single : machine.nodes = [node])
      (read : setting.Heard heard (leavesOfEach node.children) (some none)) :
      Bundles setting heard (.ended .accepted machine)
  | stopped (machine : Machine σ) (halt : Halt) :
      Bundles setting heard (.ended (.stopped halt) machine)

/-- What is read does not change the leaves. -/
theorem leaves_of_quiet (unread : machine.lookahead = .unread) {lookahead : Lookahead}
    (quiet : lookahead.made = none) (source : σ) :
    Machine.leaves { machine with source, lookahead } = machine.leaves := by
  have before : machine.tokens = Frame.tokensOf machine.stack :=
    tokens_of_quiet (by rw [unread]; rfl)
  have after : Machine.tokens { machine with source, lookahead } = Frame.tokensOf machine.stack :=
    tokens_of_quiet quiet
  rw [Machine.leaves, Machine.leaves, after, before]

/-- A token that is shifted is the last leaf. -/
theorem Backed.leaves_shift (backed : Backed machine) {token : Token}
    (ready : machine.lookahead = .ready (some token)) (target : Nat) :
    Machine.leaves { machine with stack := ⟨token, target⟩ :: machine.stack, lookahead := .unread } =
      machine.leaves ++ [token] := by
  have real := backed.real token (by rw [ready]; rfl)
  have before : machine.tokens = Frame.tokensOf machine.stack :=
    tokens_of_quiet (by rw [ready]; rfl)
  have counted := backed.reversed
  rw [before] at counted
  have single : childrenOf (fun _ => true) [token] [] = [.leaf token] := by
    unfold childrenOf
    rw [real]
    rfl
  have divided := childrenOf_append (fun _ => true) [token] [] counted
  rw [List.append_nil, single] at divided
  rw [Machine.leaves, Machine.leaves, tokens_push token target .unread rfl, before]
  dsimp only
  rw [divided, Grammar.leavesOfEach_append]
  rfl

/-- A rule that is shifted stands for what it stood for. -/
theorem leaves_follow {nonterminal : Token} {waiting : Option Token}
    (made : machine.lookahead = .reduced nonterminal waiting) (target : Nat) :
    Machine.leaves
      { machine with stack := ⟨nonterminal, target⟩ :: machine.stack, lookahead := .ready waiting } =
      machine.leaves := by
  have same : machine.tokens = Frame.tokensOf machine.stack ++ [nonterminal] := by
    rw [Machine.tokens, made]
    rfl
  rw [Machine.leaves, Machine.leaves, tokens_push nonterminal target (.ready waiting) rfl, same]

theorem Backed.bundles_reduce (backed : Backed machine) (keeps : setting.keep = some fun _ => true)
    {waiting : Option Token} (ready : machine.lookahead = .ready waiting)
    (read : setting.Heard heard machine.leaves (some waiting)) (rule : ReduceRule) :
    Bundles setting heard (setting.reduce machine rule waiting) := by
  unfold Setting.reduce
  split
  · exact .stopped _ _
  next popped below pops =>
    split
    · exact .stopped _ _
    next collections call _ =>
      dsimp only
      split
      · exact .stopped _ _
      next nodes reduced =>
        unfold Setting.nodesAfter at reduced
        rw [keeps] at reduced
        rcases backed.leaves_reduce (by rw [ready]; rfl) pops reduced with
          ⟨node, rest, rfl, counted, leaves⟩
        rw [leaves] at read
        split
        next accepts =>
          rw [List.isEmpty_iff.mp accepts.2.1] at counted read
          have nothing : rest = [] :=
            List.reverse_eq_nil_iff.mp (List.length_eq_zero_iff.mp counted)
          rw [Option.isNone_iff_eq_none.mp accepts.1] at read
          exact .accepted _ node (by rw [nothing]) read
        · refine .running _ ?_
          rw [leaves_of_made rfl rfl counted]
          exact read

/-- Each step hands on what has been read as leaves. -/
theorem Backed.bundles_step (backed : Backed machine) (keeps : setting.keep = some fun _ => true)
    (read : setting.Heard heard machine.leaves machine.lookahead.waiting) :
    Bundles setting (heard ++ (setting.answer? machine).toList) (setting.step machine) := by
  have steps := setting.steps_step machine
  generalize setting.step machine = progress at steps ⊢
  cases steps with
  | lost | failed | interrupted | rejected | unnamed => exact .stopped _ _
  | exhausted row source found unread reply =>
      rw [unread] at read
      rw [Setting.answer?_of_reply unread found reply]
      refine .running _ ?_
      rw [leaves_of_quiet unread rfl]
      exact read.ended
  | skipped row token source found unread reply skip =>
      rw [Setting.answer?_of_reply unread found reply]
      have waiting : machine.lookahead.waiting = none := by
        rw [unread]
        rfl
      rw [waiting] at read
      have after := read.skipped skip
      rw [← waiting] at after
      exact .running { machine with source } after
  | received row token source found unread reply kept =>
      rw [unread] at read
      rw [Setting.answer?_of_reply unread found reply]
      refine .running _ ?_
      rw [leaves_of_quiet unread rfl]
      exact read.read kept
  | shifted row token target found ready shifts =>
      rw [answer?_of_ready ready, Option.toList_none, List.append_nil]
      rw [ready] at read
      refine .running _ ?_
      rw [backed.leaves_shift ready]
      exact read.shifted
  | reduced row waiting name index rule found ready claimed named =>
      rw [answer?_of_ready ready, Option.toList_none, List.append_nil]
      rw [ready] at read
      exact backed.bundles_reduce keeps ready read rule
  | followed row nonterminal waiting target found made shifts =>
      rw [answer?_of_reduced made, Option.toList_none, List.append_nil]
      rw [made] at read
      refine .running _ ?_
      rw [leaves_follow made]
      exact read

/-- After every step there is a node for every synthetic token. -/
theorem Backed.of_running (backed : Backed machine) {keep : Token -> Bool}
    (keeps : setting.keep = some keep)
    (real : forall token, setting.answer? machine = some (.ok (some token)) ->
      token.isSynthetic = false)
    {next : Machine σ} (goes : setting.step machine = .running next) : Backed next := by
  have inStep := backed.step keeps real
  rw [goes] at inStep
  generalize setting.treeless.step machine.treeless = other at inStep
  cases inStep with
  | running _ after => exact after

/-! ## Runs -/

/-- A run that is accepted leaves one node, and its leaves are what has been read and not skipped. -/
theorem Backed.bundles_run (keeps : setting.keep = some fun _ => true) (limit : Nat)
    (backed : Backed machine) (read : setting.Heard heard machine.leaves machine.lookahead.waiting)
    (real : forall token, .ok (some token) ∈ setting.answers limit machine ->
      token.isSynthetic = false)
    (accepted : (setting.run limit machine).1 = .accepted) :
    Exists fun node => (setting.run limit machine).2.nodes = [node] ∧
      setting.Heard (heard ++ setting.answers limit machine) (leavesOfEach node.children)
        (some none) := by
  induction limit generalizing machine heard with
  | zero => cases accepted
  | succ limit inductionHypothesis =>
      rw [Setting.answers] at real ⊢
      rw [Setting.run] at accepted ⊢
      have offered : forall token, setting.answer? machine = some (.ok (some token)) ->
          token.isSynthetic = false := fun token asked =>
        real token (List.mem_append_left _ (by rw [asked]; exact List.mem_singleton_self _))
      have bundles := backed.bundles_step keeps read
      cases goes : setting.step machine with
      | running next =>
          rw [goes] at bundles real accepted
          cases bundles with
          | running _ after =>
              rw [← List.append_assoc]
              exact inductionHypothesis (backed.of_running keeps offered goes) after
                (fun token asked => real token (List.mem_append_right _ asked)) accepted
      | ended outcome last =>
          rw [goes] at bundles accepted
          cases bundles with
          | accepted _ node single heard =>
              rw [List.append_nil]
              exact ⟨node, single, heard⟩
          | stopped _ halt => cases accepted

/-- The leaves of the tree of all tokens are the tokens that were read and not skipped. -/
theorem Setting.leaves_of_parseTree (keeps : setting.keep = some fun _ => true) {state : σ}
    (real : forall limit token, .ok (some token) ∈ setting.answers limit (.start state) ->
      token.isSynthetic = false) {tree : ParseTree}
    (parsed : (setting.parseTree state).tree = .ok tree) :
    tree.isNode = true ∧ Exists fun tokens : List Token =>
      (Exists fun limit => (setting.run limit (.start state)).1 = .accepted ∧
        setting.answers limit (.start state) =
          tokens.map (fun token => .ok (some token)) ++ [.ok none]) ∧
      tree.leaves = setting.unskipped tokens := by
  have started : setting.Heard [] (Machine.start state).leaves (Machine.start state).lookahead.waiting :=
    ⟨[], rfl, rfl⟩
  rcases setting.exists_run_eq_result (.start state) with ⟨limit, run⟩
  rw [parseTree, ← run] at parsed
  rcases TreeResult.tree_ofRun_eq_ok_iff.mp parsed with ⟨accepted, finishes⟩
  rcases (backed_start state).bundles_run keeps limit started (real limit) accepted with
    ⟨node, single, tokens, answers, read⟩
  rw [single] at finishes
  cases finishes
  refine ⟨rfl, tokens, ⟨limit, accepted, answers⟩, ?_⟩
  rw [leaves, read]
  exact (List.append_nil _).symm

/-! ## Texts -/

/-- The texts of tokens, one behind another. -/
def textsOf (tokens : List Token) : List Char :=
  tokens.flatMap fun token => token.textOrEmpty.toList

namespace TokenStream

/-- Where the stream stands in its text, with nothing put back. -/
structure StandsAt (stream : TokenStream) (before rest : List Char) : Prop where
  fresh : stream.backlog = []
  divided : stream.text = before ++ rest
  place : stream.place = Position.start.advance before

theorem standsAt_stream (matcher : Matcher) (text : String) :
    (matcher.stream text).StandsAt [] text.toList :=
  ⟨rfl, rfl, rfl⟩

variable {stream after : TokenStream} {before rest : List Char} {preference : Preference}

theorem StandsAt.rest? (stands : stream.StandsAt before rest) : stream.rest? = some rest := by
  unfold TokenStream.rest?
  rw [stands.place, Position.offset_advance_start]
  exact Text.dropBytes?_eq_some_iff.mpr ⟨before, stands.divided, rfl⟩

/-- The text has been read where it ends, and the stream stays there. -/
theorem StandsAt.of_end (stands : stream.StandsAt before rest)
    (ends : stream.next preference = (.ok none, after)) : rest = [] ∧ after = stream := by
  unfold next at ends
  rw [stands.fresh, stands.rest?] at ends
  cases rest with
  | nil =>
      cases ends
      exact ⟨rfl, rfl⟩
  | cons c rest =>
      dsimp only at ends
      split at ends <;> cases ends

/-- Where it has no answer the stream stays, and a failure is about the next character of the text. -/
theorem StandsAt.of_error (stands : stream.StandsAt before rest) {reason : ReadError}
    (fails : stream.next preference = (.error reason, after)) :
    after = stream ∧ forall error, reason = .lex error ->
      (Exists fun others => rest = error.character :: others) ∧
        error.position = Position.start.advance before := by
  unfold next at fails
  rw [stands.fresh, stands.rest?] at fails
  cases rest with
  | nil => cases fails
  | cons c rest =>
      dsimp only at fails
      split at fails
      · cases fails
        exact ⟨rfl, fun _ impossible => by cases impossible⟩
      · cases fails
        refine ⟨rfl, fun error same => ?_⟩
        cases same
        exact ⟨⟨rest, rfl⟩, stands.place⟩
      · cases fails

/-- A token is the piece of the text that the stream goes past. -/
theorem StandsAt.of_token (stands : stream.StandsAt before rest) {token : Token}
    (gives : stream.next preference = (.ok (some token), after)) :
    Exists fun later => rest = token.textOrEmpty.toList ++ later ∧
      token.position = Position.start.advance before ∧
      after.StandsAt (before ++ token.textOrEmpty.toList) later := by
  unfold next at gives
  rw [stands.fresh, stands.rest?] at gives
  cases rest with
  | nil => cases gives
  | cons c rest =>
      dsimp only at gives
      split at gives
      · cases gives
      · cases gives
      next candidate _ =>
        cases gives
        rcases Text.takeWithin_append (c :: rest) candidate.size with ⟨later, divided⟩
        have piece : (stream.consume (c :: rest) candidate.name candidate.size).1.textOrEmpty.toList =
            Text.takeWithin (c :: rest) candidate.size := String.toList_ofList
        rw [piece]
        refine ⟨later, divided, stands.place, stands.fresh, ?_, ?_⟩
        · rw [List.append_assoc, ← divided]
          exact stands.divided
        · rw [Position.advance_append, ← stands.place]
          rfl

/-- Tokens that are read up to the end of the text have the rest of the text together, and each stands
where the texts of those before it end. -/
theorem StandsAt.of_gives {tokens : List Token} (stands : stream.StandsAt before rest)
    (gives : source.Gives stream (tokens.map (fun token => .ok (some token)) ++ [.ok none])) :
    textsOf tokens = rest ∧
      forall (index : Nat) (token : Token), tokens[index]? = some token ->
        token.position = Position.start.advance (before ++ textsOf (tokens.take index)) := by
  induction tokens generalizing stream before rest with
  | nil =>
      cases gives with
      | cons _ next preference _ _ reply =>
          exact ⟨(stands.of_end reply).1.symm, fun _ _ impossible => by cases impossible⟩
  | cons token tokens inductionHypothesis =>
      cases gives with
      | cons _ next preference _ _ reply gives =>
          rcases stands.of_token reply with ⟨later, rfl, place, stands⟩
          rcases inductionHypothesis stands gives with ⟨texts, places⟩
          refine ⟨congrArg (token.textOrEmpty.toList ++ ·) texts, fun index other listed => ?_⟩
          cases index with
          | zero =>
              cases listed
              rw [List.take_zero, place]
              exact congrArg Position.start.advance (List.append_nil before).symm
          | succ index =>
              rw [places index other listed, List.append_assoc]
              rfl

end TokenStream

/-- Tokens that stand so are in the order of their offsets, and do not overlap. -/
theorem pairwise_of_places {tokens : List Token}
    (places : forall (index : Nat) (token : Token), tokens[index]? = some token ->
      token.position = Position.start.advance (textsOf (tokens.take index))) :
    tokens.Pairwise fun first second => first.span.stop ≤ second.span.start := by
  rw [List.pairwise_iff_getElem]
  intro first second firstInside secondInside before
  have firstPlace := places first _ (List.getElem?_eq_getElem firstInside)
  have secondPlace := places second _ (List.getElem?_eq_getElem secondInside)
  -- The second token stands behind all texts up to that of the first one.
  rcases List.take_prefix_take_left (l := tokens) (Nat.succ_le_of_lt before) with ⟨between, texts⟩
  rw [← texts, List.take_succ_eq_append_getElem firstInside, textsOf, List.flatMap_append,
    List.flatMap_append, List.flatMap_singleton] at secondPlace
  unfold Token.span
  dsimp only
  rw [firstPlace, secondPlace, Position.offset_advance_start, Position.offset_advance_start,
    Text.byteSize_append, Text.byteSize_append, Text.byteSize_toList]
  exact Nat.le_add_right _ _

namespace Parser

/-- The tree of a text has all tokens that are read from the text and not skipped, each once, and
together with those that are skipped they make up the text.  The tree of the tokens that are kept is
this tree without the other leaves. -/
theorem tree_keeps_tokens (parser : Parser) (text : String) {tree : ParseTree}
    (parsed : (parser.tree text).tree = .ok tree) :
    (Exists fun tokens : List Token =>
      (Exists fun limit =>
        ((parser.setting TokenStream.source (some fun _ => true)).run limit
          (.start (parser.matcher.stream text))).1 = .accepted ∧
        (parser.setting TokenStream.source (some fun _ => true)).answers limit
            (.start (parser.matcher.stream text)) =
          tokens.map (fun token => .ok (some token)) ++ [.ok none]) ∧
      tree.leaves = tokens.filter (fun token => token.name ∉ parser.skip) ∧
      (tokens.Pairwise fun first second => first.span.stop ≤ second.span.start) ∧
      (tokens.flatMap fun token => token.textOrEmpty.toList) = text.toList) ∧
    forall keep : Token -> Bool,
      (parser.treeFiltered text keep).tree = .ok (tree.prune keep) ∧
      (tree.prune keep).leaves = tree.leaves.filter keep := by
  let setting := parser.setting TokenStream.source (some fun _ => true)
  have real : forall limit token,
      .ok (some token) ∈ setting.answers limit (.start (parser.matcher.stream text)) ->
        token.isSynthetic = false :=
    fun limit token => Setting.real_of_stream rfl parser.matcher text
  rcases setting.leaves_of_parseTree rfl real parsed with
    ⟨isNode, tokens, ⟨limit, accepted, answers⟩, leaves⟩
  have gives := setting.gives_answers limit (.start (parser.matcher.stream text))
  rw [answers] at gives
  rcases (TokenStream.standsAt_stream parser.matcher text).of_gives gives with ⟨texts, places⟩
  refine ⟨⟨tokens, ⟨limit, accepted, answers⟩, leaves, pairwise_of_places places, texts⟩,
    fun keep => ⟨?_, ?_⟩⟩
  · have same : (parser.treeFiltered text keep).tree = (parser.tree text).tree.map
      (ParseTree.prune keep) :=
      congrArg TreeResult.tree (setting.parseTree_prune keep (parser.matcher.stream text))
    rw [same, parsed]
    rfl
  · cases tree with
    | node label children => exact leaves_prune (.node label children)
    | leaf token => cases isNode

end Parser

/-! ## A list with spaces -/

/-- The parser for lists of items, where there can be spaces between the tokens. -/
def Parser.spaced : Parser :=
  { matcher := (Matcher.ofSpec ⟨[⟨"x", .keyword⟩, ⟨",", .keyword⟩, ⟨" ", .keyword⟩]⟩
      false).toOption.getD ⟨[], [], false⟩
    table := Parser.listing.table
    skip := [" "] }

/-- A list of two items has three leaves and a space that is skipped, and two leaves are left of it
without the comma. -/
theorem Parser.tree_keeps_tokens_spaced :
    Exists fun tree => (spaced.tree "x, x").tree = .ok tree ∧
      tree.leaves.map Token.name = ["x", ",", "x"] ∧
      (Exists fun tokens : List Token =>
        (Exists fun limit =>
          ((spaced.setting TokenStream.source (some fun _ => true)).run limit
            (.start (spaced.matcher.stream "x, x"))).1 = .accepted ∧
          (spaced.setting TokenStream.source (some fun _ => true)).answers limit
              (.start (spaced.matcher.stream "x, x")) =
            tokens.map (fun token => .ok (some token)) ++ [.ok none]) ∧
        tree.leaves = tokens.filter (fun token => token.name ∉ spaced.skip) ∧
        (tokens.Pairwise fun first second => first.span.stop ≤ second.span.start) ∧
        (tokens.flatMap fun token => token.textOrEmpty.toList) = "x, x".toList) ∧
      (spaced.treeFiltered "x, x" fun token => token.name = "x").tree =
        .ok (tree.prune fun token => token.name = "x") ∧
      (tree.prune fun token => token.name = "x").leaves =
        tree.leaves.filter fun token => token.name = "x" := by
  have runs := eq_ok_of_isOk (show (TreeResult.ofRun
    ((spaced.setting TokenStream.source (some fun _ => true)).run 40
      (.start (spaced.matcher.stream "x, x")))).tree.isOk = true by decide +kernel)
  have parsed : (spaced.tree "x, x").tree = .ok _ := Setting.tree_of_run runs
  have whole := spaced.tree_keeps_tokens "x, x" parsed
  exact ⟨_, parsed, by decide +kernel, whole.1, whole.2 fun token => token.name = "x"⟩

end ShiftReduce
