import ShiftReduce.Parser
import ShiftReduce.Proofs.Grammar.Postorder
import ShiftReduce.Proofs.Parse.Lockstep

namespace ShiftReduce

/-!
# The tree shows what is reported

The children of a reduction are put together twice.  For a report, every helper among them gives what
waits in the latest collection of its name; for the tree, it gives the children of the node that its
own reduction has left.  The one goes by the effects of productions and by names, the other by the mark
of helpers and by the order of nodes.

Both come to the same.  Every token on the stack is paired with what it offers to a report and with a
derivation tree, and what is offered agrees, child by child, with what the tree adds to the node
around it: a token with its own leaf, and a reduced rule with a node.  So each report is mirrored by
the node of its reduction, and as nodes are made in the order of reductions, the reports are mirrored
by the nodes of the tree in post-order.

Tokens may have the names of rules or helpers here.  Such a token has text, so that it is not taken for
a reduced rule on either way.
-/

/-- Whom a reduction with this effect is reported to. -/
def Emit.recipient? : Emit -> Option Recipient
  | .report => some .parse
  | .callback identity => some (.callback identity)
  | _ => Option.none

/-- What the author wants to happen when a production is reduced. -/
def PlainGrammar.effectOf (plain : PlainGrammar) (production : Nat) : Emit :=
  match plain.productions[production]? with
  | some pair => pair.2.emit.innermost
  | none => .none

open DerivationTree

/-! ## Reports and nodes -/

/-- A token of a report and the child that shows it: a token of the source has its leaf, and a reduced
rule has a node. -/
inductive Shown : Token -> ParseTree -> Prop where
  | leaf (token : Token) (real : token.isSynthetic = false) : Shown token (.leaf token)
  | node (token : Token) (synthetic : token.isSynthetic = true) (label : String)
      (children : List ParseTree) : Shown token (.node label children)

/-- A report and the node of the same reduction: the production says whom to report to, the labels are
equal, and the children of the node show the tokens of the report. -/
structure Mirrors (plain : PlainGrammar) (call : Call) (node : Nat × ParseTree) : Prop where
  recipient : (plain.effectOf node.1).recipient? = some call.recipient
  shown : Exists fun children => node.2 = .node call.label children ∧
    List.Forall₂ Shown call.tokens children

/-- The nodes whose productions are reported to somebody. -/
def PlainGrammar.reported (plain : PlainGrammar) (nodes : List (Nat × ParseTree)) :
    List (Nat × ParseTree) :=
  nodes.filter fun node => (plain.effectOf node.1).recipient?.isSome

/-- The tree of a token on the stack: it stands there under the name of the token, and what it adds to
the node around it shows what the token offers to a report. -/
structure Shows (plain : PlainGrammar) (keep : Token -> Bool) (entry : Entry)
    (tree : DerivationTree Token) : Prop where
  borne : BorneBy entry.token tree
  composed : tree.Composed plain entry.token.name
  offered : List.Forall₂ Shown entry.offered (planted plain keep tree)

variable {grammar : Grammar} {plain : PlainGrammar} {keep : Token -> Bool}

theorem PlainGrammar.reported_append (left right : List (Nat × ParseTree)) :
    plain.reported (left ++ right) = plain.reported left ++ plain.reported right :=
  List.filter_append left right

/-- What the children offer together is shown by what their trees add together. -/
theorem shown_children {children : List Entry} {trees : List (DerivationTree Token)}
    (shows : List.Forall₂ (Shows plain keep) children trees) :
    List.Forall₂ Shown (children.flatMap Entry.offered) (plantedOfEach plain keep trees) := by
  induction shows with
  | nil => exact .nil
  | cons first _ inductionHypothesis => exact List.rel_append first.offered inductionHypothesis

theorem composed_children {children : List Entry} {trees : List (DerivationTree Token)}
    (shows : List.Forall₂ (Shows plain keep) children trees) :
    List.Forall₂ (Composed plain) (children.map fun child => child.token.name) trees :=
  List.forall₂_map_left_iff.mpr (shows.imp fun _ _ => Shows.composed)

/-- A token of the source is shown by its leaf. -/
theorem shows_leaf (all : forall token, keep token = true) {token : Token}
    (real : token.isSynthetic = false) : Shows plain keep (.leaf token) (.leaf token) := by
  refine ⟨.leaf token real, .leaf token, ?_⟩
  rw [planted, leavesOf, if_pos (all token)]
  exact .cons (.leaf token real) .nil

/-! ## Reductions -/

namespace Draft

variable {draft : Draft} {place : Nat} {production : Production} {children : List Entry}
  {kept : Option Collection} {number : Nat} {trees : List (DerivationTree Token)}

/-- The node of a reduction, before it is known whether it is a helper's. -/
theorem pendingOf_draft (known : plain.productions[number]? =
      some (draft.plainRule, plainProduction draft.name place production)) (inner : List ParseTree) :
    pendingOf plain number inner =
      ⟨production.label.getD draft.name, inner, draft.helper⟩ := by
  rw [pendingOf, known]
  rfl

theorem effectOf_draft (known : plain.productions[number]? =
      some (draft.plainRule, plainProduction draft.name place production)) :
    plain.effectOf number = production.emit.innermost := by
  rw [PlainGrammar.effectOf, known]
  unfold plainProduction
  dsimp only
  split <;> rfl

/-- What a reduction leaves is shown by the tree of the reduction. -/
theorem Leaves.shows (leaves : Leaves grammar draft children production kept)
    (known : plain.productions[number]? =
      some (draft.plainRule, plainProduction draft.name place production))
    (names : children.map (fun child => child.token.name) =
      plainNames draft.name place 0 production.symbols)
    (shows : List.Forall₂ (Shows plain keep) children trees) (position : Position) :
    Shows plain keep ⟨.synthetic draft.name position, [], kept⟩ (.node number trees) := by
  have composed := composed_children shows
  rw [names] at composed
  refine ⟨.node _ rfl number trees, .node number _ trees known composed, ?_⟩
  rw [planted, pendingOf_draft known, PendingNode.contribution]
  rcases leaves.cases with ⟨listed, rfl⟩ | ⟨isHelper, _, groups, rfl⟩
  · rw [(Grammar.helper_of_listed listed).1]
    exact .cons (.node _ rfl _ _) .nil
  · rw [isHelper]
    exact shown_children shows

/-- What a reduction reports is mirrored by its node, and a reduction that reports nothing has no node
that would be reported. -/
theorem Leaves.mirrors (outward : grammar.EmitsOutward)
    (leaves : Leaves grammar draft children production kept)
    (found : draft.productions[place]? = some production)
    (known : plain.productions[number]? =
      some (draft.plainRule, plainProduction draft.name place production))
    (shows : List.Forall₂ (Shows plain keep) children trees) :
    List.Forall₂ (Mirrors plain)
      (draft.callOf production children).toList
      (plain.reported (if draft.helper then [] else
        [(number, .node (production.label.getD draft.name) (plantedOfEach plain keep trees))])) := by
  have effect := effectOf_draft known
  rcases leaves.cases with ⟨listed, rfl⟩ | ⟨isHelper, silent, _⟩
  · rw [(Grammar.helper_of_listed listed).1, if_neg Bool.false_ne_true]
    rcases List.mem_map.mp listed with ⟨rule, ruleListed, rfl⟩
    have made : forall recipient, production.emit.innermost.recipient? = some recipient ->
        List.Forall₂ (Mirrors plain)
          [⟨recipient, production.label.getD rule.name, children.flatMap Entry.offered⟩]
          (plain.reported
            [(number, .node (production.label.getD rule.name) (plantedOfEach plain keep trees))]) := by
      intro recipient isRecipient
      rw [← effect] at isRecipient
      rw [PlainGrammar.reported, List.filter_cons_of_pos (by simp [isRecipient])]
      exact .cons ⟨isRecipient, _, rfl, shown_children shows⟩ .nil
    unfold callOf
    rcases outward rule ruleListed production (List.mem_of_getElem? found) with
      silent | report | ⟨identity, callback⟩
    · rw [silent] at effect
      have nobody : (plain.effectOf number).recipient? = none := by
        rw [effect]
        rfl
      rw [silent, PlainGrammar.reported, List.filter_cons_of_neg (by simp [nobody])]
      exact .nil
    · rw [report] at made ⊢
      exact made _ rfl
    · rw [callback] at made ⊢
      exact made _ rfl
  · rw [silent, isHelper]
    exact .nil

end Draft

/-! ## The invariant -/

variable {σ : Type}

/-- How a machine stands that builds a tree.  The entries and the trees are those of the tokens, in the
order of the input. -/
structure Traced (grammar : Grammar) (plain : PlainGrammar) (keep : Token -> Bool)
    (machine : Machine σ) (entries : List Entry) (trees : List (DerivationTree Token)) : Prop where
  tokens : entries.map Entry.token = machine.tokens
  fits : forall entry, entry ∈ entries -> entry.Fits grammar.IsHelper
  collections : machine.collections = Entry.heldBy entries.reverse
  shows : List.Forall₂ (Shows plain keep) entries trees
  nodes : machine.nodes = (trees.filterMap (pending? plain keep)).reverse
  calls : List.Forall₂ (Mirrors plain) machine.calls.reverse
    (plain.reported (numberedOfEach plain keep trees))
  real : forall token, machine.lookahead.waiting = some (some token) -> token.isSynthetic = false

/-- The tree that a machine has come to, and the derivation tree that it was made from. -/
structure Reflects (plain : PlainGrammar) (keep : Token -> Bool) (machine : Machine σ)
    (grown : DerivationTree Token) (tree : ParseTree) : Prop where
  composed : grown.Composed plain plain.root
  becomes : planted plain keep grown = [tree]
  finishes : PendingNode.finish machine.nodes = .ok tree
  calls : List.Forall₂ (Mirrors plain) machine.calls.reverse
    (plain.reported (grown.numbered plain keep))

/-- What a step comes to. -/
inductive Follows (grammar : Grammar) (plain : PlainGrammar) (keep : Token -> Bool) :
    Progress σ -> Prop where
  | running (machine : Machine σ) (entries : List Entry) (trees : List (DerivationTree Token))
      (traced : Traced grammar plain keep machine entries trees) :
      Follows grammar plain keep (.running machine)
  | accepted (machine : Machine σ) (grown : DerivationTree Token) (tree : ParseTree)
      (reflects : Reflects plain keep machine grown tree) :
      Follows grammar plain keep (.ended .accepted machine)
  | stopped (machine : Machine σ) (halt : Halt) :
      Follows grammar plain keep (.ended (.stopped halt) machine)

variable {setting : Setting σ} {machine : Machine σ} {entries : List Entry}
  {trees : List (DerivationTree Token)}

theorem traced_start (state : σ) : Traced grammar plain keep (.start state) [] [] :=
  ⟨rfl, fun _ impossible => (List.not_mem_nil impossible).elim, rfl, .nil, rfl, .nil,
    fun _ impossible => by cases impossible⟩

/-- What the machine is going to read or shift next does not matter as long as its tokens are the
same. -/
theorem Traced.change (traced : Traced grammar plain keep machine entries trees)
    (stack : List Frame) (lookahead : Lookahead) (source : σ)
    (tokens : Machine.tokens { machine with stack, lookahead, source } = machine.tokens)
    (real : forall token, lookahead.waiting = some (some token) -> token.isSynthetic = false) :
    Traced grammar plain keep { machine with stack, lookahead, source } entries trees :=
  ⟨traced.tokens.trans tokens.symm, traced.fits, traced.collections, traced.shows, traced.nodes,
    traced.calls, real⟩

theorem Traced.exhausted (traced : Traced grammar plain keep machine entries trees)
    (unread : machine.lookahead = .unread) (source : σ) :
    Traced grammar plain keep { machine with source, lookahead := .ready none } entries trees := by
  refine traced.change machine.stack (.ready none) source ?_ fun _ impossible => by cases impossible
  rw [tokens_of_quiet (by rw [unread]; rfl : machine.lookahead.made = none), tokens_of_quiet rfl]

theorem Traced.received (traced : Traced grammar plain keep machine entries trees)
    (unread : machine.lookahead = .unread) {token : Token} (real : token.isSynthetic = false)
    (source : σ) :
    Traced grammar plain keep { machine with source, lookahead := .ready (some token) } entries
      trees := by
  refine traced.change machine.stack (.ready (some token)) source ?_ ?_
  · rw [tokens_of_quiet (by rw [unread]; rfl : machine.lookahead.made = none), tokens_of_quiet rfl]
  · intro other same
    cases same
    exact real

theorem Traced.follow (traced : Traced grammar plain keep machine entries trees)
    {nonterminal : Token} {waiting : Option Token}
    (made : machine.lookahead = .reduced nonterminal waiting) (target : Nat) :
    Traced grammar plain keep
      { machine with stack := ⟨nonterminal, target⟩ :: machine.stack, lookahead := .ready waiting }
      entries trees := by
  refine traced.change (⟨nonterminal, target⟩ :: machine.stack) (.ready waiting) machine.source
    ?_ ?_
  · rw [tokens_push nonterminal target (.ready waiting) rfl, Machine.tokens, made]
    rfl
  · exact fun token same => traced.real token (by rw [made]; exact same)

theorem Traced.shift (all : forall token, keep token = true)
    (traced : Traced grammar plain keep machine entries trees) {token : Token}
    (ready : machine.lookahead = .ready (some token)) (target : Nat) :
    Traced grammar plain keep
      { machine with stack := ⟨token, target⟩ :: machine.stack, lookahead := .unread }
      (entries ++ [.leaf token]) (trees ++ [.leaf token]) := by
  have real := traced.real token (by rw [ready]; rfl)
  have quiet := tokens_of_quiet (by rw [ready]; rfl : machine.lookahead.made = none)
  refine ⟨?_, ?_, ?_, ?_, ?_, ?_, fun _ impossible => by cases impossible⟩
  · rw [tokens_push token target .unread rfl, ← quiet, ← traced.tokens, List.map_append]
    rfl
  · intro entry member
    rcases List.mem_append.mp member with before | last
    · exact traced.fits entry before
    · rw [List.mem_singleton.mp last]
      exact ⟨fun impossible => (Bool.false_ne_true impossible).elim,
        fun parts => (Bool.false_ne_true (real.symm.trans parts.1)).elim⟩
  · rw [List.reverse_append]
    exact traced.collections
  · exact List.rel_append traced.shows (.cons (shows_leaf all real) .nil)
  · rw [List.filterMap_append]
    exact traced.nodes.trans (congrArg List.reverse (List.append_nil _).symm)
  · have nothing : numberedOfEach plain keep [.leaf token] = [] := rfl
    rw [numberedOfEach_append, nothing, List.append_nil]
    exact traced.calls

/-- The table is that of the grammar, whatever its names are. -/
structure Compiled (grammar : Grammar) (plain : PlainGrammar) (table : Table) : Prop where
  apart : grammar.HelpersApart
  outward : grammar.EmitsOutward
  made : grammar.toPlain = .ok plain
  tabled : (Automaton.ofGrammar plain).toTable = .ok table

/-- The entries and the trees on both sides of a cut through the stack, behind which the children of
the production numbered `number` stand. -/
structure Parted (grammar : Grammar) (plain : PlainGrammar) (keep : Token -> Bool) (draft : Draft)
    (place : Nat) (production : Production) (number : Nat) (below : List Frame)
    (rest children : List Entry) (front back : List (DerivationTree Token)) : Prop where
  known : plain.productions[number]? =
    some (draft.plainRule, Draft.plainProduction draft.name place production)
  correct : draft.Children grammar place production children
  tokens : rest.map Entry.token = Frame.tokensOf below
  showsRest : List.Forall₂ (Shows plain keep) rest front
  showsChildren : List.Forall₂ (Shows plain keep) children back

/-- The tokens that are popped are those of the latest entries. -/
theorem Traced.parted (made : grammar.toPlain = .ok plain)
    (traced : Traced grammar plain keep machine entries trees)
    (quiet : machine.lookahead.made = none) {number : Nat} {pair : PlainRule × PlainProduction}
    (known : plain.productions[number]? = some pair) {popped : List Token} {below : List Frame}
    (pops : Frame.pop pair.2.symbols machine.stack = .ok (popped, below)) :
    Exists fun draft => Exists fun place => Exists fun production => Exists fun rest =>
      Exists fun children => Exists fun front => Exists fun back =>
        pair = (draft.plainRule, Draft.plainProduction draft.name place production) ∧
        entries = rest ++ children ∧ trees = front ++ back ∧ popped = children.map Entry.token ∧
        Parted grammar plain keep draft place production number below rest children front back := by
  rcases Grammar.draft_of_plain made (List.mem_of_getElem? known) with
    ⟨draft, place, production, drafted, found, rfl⟩
  rcases Frame.of_pop pops with ⟨top, split, rfl, names⟩
  have tokens := traced.tokens
  rw [tokens_of_quiet quiet, split, Frame.tokensOf_append] at tokens
  rcases List.map_eq_append_iff.mp tokens with ⟨rest, children, rfl, restTokens, childTokens⟩
  -- The trees are divided where the entries are.
  have showsRest := List.forall₂_take rest.length traced.shows
  have showsChildren := List.forall₂_drop rest.length traced.shows
  rw [List.take_left] at showsRest
  rw [List.drop_left] at showsChildren
  refine ⟨draft, place, production, rest, children, _, _, rfl, rfl,
    (List.take_append_drop rest.length trees).symm, childTokens.symm, known,
    ⟨drafted, found, ?_, ?_⟩, restTokens, showsRest, showsChildren⟩
  · have plainNames : (Frame.tokensOf top).map Token.name =
        Draft.plainNames draft.name place 0 production.symbols := names
    rw [← plainNames, ← childTokens, List.map_map]
    rfl
  · exact fun child member => traced.fits child (List.mem_append_right _ member)

variable {draft : Draft} {place : Nat} {production : Production} {number : Nat}
  {below : List Frame} {rest children : List Entry} {front back : List (DerivationTree Token)}
  {kept : Option Collection}

/-- The numbered nodes after a reduction. -/
theorem Parted.numbered_node
    (parted : Parted grammar plain keep draft place production number below rest children front back) :
    numbered plain keep (.node number back) = numberedOfEach plain keep back ++
      if draft.helper then [] else
        [(number, .node (production.label.getD draft.name) (plantedOfEach plain keep back))] := by
  rw [numbered, Draft.pendingOf_draft parted.known]

/-- What has been reported after a reduction is mirrored by the nodes after it. -/
theorem Parted.calls (outward : grammar.EmitsOutward)
    (parted : Parted grammar plain keep draft place production number below rest children front back)
    (leaves : draft.Leaves grammar children production kept) {calls : List Call}
    (before : List.Forall₂ (Mirrors plain) calls.reverse
      (plain.reported (numberedOfEach plain keep (front ++ back)))) :
    List.Forall₂ (Mirrors plain) ((draft.callOf production children).toList ++ calls).reverse
      (plain.reported (numberedOfEach plain keep (front ++ [.node number back]))) := by
  have mirrors := leaves.mirrors outward parted.correct.found parted.known parted.showsChildren
  have single : (draft.callOf production children).toList.reverse =
      (draft.callOf production children).toList := by
    cases draft.callOf production children <;> rfl
  rw [numberedOfEach_append] at before
  rw [List.reverse_append, single, numberedOfEach_append, numberedOfEach_singleton,
    parted.numbered_node, ← List.append_assoc, PlainGrammar.reported_append]
  exact List.rel_append before mirrors

/-- A reduction that is not the last puts one entry and its tree in the place of the children. -/
theorem Traced.reduced (compiled : Compiled grammar plain setting.table)
    (traced : Traced grammar plain keep machine (rest ++ children) (front ++ back))
    (parted : Parted grammar plain keep draft place production number below rest children front back)
    (leaves : draft.Leaves grammar children production kept) {waiting : Option Token}
    (ready : machine.lookahead = .ready waiting) (position : Position) {nodes : List PendingNode}
    (made : nodes =
      ((front ++ [DerivationTree.node number back]).filterMap (pending? plain keep)).reverse) :
    Traced grammar plain keep
      { machine with
        stack := below
        lookahead := .reduced (.synthetic draft.name position) waiting
        collections := (kept.map fun collection => (draft.name, collection)).toList ++
          Entry.heldBy rest.reverse
        nodes
        calls := (draft.callOf production children).toList ++ machine.calls }
      (rest ++ [⟨.synthetic draft.name position, [], kept⟩])
      (front ++ [.node number back]) := by
  have correct := parted.correct
  refine ⟨?_, ?_, ?_, ?_, made, parted.calls compiled.outward leaves traced.calls, ?_⟩
  · rw [List.map_append, parted.tokens]
    rfl
  · intro entry member
    rcases List.mem_append.mp member with before | last
    · exact traced.fits entry (List.mem_append_left _ before)
    · have fits := leaves.fits compiled.apart compiled.made correct.drafted
      rw [List.mem_singleton.mp last]
      exact ⟨fun some => ⟨rfl, fits.mp some⟩, fun parts => fits.mpr parts.2⟩
  · rw [List.reverse_append]
    rfl
  · exact List.rel_append parted.showsRest
      (.cons (leaves.shows parted.known correct.names parted.showsChildren position) .nil)
  · intro token same
    exact traced.real token (by rw [ready]; exact same)

/-- The last reduction leaves the tree. -/
theorem Traced.reflected (compiled : Compiled grammar plain setting.table)
    (traced : Traced grammar plain keep machine (rest ++ children) (front ++ back))
    (parted : Parted grammar plain keep draft place production number [] rest children front back)
    (leaves : draft.Leaves grammar children production kept) (isRoot : draft.name = plain.root)
    (collections : Collections) {nodes : List PendingNode}
    (made : nodes =
      ((front ++ [DerivationTree.node number back]).filterMap (pending? plain keep)).reverse) :
    Reflects plain keep
      { machine with
        stack := []
        collections
        nodes
        calls := (draft.callOf production children).toList ++ machine.calls }
      (.node number back)
      (.node (production.label.getD draft.name) (plantedOfEach plain keep back)) := by
  have showsRest := parted.showsRest
  have noRest : rest = [] := List.map_eq_nil_iff.mp parted.tokens
  rw [noRest, List.forall₂_nil_left_iff] at showsRest
  have calls := parted.calls compiled.outward leaves traced.calls
  have shows := leaves.shows parted.known parted.correct.names parted.showsChildren default
  have author : draft.helper = false := by
    cases isHelper : draft.helper with
    | false => rfl
    | true =>
        have unwritten := compiled.apart.helper_apart compiled.made parted.correct.drafted isHelper
        rw [isRoot] at unwritten
        exact (unwritten (Grammar.root_mem_names compiled.made)).elim
  rw [showsRest] at calls made
  refine ⟨isRoot ▸ shows.composed, ?_, ?_, ?_⟩
  · rw [planted, Draft.pendingOf_draft parted.known, author]
    rfl
  · rw [made, List.nil_append, filterMap_pending_node, Draft.pendingOf_draft parted.known]
    rfl
  · rwa [List.nil_append, numberedOfEach_singleton] at calls

theorem Traced.reduce (compiled : Compiled grammar plain setting.table)
    (keeps : setting.keep = some keep)
    (traced : Traced grammar plain keep machine entries trees) {waiting : Option Token}
    (ready : machine.lookahead = .ready waiting)
    {pair : PlainRule × PlainProduction} (known : plain.productions[number]? = some pair) :
    Follows grammar plain keep (setting.reduce machine (PlainGrammar.reduceRule pair) waiting) := by
  unfold Setting.reduce
  split
  · exact .stopped _ _
  next popped below pops =>
    rcases traced.parted compiled.made (by rw [ready]; rfl) known pops with
      ⟨draft, place, production, rest, children, front, back, rfl, rfl, rfl, rfl, parted⟩
    have borne : List.Forall₂ BorneBy (children.map Entry.token) back :=
      List.forall₂_map_left_iff.mpr (parted.showsChildren.imp fun _ _ => Shows.borne)
    rcases nodesAfter_planted borne (fun other same => by
      rw [keeps] at same
      cases same
      exact traced.nodes) known with ⟨nodes, isMade, after⟩
    have collections := traced.collections
    rw [List.reverse_append, Entry.heldBy_append] at collections
    have belowHelpers : forall held, held ∈ Entry.heldBy rest.reverse ->
        grammar.IsHelper held.1 := fun held =>
      Entry.helper_of_mem_heldBy fun entry member =>
        traced.fits entry (List.mem_append_left _ (List.mem_reverse.mp member))
    have sameRule : PlainGrammar.reduceRule (draft.plainRule,
        Draft.plainProduction draft.name place production) = draft.ruleOf place production := rfl
    rw [sameRule, collections]
    rw [sameRule] at isMade
    rcases Draft.leaves_reduce compiled.apart compiled.outward compiled.made parted.correct
        belowHelpers with
      ⟨kept, leaves, reduced⟩ | ⟨owner, most, token, _, refused⟩
    · rw [reduced]
      dsimp only
      rw [isMade]
      dsimp only
      split
      next accepts =>
        rcases accepts with ⟨_, emptied, isRoot⟩
        rw [List.isEmpty_iff.mp emptied] at parted ⊢
        have isRoot : draft.name = plain.root :=
          isRoot.trans (PlainGrammar.root_of_toTable plain compiled.tabled)
        exact .accepted _ _ _
          (traced.reflected compiled parted leaves isRoot _ (after keep keeps))
      · exact .running _ _ _ (traced.reduced compiled parted leaves ready _ (after keep keeps))
    · rw [refused]
      exact .stopped _ _

/-- Each step hands the invariant on, or ends the run with a tree that mirrors the reports. -/
theorem Traced.step (compiled : Compiled grammar plain setting.table)
    (keeps : setting.keep = some keep) (all : forall token, keep token = true)
    (traced : Traced grammar plain keep machine entries trees)
    (real : forall token, setting.answer? machine = some (.ok (some token)) ->
      token.isSynthetic = false) :
    Follows grammar plain keep (setting.step machine) := by
  have steps := setting.steps_step machine
  generalize setting.step machine = progress at steps ⊢
  cases steps with
  | lost | failed | interrupted | rejected | unnamed => exact .stopped _ _
  | exhausted row source found unread reply =>
      exact .running _ _ _ (traced.exhausted unread source)
  | skipped row token source found unread reply skip =>
      exact .running _ entries trees
        (traced.change machine.stack machine.lookahead source rfl traced.real)
  | received row token source found unread reply kept =>
      have offered := real token (Setting.answer?_of_reply unread found reply)
      exact .running _ _ _ (traced.received unread offered source)
  | shifted row token target found ready shifts =>
      exact .running _ _ _ (traced.shift all ready target)
  | reduced row waiting name index rule found ready claimed named =>
      rcases PlainGrammar.rule_of_toTable plain compiled.tabled found claimed named with
        ⟨number, pair, known, rfl⟩
      exact traced.reduce compiled keeps ready known
  | followed row nonterminal waiting target found made shifts =>
      exact .running _ _ _ (traced.follow made target)

/-- A run that is accepted leaves a tree that mirrors all its reports. -/
theorem Traced.run (compiled : Compiled grammar plain setting.table)
    (keeps : setting.keep = some keep) (all : forall token, keep token = true) (limit : Nat)
    (traced : Traced grammar plain keep machine entries trees)
    (real : forall token, .ok (some token) ∈ setting.answers limit machine ->
      token.isSynthetic = false)
    (accepted : (setting.run limit machine).1 = .accepted) :
    Exists fun grown => Exists fun tree =>
      Reflects plain keep (setting.run limit machine).2 grown tree := by
  induction limit generalizing machine entries trees with
  | zero => cases accepted
  | succ limit inductionHypothesis =>
      rw [Setting.answers] at real
      rw [Setting.run] at accepted ⊢
      have follows := traced.step compiled keeps all fun token asked =>
        real token (List.mem_append_left _ (by rw [asked]; exact List.mem_singleton_self _))
      generalize setting.step machine = progress at follows real accepted ⊢
      cases follows with
      | running next entries trees after =>
          exact inductionHypothesis after
            (fun token asked => real token (List.mem_append_right _ asked)) accepted
      | accepted last grown tree reflects => exact ⟨grown, tree, reflects⟩
      | stopped last halt => cases accepted

/-- Parsing to a tree that succeeds gives a tree that mirrors all reports. -/
theorem Setting.mirrors_of_parseTree (compiled : Compiled grammar plain setting.table)
    (keeps : setting.keep = some keep) (all : forall token, keep token = true) {state : σ}
    (real : forall limit token, .ok (some token) ∈ setting.answers limit (.start state) ->
      token.isSynthetic = false) {tree : ParseTree}
    (parsed : (setting.parseTree state).tree = .ok tree) :
    Exists fun grown : DerivationTree Token => grown.Composed plain plain.root ∧
      planted plain keep grown = [tree] ∧
      List.Forall₂ (Mirrors plain) (setting.parseTree state).calls
        (plain.reported (grown.numbered plain keep)) := by
  rcases setting.exists_run_eq_result (.start state) with ⟨limit, run⟩
  rw [parseTree, ← run] at parsed ⊢
  rcases TreeResult.tree_ofRun_eq_ok_iff.mp parsed with ⟨accepted, finishes⟩
  rcases (traced_start state).run compiled keeps all limit (real limit) accepted with
    ⟨grown, other, reflects⟩
  cases reflects.finishes.symm.trans finishes
  rw [TreeResult.calls_ofRun]
  exact ⟨grown, reflects.composed, reflects.becomes, reflects.calls⟩

/-- The reports to the parse are mirrored by the nodes whose effect is a report. -/
theorem mirrors_reports {calls : List Call} {nodes : List (Nat × ParseTree)}
    (mirrors : List.Forall₂ (Mirrors plain) calls (plain.reported nodes)) :
    List.Forall₂ (Mirrors plain) (calls.filter fun call => call.recipient = .parse)
      (nodes.filter fun node => plain.effectOf node.1 = .report) := by
  have toParse : forall effect : Emit, effect.recipient? = some .parse ↔ effect = .report := by
    intro effect
    cases effect <;> simp [Emit.recipient?]
  have same : nodes.filter (fun node => plain.effectOf node.1 = .report) =
      (plain.reported nodes).filter fun node => plain.effectOf node.1 = .report := by
    rw [PlainGrammar.reported, List.filter_filter]
    apply List.filter_congr
    intro node _
    by_cases report : plain.effectOf node.1 = .report
    · simp [report, Emit.recipient?]
    · simp [report]
  rw [same]
  refine List.rel_filter ?_ mirrors
  intro call node pair
  have recipient := pair.recipient
  simp only [decide_eq_true_iff]
  rw [← toParse, recipient, Option.some.injEq]

/-! ## Texts -/

/-- A stream into which nothing was put back gives tokens that have text. -/
theorem TokenStream.real_of_next {stream : TokenStream} (fresh : stream.backlog = [])
    (preference : Preference) :
    (stream.next preference).2.backlog = [] ∧
    forall token, (stream.next preference).1 = .ok (some token) -> token.isSynthetic = false := by
  unfold next
  rw [fresh]
  dsimp only
  split
  · exact ⟨fresh, fun _ impossible => by cases impossible⟩
  · exact ⟨fresh, fun _ impossible => by cases impossible⟩
  · split
    · exact ⟨fresh, fun _ impossible => by cases impossible⟩
    · exact ⟨fresh, fun _ impossible => by cases impossible⟩
    · refine ⟨fresh, fun token same => ?_⟩
      cases same
      rfl

/-- So do all runs over a text. -/
theorem Setting.real_of_stream {setting : Setting TokenStream}
    (isStream : setting.source = TokenStream.source) (matcher : Matcher) (text : String)
    {limit : Nat} {token : Token}
    (asked : .ok (some token) ∈ setting.answers limit (.start (matcher.stream text))) :
    token.isSynthetic = false := by
  have kept : forall (stream : TokenStream) (preference : Preference), stream.backlog = [] ->
      (setting.source.next stream preference).2.backlog = [] := by
    rw [isStream]
    exact fun stream preference fresh => (TokenStream.real_of_next fresh preference).1
  rcases state_of_answers kept rfl asked with ⟨stream, preference, fresh, gives⟩
  rw [isStream] at gives
  exact (TokenStream.real_of_next fresh preference).2 token gives

namespace Parser

/-- Parsing a text to a tree fails exactly if parsing it fails, and with the same outcome.  The same is
reported in both cases, to the parse and to callbacks, after every number of steps.  The reports to
the parse are mirrored, in their order, by the nodes of the tree in post-order whose productions are
reported to it. -/
theorem tree_mirrors_parse {parser : Parser} {grammar : Grammar}
    (compiled : grammar.compile = .ok parser.table) (apart : grammar.HelpersApart)
    (outward : grammar.EmitsOutward) (text : String) :
    (forall outcome, (parser.tree text).tree = .error outcome ↔
      outcome ≠ .accepted ∧ (parser.parse text).outcome = outcome) ∧
    (parser.tree text).calls = (parser.parse text).calls ∧
    (forall limit,
      ParseResult.ofRun ((parser.setting TokenStream.source none).run limit
          (.start (parser.matcher.stream text))) =
        .ofRun ((parser.setting TokenStream.source (some fun _ => true)).run limit
          (.start (parser.matcher.stream text)))) ∧
    forall tree, (parser.tree text).tree = .ok tree ->
      Exists fun plain => Exists fun grown => grammar.toPlain = .ok plain ∧
        grown.Composed plain plain.root ∧ planted plain (fun _ => true) grown = [tree] ∧
        (grown.numbered plain fun _ => true).map Prod.snd = tree.postorder ∧
        List.Forall₂ (Mirrors plain)
          ((parser.parse text).calls.filter fun call => call.recipient = .parse)
          ((grown.numbered plain fun _ => true).filter fun node =>
            plain.effectOf node.1 = .report) := by
  rcases of_bind_eq_ok compiled with ⟨plain, made, tabled⟩
  have isCompiled : Compiled grammar plain parser.table := ⟨apart, outward, made, tabled⟩
  let setting := parser.setting TokenStream.source (some fun _ => true)
  have real : forall limit token,
      .ok (some token) ∈ setting.answers limit (.start (parser.matcher.stream text)) ->
        token.isSynthetic = false :=
    fun limit token => Setting.real_of_stream rfl parser.matcher text
  have sameParse : parser.parse text = setting.treeless.parse (parser.matcher.stream text) := rfl
  have keeps : setting.keep = some fun _ => true := rfl
  rcases Setting.parseTree_inStep keeps (parser.matcher.stream text) real with ⟨calls, fails⟩
  rw [sameParse]
  refine ⟨fails, calls, fun limit => Setting.run_inStep keeps _ limit (real limit),
    fun tree parsed => ?_⟩
  rcases Setting.mirrors_of_parseTree isCompiled keeps (fun _ => rfl) real parsed with
    ⟨grown, composed, becomes, mirrors⟩
  have nodes : (grown.numbered plain fun _ => true).map Prod.snd =
      ParseTree.postorderOfEach (planted plain (fun _ => true) grown) := map_numbered grown
  rw [becomes, ParseTree.postorderOfEach_singleton] at nodes
  rw [← calls]
  exact ⟨plain, grown, made, composed, becomes, nodes, mirrors_reports mirrors⟩

end Parser

/-! ## A list between commas -/

/-- A list of items, each of which is told to a callback. -/
def Grammar.listing : Grammar :=
  ⟨[⟨"list", [{ symbols := [.name "item", .repeat0 [.name ",", .name "item"]] }]⟩,
    ⟨"item", [{ symbols := [.name "x"], emit := .callback 7 }]⟩], by decide⟩

theorem Grammar.helpersApart_listing : listing.HelpersApart :=
  helpersApart_of_markless (by decide)

theorem Grammar.emitsOutward_listing : listing.EmitsOutward := by
  intro rule ruleListed production listed
  simp only [listing, List.mem_cons, List.not_mem_nil, or_false] at ruleListed
  rcases ruleListed with rfl | rfl
  · rw [List.mem_singleton.mp listed]
    exact Or.inr (Or.inl rfl)
  · rw [List.mem_singleton.mp listed]
    exact Or.inr (Or.inr ⟨7, rfl⟩)

/-- The parser for such lists. -/
def Parser.listing : Parser :=
  { matcher :=
      (Matcher.ofSpec ⟨[⟨"x", .keyword⟩, ⟨",", .keyword⟩]⟩ false).toOption.getD ⟨[], [], false⟩
    table := Grammar.listing.compile.toOption.getD default
    skip := [] }

/-- A list of two items is parsed to a tree that mirrors its reports. -/
theorem Parser.tree_mirrors_parse_listing :
    Grammar.listing.compile = .ok listing.table ∧ Grammar.listing.HelpersApart ∧
    Grammar.listing.EmitsOutward ∧ (listing.parse "x,x").outcome = .accepted ∧
    (listing.tree "x,x").calls = (listing.parse "x,x").calls ∧
    Exists fun tree => (listing.tree "x,x").tree = .ok tree ∧
      Exists fun plain => Exists fun grown => Grammar.listing.toPlain = .ok plain ∧
        grown.Composed plain plain.root ∧ planted plain (fun _ => true) grown = [tree] ∧
        (grown.numbered plain fun _ => true).map Prod.snd = tree.postorder ∧
        List.Forall₂ (Mirrors plain)
          ((listing.parse "x,x").calls.filter fun call => call.recipient = .parse)
          ((grown.numbered plain fun _ => true).filter fun node =>
            plain.effectOf node.1 = .report) := by
  have compiled : Grammar.listing.compile = .ok listing.table := eq_ok_of_isOk (by decide +kernel)
  have runs : ((listing.setting TokenStream.source none).run 40
      (.start (listing.matcher.stream "x,x"))).1 = .accepted := by decide +kernel
  have accepted : (listing.parse "x,x").outcome = .accepted :=
    Setting.outcome_of_run runs Outcome.noConfusion
  rcases tree_mirrors_parse compiled Grammar.helpersApart_listing Grammar.emitsOutward_listing
    "x,x" with ⟨fails, calls, _, mirrors⟩
  refine ⟨compiled, Grammar.helpersApart_listing, Grammar.emitsOutward_listing, accepted, calls, ?_⟩
  cases parsed : (listing.tree "x,x").tree with
  | error outcome =>
      rcases (fails outcome).mp parsed with ⟨notAccepted, same⟩
      exact (notAccepted (same.symm.trans accepted)).elim
  | ok tree => exact ⟨tree, rfl, mirrors tree parsed⟩

end ShiftReduce
