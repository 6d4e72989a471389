import ShiftReduce.Proofs.Parse.Gathering
import ShiftReduce.Proofs.Parse.Steps

namespace ShiftReduce

/-!
# What holds while a parse runs

A parse has a stack of tokens, a lookahead, collections, nodes and a source, and what they hold
belongs together.  The invariant pairs every token on the stack, and the rule that has just been
reduced, with an entry.  The entries say which tokens of the input a token stands for and what it has
collected; the collections and the number of nodes follow from them, and their words together are
what has been read.

Each step preserves the invariant or ends the run, and it ends in acceptance, with a failure that is
not an internal one, or where the source itself breaks off.  The meaning of entries is a parameter.
It has to hold of the tokens of the source and to be handed on by reductions, so that one induction
over runs serves every property of this kind.
-/

/-- The table is that of an admissible grammar. -/
structure Prepared (grammar : Grammar) (plain : PlainGrammar) (table : Table) : Prop where
  admissible : grammar.Admissible
  made : grammar.toPlain = .ok plain
  drives : Drives plain table plain.kernels

/-- The table is that of a grammar whose helpers are apart and whose effects are the author's.  Names
can be empty here. -/
structure Grounded (grammar : Grammar) (plain : PlainGrammar) (table : Table) : Prop where
  apart : grammar.HelpersApart
  outward : grammar.EmitsOutward
  made : grammar.toPlain = .ok plain
  drives : Drives plain table plain.kernels

theorem Prepared.grounded {grammar : Grammar} {plain : PlainGrammar} {table : Table}
    (prepared : Prepared grammar plain table) : Grounded grammar plain table :=
  ⟨prepared.admissible.helpersApart, prepared.admissible.emitsOutward, prepared.made,
    prepared.drives⟩

theorem prepared_of_compile {grammar : Grammar} {table : Table} (admissible : grammar.Admissible)
    (compiled : grammar.compile = .ok table) :
    Exists fun plain => Prepared grammar plain table ∧
      (table.conflicts = [] -> Decides plain table plain.kernels) := by
  rcases of_bind_eq_ok compiled with ⟨plain, made, tabled⟩
  have named := admissible.plain_named made
  exact ⟨plain, ⟨admissible, made, PlainGrammar.drives_toTable plain tabled⟩,
    PlainGrammar.decides_toTable plain named tabled⟩

/-! ## What has been read -/

namespace Setting

variable {σ : Type} (setting : Setting σ)

/-- The tokens that are not skipped. -/
def unskipped (tokens : List Token) : List Token :=
  tokens.filter fun token => token.name ∉ setting.skip

/-- The names of the tokens that are not skipped. -/
def significant (tokens : List Token) : List String :=
  (tokens.filter fun token => token.name ∉ setting.skip).map Token.name

/-- The answers are tokens, and the end of the input if that is the lookahead.  The tokens that are
not skipped make up `word` and the lookahead. -/
def Heard (answers : List Answer) (word : List Token) (waiting : Option (Option Token)) : Prop :=
  Exists fun tokens : List Token =>
    answers = tokens.map (fun token => .ok (some token)) ++
      (if waiting = some none then [.ok none] else []) ∧
    setting.unskipped tokens = word ++ waiting.join.toList

variable {setting}

theorem unskipped_append (left right : List Token) :
    setting.unskipped (left ++ right) = setting.unskipped left ++ setting.unskipped right :=
  List.filter_append left right

theorem Heard.ended {answers : List Answer} {word : List Token}
    (heard : setting.Heard answers word none) :
    setting.Heard (answers ++ [.ok none]) word (some none) := by
  rcases heard with ⟨tokens, all, names⟩
  refine ⟨tokens, ?_, names⟩
  rw [all, if_neg (by simp), List.append_nil, if_pos rfl]

theorem Heard.skipped {answers : List Answer} {word : List Token} {token : Token}
    (heard : setting.Heard answers word none) (skip : token.name ∈ setting.skip) :
    setting.Heard (answers ++ [.ok (some token)]) word none := by
  rcases heard with ⟨tokens, all, names⟩
  refine ⟨tokens ++ [token], ?_, ?_⟩
  · rw [all, List.map_append]
    simp
  · rw [unskipped_append, names, unskipped, List.filter_singleton]
    simp [skip]

theorem Heard.read {answers : List Answer} {word : List Token} {token : Token}
    (heard : setting.Heard answers word none) (kept : token.name ∉ setting.skip) :
    setting.Heard (answers ++ [.ok (some token)]) word (some (some token)) := by
  rcases heard with ⟨tokens, all, names⟩
  refine ⟨tokens ++ [token], ?_, ?_⟩
  · rw [all, List.map_append]
    simp
  · rw [unskipped_append, names, unskipped, List.filter_singleton]
    simp [kept]

theorem Heard.shifted {answers : List Answer} {word : List Token} {token : Token}
    (heard : setting.Heard answers word (some (some token))) :
    setting.Heard answers (word ++ [token]) none := by
  rcases heard with ⟨tokens, all, names⟩
  refine ⟨tokens, ?_, ?_⟩
  · rw [all]
    simp
  · rw [names]
    simp

end Setting

/-! ## The invariant -/

theorem Token.real_of_text {token : Token} (text : token.text.isSome = true) :
    token.isSynthetic = false := by
  rw [isSynthetic, Option.isNone_eq_false_iff]
  exact text

namespace Entry

/-- The tokens that entries stand for, where the latest entry comes first. -/
def wordOf (entries : List Entry) : List Token := entries.reverse.flatMap word

theorem wordOf_cons (entry : Entry) (entries : List Entry) :
    wordOf (entry :: entries) = wordOf entries ++ entry.word := by
  rw [wordOf, List.reverse_cons, List.flatMap_append, List.flatMap_singleton]
  rfl

theorem wordOf_append (children rest : List Entry) :
    wordOf (children.reverse ++ rest) = wordOf rest ++ children.flatMap word := by
  rw [wordOf, List.reverse_append, List.reverse_reverse, List.flatMap_append]
  rfl

/-- A token of the source stands for itself. -/
def leaf (token : Token) : Entry := ⟨token, [token], none⟩

end Entry

variable {σ : Type}

/-- How a machine stands that has got the answers `heard`.  Its entries are those of the rule that
has just been reduced and of the tokens on the stack, latest first. -/
structure Standing (setting : Setting σ) (grammar : Grammar) (plain : PlainGrammar)
    (means : Entry -> Prop) (heard : List Answer) (machine : Machine σ) (entries : List Entry) :
    Prop where
  stacked : Stacked plain setting.table plain.kernels machine.stack
  tokens : entries.map Entry.token = machine.lookahead.made.toList ++ machine.stack.map Frame.token
  fits : forall entry, entry ∈ entries -> entry.Fits grammar.IsHelper
  meaning : forall entry, entry ∈ entries -> means entry
  collections : machine.collections = Entry.heldBy entries
  nodes : setting.keep.isSome = true ->
    machine.nodes.length = entries.countP fun entry => entry.token.isSynthetic
  heard : setting.Heard heard (Entry.wordOf entries) machine.lookahead.waiting
  waiting : forall token, machine.lookahead.waiting = some (some token) ->
    token.isSynthetic = false ∧ means (.leaf token)

/-- Reductions hand the meaning of entries on. -/
def Explains (grammar : Grammar) (means : Entry -> Prop) : Prop :=
  forall (draft : Draft) (place : Nat) (production : Production) (children : List Entry)
    (kept : Option Collection) (position : Position),
    draft.Children grammar place production children ->
    (forall child, child ∈ children -> means child) ->
    draft.Leaves grammar children production kept ->
    means ⟨.synthetic draft.name position, children.flatMap Entry.word, kept⟩

/-- The failure is not that of a table that asks for what is not there. -/
def ParseError.IsExternal (error : ParseError) : Prop :=
  forall expected found, error ≠ .internal expected found

/-- How a run ends.  If it accepts, the root stands for all that has been read. -/
inductive Ends (setting : Setting σ) (grammar : Grammar) (plain : PlainGrammar)
    (means : Entry -> Prop) (heard : List Answer) : Outcome -> Machine σ -> Prop where
  | accepted (machine : Machine σ) (entry : Entry) (position : Position)
      (root : entry.token = .synthetic plain.root position)
      (standing : Standing setting grammar plain means heard
        { machine with lookahead := .reduced entry.token none } [entry]) :
      Ends setting grammar plain means heard .accepted machine
  | rejected (machine : Machine σ) (error : ParseError) (external : error.IsExternal) :
      Ends setting grammar plain means heard (.stopped (.failed error)) machine
  | brokenOff (machine : Machine σ) (asked : .error .unclaimed ∈ heard) :
      Ends setting grammar plain means heard (.stopped .unclaimed) machine
  | unfinished (machine : Machine σ) : Ends setting grammar plain means heard .unfinished machine

/-- What one step comes to. -/
inductive Advances (setting : Setting σ) (grammar : Grammar) (plain : PlainGrammar)
    (means : Entry -> Prop) (heard : List Answer) : Progress σ -> Prop where
  | running (machine : Machine σ) (entries : List Entry)
      (standing : Standing setting grammar plain means heard machine entries) :
      Advances setting grammar plain means heard (.running machine)
  | ended (outcome : Outcome) (machine : Machine σ)
      (ends : Ends setting grammar plain means heard outcome machine) :
      Advances setting grammar plain means heard (.ended outcome machine)

variable {setting : Setting σ} {grammar : Grammar} {plain : PlainGrammar}
  {means : Entry -> Prop} {heard : List Answer} {machine : Machine σ} {entries : List Entry}

theorem standing_start (state : σ) :
    Standing setting grammar plain means [] (.start state) [] := by
  refine ⟨.empty, rfl, ?_, ?_, rfl, fun _ => rfl, ⟨[], rfl, rfl⟩, ?_⟩
  · exact fun _ impossible => (List.not_mem_nil impossible).elim
  · exact fun _ impossible => (List.not_mem_nil impossible).elim
  · exact fun _ impossible => by cases impossible

/-- The state on top of the stack has a row. -/
theorem Standing.row (grounded : Grounded grammar plain setting.table)
    (standing : Standing setting grammar plain means heard machine entries) :
    Exists fun row => setting.table.states[machine.state]? = some row := by
  have inside := standing.stacked.inside grounded.drives
  rw [← state_eq] at inside
  exact ⟨_, Array.getElem?_eq_getElem inside⟩

/-! ## Reading and shifting -/

theorem Standing.skipped (standing : Standing setting grammar plain means heard machine entries)
    (unread : machine.lookahead = .unread) {token : Token} (skip : token.name ∈ setting.skip)
    (source : σ) :
    Standing setting grammar plain means (heard ++ [.ok (some token)]) { machine with source }
      entries := by
  have soFar := standing.heard
  rw [unread] at soFar
  refine ⟨standing.stacked, standing.tokens, standing.fits, standing.meaning,
    standing.collections, standing.nodes, ?_, standing.waiting⟩
  dsimp only
  rw [unread]
  exact soFar.skipped skip

theorem Standing.received (standing : Standing setting grammar plain means heard machine entries)
    (unread : machine.lookahead = .unread) {token : Token} (kept : token.name ∉ setting.skip)
    (offered : token.isSynthetic = false ∧ means (.leaf token)) (source : σ) :
    Standing setting grammar plain means (heard ++ [.ok (some token)])
      { machine with source, lookahead := .ready (some token) } entries := by
  have tokens := standing.tokens
  have soFar := standing.heard
  rw [unread] at tokens soFar
  refine ⟨standing.stacked, tokens, standing.fits, standing.meaning, standing.collections,
    standing.nodes, soFar.read kept, ?_⟩
  intro other same
  cases same
  exact offered

theorem Standing.exhausted (standing : Standing setting grammar plain means heard machine entries)
    (unread : machine.lookahead = .unread) (source : σ) :
    Standing setting grammar plain means (heard ++ [.ok none])
      { machine with source, lookahead := .ready none } entries := by
  have tokens := standing.tokens
  have soFar := standing.heard
  rw [unread] at tokens soFar
  refine ⟨standing.stacked, tokens, standing.fits, standing.meaning, standing.collections,
    standing.nodes, soFar.ended, ?_⟩
  exact fun _ impossible => by cases impossible

theorem Standing.shift (grounded : Grounded grammar plain setting.table)
    (standing : Standing setting grammar plain means heard machine entries) {token : Token}
    (ready : machine.lookahead = .ready (some token)) {row : TableState}
    (found : setting.table.states[machine.state]? = some row) {target : Nat}
    (shifted : row.shift.get? token.name = some target) :
    Standing setting grammar plain means heard
      { machine with stack := ⟨token, target⟩ :: machine.stack, lookahead := .unread }
      (.leaf token :: entries) := by
  have tokens := standing.tokens
  have soFar := standing.heard
  have waiting := standing.waiting token
  rw [ready] at tokens soFar waiting
  rw [state_eq] at found
  rcases waiting rfl with ⟨real, meaning⟩
  refine ⟨standing.stacked.shift grounded.drives found shifted, ?_, ?_, ?_, standing.collections,
    ?_, ?_, ?_⟩
  · exact congrArg (token :: ·) tokens
  · intro entry member
    rcases List.mem_cons.mp member with rfl | before
    · exact ⟨fun impossible => (Bool.false_ne_true impossible).elim,
        fun parts => (Bool.false_ne_true (real.symm.trans parts.1)).elim⟩
    · exact standing.fits entry before
  · intro entry member
    rcases List.mem_cons.mp member with rfl | before
    · exact meaning
    · exact standing.meaning entry before
  · intro kept
    rw [List.countP_cons_of_neg (by simpa [Entry.leaf] using real)]
    exact standing.nodes kept
  · rw [Entry.wordOf_cons]
    exact soFar.shifted
  · exact fun _ impossible => by cases impossible

theorem Standing.follow (grounded : Grounded grammar plain setting.table)
    (standing : Standing setting grammar plain means heard machine entries) {nonterminal : Token}
    {waiting : Option Token} (reduced : machine.lookahead = .reduced nonterminal waiting)
    {row : TableState} (found : setting.table.states[machine.state]? = some row) {target : Nat}
    (shifted : row.shift.get? nonterminal.name = some target) :
    Standing setting grammar plain means heard
      { machine with stack := ⟨nonterminal, target⟩ :: machine.stack, lookahead := .ready waiting }
      entries := by
  have tokens := standing.tokens
  have soFar := standing.heard
  have later := standing.waiting
  rw [reduced] at tokens soFar later
  rw [state_eq] at found
  exact ⟨standing.stacked.shift grounded.drives found shifted, tokens, standing.fits,
    standing.meaning, standing.collections, standing.nodes, soFar, later⟩

/-! ## Reducing -/

/-- The children of a production are the latest entries, and their tokens are on top of the
stack. -/
structure Poised (setting : Setting σ) (grammar : Grammar) (plain : PlainGrammar)
    (machine : Machine σ) (draft : Draft) (place : Nat) (production : Production)
    (children rest : List Entry) (below : List Frame) : Prop where
  correct : draft.Children grammar place production children
  stack : Exists fun popped => machine.stack = popped ++ below ∧
    Frame.tokensOf popped = children.map Entry.token
  tokens : rest.map Entry.token = below.map Frame.token
  stacked : Stacked plain setting.table plain.kernels below

variable {draft : Draft} {place : Nat} {production : Production} {children rest : List Entry}
  {below : List Frame}

/-- A production that a state can reduce has its children on the stack. -/
theorem Standing.poised (grounded : Grounded grammar plain setting.table)
    (standing : Standing setting grammar plain means heard machine entries)
    {waiting : Option Token} (ready : machine.lookahead = .ready waiting) {index : Nat}
    {pair : PlainRule × PlainProduction} (known : plain.productions[index]? = some pair)
    (complete : plain.InClosure (plain.kernels (stateOf machine.stack))
      ⟨index, pair.2.symbols.length⟩) :
    Exists fun draft => Exists fun place => Exists fun production => Exists fun children =>
      Exists fun rest => Exists fun below => PlainGrammar.reduceRule pair = draft.ruleOf place production ∧
        entries = children.reverse ++ rest ∧
        Poised setting grammar plain machine draft place production children rest below := by
  rcases standing.stacked.complete grounded.drives known complete with
    ⟨popped, below, split, names, length, stacked, _⟩
  rcases Grammar.draft_of_plain grounded.made (List.mem_of_getElem? known) with
    ⟨draft, place, production, drafted, found, rfl⟩
  have tokens : entries.map Entry.token = popped.map Frame.token ++ below.map Frame.token := by
    have all := standing.tokens
    rw [ready, split, List.map_append] at all
    exact all
  rcases List.map_eq_append_iff.mp tokens with ⟨front, rest, rfl, frontTokens, restTokens⟩
  refine ⟨draft, place, production, front.reverse, rest, below, rfl, ?_, ?_, ⟨popped, split, ?_⟩,
    restTokens, stacked⟩
  · rw [List.reverse_reverse]
  · refine ⟨drafted, found, ?_, ?_⟩
    · have frontNames : front.map (fun child => child.token.name) = namesOf popped := by
        have same := congrArg (List.map Token.name) frontTokens
        rw [List.map_map, List.map_map] at same
        exact same
      rw [List.map_reverse, frontNames, names]
      rfl
    · exact fun child member =>
        standing.fits child (List.mem_append_left _ (List.mem_reverse.mp member))
  · rw [List.map_reverse, frontTokens]
    rfl

theorem Poised.pop
    (poised : Poised setting grammar plain machine draft place production children rest below) :
    Frame.pop (draft.ruleOf place production).symbols machine.stack =
      .ok (children.map Entry.token, below) := by
  rcases poised.stack with ⟨popped, split, tokens⟩
  have names : (namesOf popped).reverse =
      Draft.plainNames draft.name place 0 production.symbols := by
    rw [← Frame.names_tokensOf, tokens, List.map_map, ← poised.correct.names]
    rfl
  have length := congrArg List.length names
  rw [List.length_reverse, namesOf, List.length_map] at length
  rw [split, ← tokens]
  exact Frame.pop_eq names length

/-- Every reduction finds the nodes of its synthetic children and makes one node of them. -/
theorem nodesAfter_eq (rule : ReduceRule) {nodes : List PendingNode}
    (count : setting.keep.isSome = true -> nodes.length =
      (children.reverse ++ rest).countP fun entry => entry.token.isSynthetic) :
    Exists fun made => setting.nodesAfter rule (children.map Entry.token) nodes = .ok made ∧
      (setting.keep.isSome = true ->
        made.length = (rest.countP fun entry => entry.token.isSynthetic) + 1) := by
  unfold Setting.nodesAfter
  cases isKept : setting.keep with
  | none => exact ⟨nodes, rfl, fun impossible => by cases impossible⟩
  | some keep =>
      have enough := count (by rw [isKept]; rfl)
      have wanted : (children.map Entry.token).countP Token.isSynthetic =
          children.countP fun entry => entry.token.isSynthetic := List.countP_map
      rw [List.countP_append, List.countP_reverse] at enough
      dsimp only
      unfold PendingNode.reduce
      dsimp only
      rw [wanted, if_neg (by omega)]
      refine ⟨_, rfl, fun _ => ?_⟩
      rw [List.length_cons, List.length_drop]
      omega

/-- A reduction that leaves something puts one entry in the place of the children. -/
theorem Poised.reduce (grounded : Grounded grammar plain setting.table)
    (standing : Standing setting grammar plain means heard machine (children.reverse ++ rest))
    {waiting : Option Token} (ready : machine.lookahead = .ready waiting)
    (poised : Poised setting grammar plain machine draft place production children rest below)
    {kept : Option Collection} {call : Option Call}
    (leaves : draft.Leaves grammar children production kept)
    (reduced : (draft.ruleOf place production).reduce (children.map Entry.token)
        (Entry.heldBy children.reverse ++ Entry.heldBy rest) =
      .ok ((kept.map fun collection => (draft.name, collection)).toList ++ Entry.heldBy rest, call))
    (meaning : forall position,
      means ⟨.synthetic draft.name position, children.flatMap Entry.word, kept⟩) :
    Exists fun next : Machine σ => Exists fun position =>
      Standing setting grammar plain means heard
        { next with lookahead := .reduced (.synthetic draft.name position) waiting }
        (⟨.synthetic draft.name position, children.flatMap Entry.word, kept⟩ :: rest) ∧
      next.stack = below ∧
      setting.reduce machine (draft.ruleOf place production) waiting =
        if waiting.isNone ∧ below.isEmpty ∧ draft.name = setting.table.root then
          .ended .accepted next
        else
          .running { next with lookahead := .reduced (.synthetic draft.name position) waiting } := by
  have soFar := standing.heard
  have later := standing.waiting
  rw [ready] at soFar later
  have collections := standing.collections
  rw [Entry.heldBy_append] at collections
  rcases nodesAfter_eq (draft.ruleOf place production) standing.nodes with ⟨nodes, made, count⟩
  have nonterminal : (draft.ruleOf place production).nonterminal = draft.name := rfl
  unfold Setting.reduce
  rw [poised.pop]
  dsimp only
  rw [collections, reduced]
  dsimp only
  rw [made, nonterminal]
  dsimp only
  refine ⟨_, _, ?_, ?_, rfl⟩
  · refine ⟨poised.stacked, ?_, ?_, ?_, rfl, ?_, ?_, later⟩
    · exact congrArg (_ :: ·) poised.tokens
    · intro entry member
      rcases List.mem_cons.mp member with rfl | before
      · have fits := leaves.fits grounded.apart grounded.made poised.correct.drafted
        exact ⟨fun some => ⟨rfl, fits.mp some⟩, fun parts => fits.mpr parts.2⟩
      · exact standing.fits entry (List.mem_append_right _ before)
    · intro entry member
      rcases List.mem_cons.mp member with rfl | before
      · exact meaning _
      · exact standing.meaning entry (List.mem_append_right _ before)
    · intro isKept
      rw [List.countP_cons_of_pos rfl]
      exact count isKept
    · rw [Entry.wordOf_cons, ← Entry.wordOf_append]
      exact soFar
  · rfl

theorem external_rejection (machine : Machine σ) (lookahead : Option Token) :
    (setting.rejection machine lookahead).IsExternal := by
  intro expected found impossible
  cases lookahead <;> cases impossible

/-- What a state asks to reduce is a production whose children are the latest entries.  It leaves what
its effect says, or the reduction is refused because of a group too many. -/
theorem Standing.due (grounded : Grounded grammar plain setting.table)
    (standing : Standing setting grammar plain means heard machine entries)
    {waiting : Option Token} (ready : machine.lookahead = .ready waiting) {row : TableState}
    (found : setting.table.states[machine.state]? = some row) {name : String} {index : Nat}
    (claimed : row.reduce.get? name = some index) :
    Exists fun draft => Exists fun place => Exists fun production => Exists fun children =>
      Exists fun rest => Exists fun below =>
        row.rules[index]? = some (draft.ruleOf place production) ∧
        entries = children.reverse ++ rest ∧
        Poised setting grammar plain machine draft place production children rest below ∧
        ((Exists fun kept => draft.Leaves grammar children production kept ∧
            (draft.ruleOf place production).reduce (children.map Entry.token)
                (Entry.heldBy children.reverse ++ Entry.heldBy rest) =
              .ok ((kept.map fun collection => (draft.name, collection)).toList ++
                Entry.heldBy rest, draft.callOf production children)) ∨
          Exists fun owner => Exists fun most => Exists fun token =>
            draft.Refuses production children token ∧
            (draft.ruleOf place production).reduce (children.map Entry.token)
                (Entry.heldBy children.reverse ++ Entry.heldBy rest) =
              .error (.failed (.tooMany owner most token))) := by
  rw [state_eq] at found
  rcases grounded.drives.reduce _ row name index found claimed with
    ⟨number, pair, known, atIndex, complete⟩
  rcases standing.poised grounded ready known complete with
    ⟨draft, place, production, children, rest, below, same, rfl, poised⟩
  rw [same] at atIndex
  have belowHelpers : forall held, held ∈ Entry.heldBy rest -> grammar.IsHelper held.1 :=
    fun held => Entry.helper_of_mem_heldBy fun entry member =>
      standing.fits entry (List.mem_append_right _ member)
  exact ⟨draft, place, production, children, rest, below, atIndex, rfl, poised,
    Draft.leaves_reduce grounded.apart grounded.outward grounded.made poised.correct belowHelpers⟩

/-- A state that reduces a production finds all that the reduction needs. -/
theorem Standing.reduce (grounded : Grounded grammar plain setting.table)
    (explains : Explains grammar means)
    (standing : Standing setting grammar plain means heard machine entries)
    {waiting : Option Token} (ready : machine.lookahead = .ready waiting) {row : TableState}
    (found : setting.table.states[machine.state]? = some row) {name : String} {index : Nat}
    (claimed : row.reduce.get? name = some index) :
    Exists fun rule => row.rules[index]? = some rule ∧
      Advances setting grammar plain means heard (setting.reduce machine rule waiting) := by
  rcases standing.due grounded ready found claimed with
    ⟨draft, place, production, children, rest, below, atIndex, rfl, poised,
      ⟨kept, leaves, reduced⟩ | ⟨owner, most, token, _, refused⟩⟩
  · refine ⟨_, atIndex, ?_⟩
    have meaning := fun position => explains draft place production children kept position
      poised.correct (fun child member => standing.meaning child
        (List.mem_append_left _ (List.mem_reverse.mpr member))) leaves
    rcases poised.reduce grounded standing ready leaves reduced meaning with
      ⟨next, position, after, stack, result⟩
    rw [result]
    split
    next accepts =>
      rcases accepts with ⟨ended, emptied, isRoot⟩
      have noRest : rest = [] := by
        have lengths := congrArg List.length poised.tokens
        rw [List.isEmpty_iff.mp emptied, List.length_map] at lengths
        exact List.eq_nil_of_length_eq_zero lengths
      rw [noRest, Option.isNone_iff_eq_none.mp ended] at after
      refine .ended _ _ (.accepted next
        ⟨.synthetic draft.name position, children.flatMap Entry.word, kept⟩ position ?_ after)
      rw [isRoot, grounded.drives.root]
    · exact .running _ _ after
  · refine ⟨_, atIndex, ?_⟩
    have collections := standing.collections
    rw [Entry.heldBy_append] at collections
    unfold Setting.reduce
    rw [poised.pop]
    dsimp only
    rw [collections, refused]
    exact .ended _ _ (.rejected _ _ fun _ _ impossible => by cases impossible)

/-- Each step preserves the invariant or ends the run. -/
theorem Standing.step (grounded : Grounded grammar plain setting.table)
    (explains : Explains grammar means)
    (standing : Standing setting grammar plain means heard machine entries)
    (offers : forall token, setting.answer? machine = some (.ok (some token)) ->
      token.name ∉ setting.skip -> token.isSynthetic = false ∧ means (.leaf token)) :
    Advances setting grammar plain means (heard ++ (setting.answer? machine).toList)
      (setting.step machine) := by
  have steps := setting.steps_step machine
  generalize setting.step machine = progress at steps ⊢
  cases steps with
  | lost missing =>
      rcases standing.row grounded with ⟨row, found⟩
      rw [missing] at found
      cases found
  | failed row error source found unread reply =>
      rw [Setting.answer?_of_reply unread found reply]
      cases error with
      | lex error =>
          exact .ended _ _ (.rejected _ (.lex error) fun _ _ impossible => by cases impossible)
      | unclaimed =>
          exact .ended _ _ (.brokenOff _ (List.mem_append_right _ (List.mem_singleton_self _)))
  | exhausted row source found unread reply =>
      rw [Setting.answer?_of_reply unread found reply]
      exact .running _ entries (standing.exhausted unread source)
  | skipped row token source found unread reply skip =>
      rw [Setting.answer?_of_reply unread found reply]
      exact .running _ entries (standing.skipped unread skip source)
  | received row token source found unread reply kept =>
      have offered := offers token (Setting.answer?_of_reply unread found reply) kept
      rw [Setting.answer?_of_reply unread found reply]
      exact .running _ entries (standing.received unread kept offered source)
  | shifted row token target found ready shifts =>
      rw [answer?_of_ready ready, Option.toList_none, List.append_nil]
      exact .running _ _ (standing.shift grounded ready found shifts)
  | interrupted token ready synthetic =>
      exact .ended _ _ (.rejected _ _ fun _ _ impossible => by cases impossible)
  | rejected waiting waits =>
      exact .ended _ _ (.rejected _ _ (external_rejection machine waiting))
  | unnamed row waiting name index found ready claimed missing =>
      rcases standing.reduce grounded explains ready found claimed with ⟨rule, named, _⟩
      rw [missing] at named
      cases named
  | reduced row waiting name index rule found ready claimed named =>
      rcases standing.reduce grounded explains ready found claimed with ⟨other, same, advances⟩
      cases Option.some.inj (named.symm.trans same)
      rw [answer?_of_ready ready, Option.toList_none, List.append_nil]
      exact advances
  | followed row nonterminal waiting target found made shifts =>
      rw [answer?_of_reduced made, Option.toList_none, List.append_nil]
      exact .running _ _ (standing.follow grounded made found shifts)

/-- So does a whole run. -/
theorem Standing.run (grounded : Grounded grammar plain setting.table)
    (explains : Explains grammar means) (limit : Nat)
    (standing : Standing setting grammar plain means heard machine entries)
    (offers : forall token, .ok (some token) ∈ setting.answers limit machine ->
      token.name ∉ setting.skip -> token.isSynthetic = false ∧ means (.leaf token)) :
    Ends setting grammar plain means (heard ++ setting.answers limit machine)
      (setting.run limit machine).1 (setting.run limit machine).2 := by
  induction limit generalizing heard machine entries with
  | zero => exact .unfinished machine
  | succ limit inductionHypothesis =>
      rw [Setting.answers] at offers ⊢
      rw [Setting.run]
      have advances := standing.step grounded explains fun token asked =>
        offers token (List.mem_append_left _ (by rw [asked]; exact List.mem_singleton_self _))
      cases result : setting.step machine with
      | running next =>
          rw [result] at advances offers
          dsimp only at offers ⊢
          rw [← List.append_assoc]
          cases advances with
          | running _ entries after =>
              exact inductionHypothesis after fun token member =>
                offers token (List.mem_append_right _ member)
      | ended outcome last =>
          rw [result] at advances
          dsimp only
          rw [List.append_nil]
          cases advances with
          | ended _ _ ends => exact ends

end ShiftReduce
