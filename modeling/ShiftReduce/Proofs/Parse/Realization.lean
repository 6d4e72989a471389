import ShiftReduce.Proofs.Parse.Progress

namespace ShiftReduce

/-!
# Leading a run along a derivation

If no conflict was resolved, a table reduces a complete production on each of its canonical
lookaheads.  So a run can be led to have a name on its stack.  The name has to be called for: it
stands behind a dot, and every production of it has the next token as its lookahead.  The names of a
production are called for one after the other.  What follows a name either begins with the token
after it or can be empty, and then the lookahead is that of the production around it.

What a name leaves besides its token is the number of groups it has collected.  Nothing in the table
keeps a repetition from having too many, so that a production is reduced is an assumption here.
-/

/-- The name of the first token; the empty name is the end of the input. -/
def aheadName (ahead : List Token) : String := (ahead.head?.map Token.name).getD ""

/-- The name is expected above the stack, and its productions have the next token as lookahead. -/
structure Calls (plain : PlainGrammar) (stack : List Frame) (name : String) (ahead : List Token) :
    Prop where
  behind : Exists fun core => Exists fun rest =>
    plain.InClosure (plain.kernels (stateOf stack)) core ∧
      plain.fromDot core.production core.dot = name :: rest
  lookahead : forall production, plain.Expands name production ->
    plain.Attaches (namesOf stack) ⟨production, 0⟩ (aheadName ahead)

variable {σ : Type}

/-- The number of groups of an entry, if it has a collection. -/
def Entry.groups (entry : Entry) : Option Nat := entry.collection.map Collection.groups

/-- Wherever the name is called for and tokens named as in `word` are ahead, the run comes to have
an entry of that name with so many groups on its stack, unless it accepts before. -/
structure Realized (setting : Setting σ) (grammar : Grammar) (plain : PlainGrammar) (name : String)
    (groups : Option Nat) (word : List String) : Prop where
  derives : plain.Derives [name] word
  terminals : forall terminal, terminal ∈ word -> ¬ plain.IsNonterminal terminal
  runs : forall (machine : Machine σ) (entries : List Entry) (taken ahead : List Token),
    taken.map Token.name = word ->
    Ready setting grammar plain machine entries (taken ++ ahead) ->
    Calls plain machine.stack name ahead ->
    (forall (next : Machine σ) (entry : Entry) (target : Nat),
      Ready setting grammar plain next (entry :: entries) ahead ->
      next.stack = ⟨entry.token, target⟩ :: machine.stack -> entry.token.name = name ->
      entry.groups = groups -> setting.Accepts next) ->
    setting.Accepts machine

/-- Names that are realized one after the other. -/
inductive RealizedAll (setting : Setting σ) (grammar : Grammar) (plain : PlainGrammar) :
    List String -> List (Option Nat) -> List String -> Prop where
  | nil : RealizedAll setting grammar plain [] [] []
  | cons (name : String) (groups : Option Nat) (word : List String) (names : List String)
      (counts : List (Option Nat)) (rest : List String)
      (first : Realized setting grammar plain name groups word)
      (later : RealizedAll setting grammar plain names counts rest) :
      RealizedAll setting grammar plain (name :: names) (groups :: counts) (word ++ rest)

variable {setting : Setting σ} {grammar : Grammar} {plain : PlainGrammar}

/-- A terminal is realized by its token. -/
theorem Realized.token (prepared : Prepared grammar plain setting.table) {name : String}
    (terminal : ¬ plain.IsNonterminal name) : Realized setting grammar plain name none [name] := by
  refine ⟨.refl _, ?_, ?_⟩
  · intro other member
    rw [List.mem_singleton.mp member]
    exact terminal
  · intro machine entries taken ahead names ready calls goal
    rcases List.map_eq_singleton_iff.mp names with ⟨token, rfl, rfl⟩
    rcases ready.standing with ⟨heard, standing⟩
    rcases standing.row prepared.grounded with ⟨row, found⟩
    rcases calls.behind with ⟨core, rest, member, dotted⟩
    rw [← state_eq] at member
    rcases prepared.drives.shifts _ row core token.name rest found member dotted with
      ⟨target, shifted⟩
    exact Ready.shift prepared ready found shifted fun next after stack =>
      goal next (.leaf token) target after stack rfl rfl

theorem RealizedAll.derives {names : List String} {counts : List (Option Nat)} {word : List String}
    (all : RealizedAll setting grammar plain names counts word) : plain.Derives names word := by
  induction all with
  | nil => exact .refl []
  | cons name groups word names counts rest first _ inductionHypothesis =>
      exact first.derives.append inductionHypothesis

theorem RealizedAll.terminals {names : List String} {counts : List (Option Nat)}
    {word : List String} (all : RealizedAll setting grammar plain names counts word) :
    forall terminal, terminal ∈ word -> ¬ plain.IsNonterminal terminal := by
  induction all with
  | nil => exact fun _ impossible => (List.not_mem_nil impossible).elim
  | cons name groups word names counts rest first _ inductionHypothesis =>
      intro terminal member
      rcases List.mem_append.mp member with here | later
      · exact first.terminals terminal here
      · exact inductionHypothesis terminal later

/-- A name behind the dot is called for if what follows it is realized. -/
theorem calls_of_attaches (prepared : Prepared grammar plain setting.table) {stack : List Frame}
    (stacked : Stacked plain setting.table plain.kernels stack) {core : Core} {ahead : List Token}
    (attaches : plain.Attaches (namesOf stack) core (aheadName ahead)) {name : String}
    {names : List String} (dotted : plain.fromDot core.production core.dot = name :: names)
    {counts : List (Option Nat)} {back : List Token}
    (later : RealizedAll setting grammar plain names counts (back.map Token.name)) :
    Calls plain stack name (back ++ ahead) := by
  have reaches := stacked.reaches prepared.drives
  rcases attaches.reaches with ⟨kernel, otherReaches, member⟩
  rw [otherReaches.unique reaches] at member
  refine ⟨⟨core, names, member, dotted⟩, ?_⟩
  intro production expands
  have derives := later.derives
  cases back with
  | nil => exact .pass _ core name names production _ attaches dotted expands derives
  | cons token others =>
      have terminal := later.terminals token.name List.mem_cons_self
      exact .first _ _ core name names production _ reaches member dotted expands
        ⟨terminal, _, derives⟩

/-- The names behind a dot are realized one after the other, and the dot moves over them. -/
theorem RealizedAll.runs (prepared : Prepared grammar plain setting.table) {index : Nat}
    {pair : PlainRule × PlainProduction} (known : plain.productions[index]? = some pair)
    {names : List String} {counts : List (Option Nat)} {word : List String}
    (all : RealizedAll setting grammar plain names counts word) (machine : Machine σ)
    (entries : List Entry) (taken ahead : List Token) (dot : Nat)
    (words : taken.map Token.name = word)
    (ready : Ready setting grammar plain machine entries (taken ++ ahead))
    (attaches : plain.Attaches (namesOf machine.stack) ⟨index, dot⟩ (aheadName ahead))
    (dotted : pair.2.symbols.drop dot = names)
    (goal : forall (next : Machine σ) (children : List Entry) (popped : List Frame),
      Ready setting grammar plain next (children.reverse ++ entries) ahead ->
      next.stack = popped ++ machine.stack ->
      Frame.tokensOf popped = children.map Entry.token ->
      children.map (fun child => child.token.name) = names ->
      children.map Entry.groups = counts ->
      plain.Attaches (namesOf next.stack) ⟨index, dot + names.length⟩ (aheadName ahead) ->
      setting.Accepts next) :
    setting.Accepts machine := by
  induction all generalizing machine entries taken dot with
  | nil =>
      rw [List.map_eq_nil_iff.mp words] at ready
      exact goal machine [] [] ready rfl rfl rfl rfl attaches
  | cons name groups word names counts rest first later inductionHypothesis =>
      rcases List.map_eq_append_iff.mp words with ⟨front, back, rfl, frontWord, backWord⟩
      rw [List.append_assoc] at ready
      rcases ready.standing with ⟨heard, standing⟩
      have behind : plain.fromDot index dot = name :: names := by
        rw [PlainGrammar.fromDot_eq known]
        exact dotted
      rw [← backWord] at later
      -- The lookahead of the first name is the first token of `back`, or else that of `ahead`.
      have calls := calls_of_attaches prepared standing.stacked attaches behind later
      apply first.runs machine entries front (back ++ ahead) frontWord ready calls
      intro next entry target after stack isName count
      have path : namesOf next.stack = name :: namesOf machine.stack := by
        rw [stack, ← isName]
        rfl
      have moved := PlainGrammar.Attaches.move _ _ name names _ attaches behind
      rw [← path] at moved
      have dottedLater : pair.2.symbols.drop (dot + 1) = names := by
        rw [← List.tail_drop, dotted]
        rfl
      apply inductionHypothesis next (entry :: entries) back (dot + 1) backWord after moved
        dottedLater
      intro last children popped done lastStack tokens lastNames lastCounts attached
      apply goal last (entry :: children) (popped ++ [⟨entry.token, target⟩])
      · rw [List.reverse_cons, List.append_assoc]
        exact done
      · rw [lastStack, stack, List.append_assoc]
        rfl
      · rw [List.map_cons, ← tokens, Frame.tokensOf, List.map_append, List.reverse_append]
        rfl
      · rw [List.map_cons, isName, lastNames]
      · rw [List.map_cons, count, lastCounts]
      · rw [List.length_cons, Nat.add_comm names.length 1, ← Nat.add_assoc]
        exact attached

/-! ## Reductions on the right lookahead -/

/-- Children with these numbers of groups are reduced without a failure, and the reduction leaves a
collection of `groups` groups or none. -/
def Reduces (grammar : Grammar) (draft : Draft) (place : Nat) (production : Production)
    (counts : List (Option Nat)) (groups : Option Nat) : Prop :=
  forall (children : List Entry) (below : Collections),
    draft.Children grammar place production children -> children.map Entry.groups = counts ->
    (forall held, held ∈ below -> grammar.IsHelper held.1) ->
    Exists fun kept => draft.Leaves grammar children production kept ∧
      kept.map Collection.groups = groups ∧
      (draft.ruleOf place production).reduce (children.map Entry.token)
          (Entry.heldBy children.reverse ++ below) =
        .ok ((kept.map fun collection => (draft.name, collection)).toList ++ below,
          draft.callOf production children)

/-- A complete production is reduced on its lookahead. -/
private theorem step_complete (prepared : Prepared grammar plain setting.table)
    (decides : Decides plain setting.table plain.kernels) {machine : Machine σ}
    {entries : List Entry} {ahead : List Token}
    (ready : Ready setting grammar plain machine entries ahead) {index : Nat}
    {pair : PlainRule × PlainProduction} (known : plain.productions[index]? = some pair)
    (attaches : plain.Attaches (namesOf machine.stack) ⟨index, pair.2.symbols.length⟩
      (aheadName ahead)) :
    setting.step machine = setting.reduce machine (PlainGrammar.reduceRule pair) ahead.head? := by
  rcases ready.standing with ⟨heard, standing⟩
  have lookahead := ready.lookahead
  have waiting := standing.waiting
  rw [lookahead] at waiting
  rcases standing.row prepared.grounded with ⟨row, found⟩
  have here := found
  rw [state_eq] at here
  rcases decides _ row _ index pair _ here (standing.stacked.reaches prepared.drives) known attaches
    with ⟨notShifted, place, reduced, rule⟩
  have reduces : setting.reduceFor machine row ahead.head? =
      setting.reduce machine (PlainGrammar.reduceRule pair) ahead.head? := by
    have first : (row.reduce.get? ((ahead.head?.map fun token => token.name).getD "")).or
        (row.reduce.get? "") = some place := Option.or_eq_some_iff.mpr (Or.inl reduced)
    unfold Setting.reduceFor
    dsimp only
    rw [first]
    dsimp only
    rw [rule]
  unfold Setting.step
  rw [found, lookahead]
  cases ahead with
  | nil => exact reduces
  | cons token later =>
      have real := (waiting token rfl).1
      change row.shift.get? token.name = none at notShifted
      dsimp only [List.head?_cons] at reduces ⊢
      rw [notShifted, real]
      exact reduces

/-- Names that are realized are reduced to the rule that they are a production of. -/
theorem accepts_of_production (prepared : Prepared grammar plain setting.table)
    (decides : Decides plain setting.table plain.kernels) {draft : Draft} {place : Nat}
    {production : Production} (drafted : Draft.Drafted grammar.drafts draft)
    (found : draft.productions[place]? = some production) {counts : List (Option Nat)}
    {groups : Option Nat} {word : List String}
    (all : RealizedAll setting grammar plain
      (Draft.plainNames draft.name place 0 production.symbols) counts word)
    (reduces : Reduces grammar draft place production counts groups) {index : Nat}
    (known : plain.productions[index]? =
      some (draft.plainRule, Draft.plainProduction draft.name place production))
    (machine : Machine σ) (entries : List Entry) (taken ahead : List Token)
    (words : taken.map Token.name = word)
    (ready : Ready setting grammar plain machine entries (taken ++ ahead))
    (attaches : plain.Attaches (namesOf machine.stack) ⟨index, 0⟩ (aheadName ahead))
    (goal : forall (next : Machine σ) (entry : Entry) (heard : List Answer),
      Standing setting grammar plain (fun _ => True) heard next (entry :: entries) ->
      next.lookahead = .reduced entry.token ahead.head? -> next.stack = machine.stack ->
      (forall token later, ahead = token :: later -> setting.Feeds next later) ->
      entry.token.name = draft.name -> entry.groups = groups ->
      ¬ (ahead = [] ∧ machine.stack = [] ∧ draft.name = setting.table.root) ->
      setting.Accepts next) :
    setting.Accepts machine := by
  rcases ready.standing with ⟨before, standingBefore⟩
  apply all.runs prepared known machine entries taken ahead 0 words ready attaches List.drop_zero
  intro last children popped done stack tokens names groupsOf attached
  rcases done.standing with ⟨heard, standing⟩
  rw [Nat.zero_add] at attached
  have goes := step_complete prepared decides done known attached
  have correct : draft.Children grammar place production children :=
    ⟨drafted, found, names, fun child member =>
      standing.fits child (List.mem_append_left _ (List.mem_reverse.mpr member))⟩
  have rest : entries.map Entry.token = machine.stack.map Frame.token := by
    have all := standingBefore.tokens
    rw [ready.lookahead] at all
    exact all
  have poised : Poised setting grammar plain last draft place production children entries
      machine.stack :=
    ⟨correct, ⟨popped, stack, tokens⟩, rest, standingBefore.stacked⟩
  rcases reduces children (Entry.heldBy entries) correct groupsOf
    (fun held => Entry.helper_of_mem_heldBy fun entry member =>
      standing.fits entry (List.mem_append_right _ member)) with ⟨kept, leaves, count, reduced⟩
  rcases poised.reduce prepared.grounded standing done.lookahead leaves reduced (fun _ => trivial) with
    ⟨next, position, after, below, result⟩
  have result := goes.trans result
  split at result
  · exact .of_ended result
  next notDone =>
    refine .of_running result (goal _ _ heard after rfl below ?_ rfl count ?_)
    · exact fun token later split => (done.feeds token later split).quiet done.waiting result
    · rintro ⟨ended, emptied, isRoot⟩
      apply notDone
      rw [ended, emptied]
      exact ⟨rfl, rfl, isRoot⟩

/-- So a rule is realized by its production. -/
theorem Realized.production (prepared : Prepared grammar plain setting.table)
    (decides : Decides plain setting.table plain.kernels) {draft : Draft} {place : Nat}
    {production : Production} (drafted : Draft.Drafted grammar.drafts draft)
    (found : draft.productions[place]? = some production) {counts : List (Option Nat)}
    {groups : Option Nat} {word : List String}
    (all : RealizedAll setting grammar plain
      (Draft.plainNames draft.name place 0 production.symbols) counts word)
    (reduces : Reduces grammar draft place production counts groups) :
    Realized setting grammar plain draft.name groups word := by
  have listed := Grammar.plain_of_draft prepared.made drafted found
  refine ⟨(PlainGrammar.Derives.production listed).trans all.derives, all.terminals, ?_⟩
  intro machine entries taken ahead words ready calls goal
  rcases List.getElem?_of_mem listed with ⟨index, known⟩
  have attaches := calls.lookahead index ⟨_, known, rfl⟩
  apply accepts_of_production prepared decides drafted found all reduces known machine entries taken
    ahead words ready attaches
  intro next entry heard standing lookahead stack feeds isName count _
  rcases standing.row prepared.grounded with ⟨row, atState⟩
  rcases calls.behind with ⟨core, rest, member, dotted⟩
  rw [← stack, ← state_eq] at member
  rw [← isName] at dotted
  rcases prepared.drives.shifts _ row core entry.token.name rest atState member dotted with
    ⟨target, shifted⟩
  apply Ready.follow prepared standing lookahead feeds atState shifted
  intro last after lastStack
  rw [stack] at lastStack
  exact goal last entry target after lastStack isName count

end ShiftReduce
