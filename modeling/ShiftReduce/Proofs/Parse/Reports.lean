import ShiftReduce.Proofs.Grammar.PlainLanguage
import ShiftReduce.Proofs.Parse.Safety

namespace ShiftReduce

/-!
# What is reported has the shape that was written

A report lists the tokens of a production as if there were no helpers.  The production is then read
as a regular expression over names: a name stands for itself, be it that of a rule or of a token, and
an operator for one of the sequences that it unfolds to.

What an entry offers to the rule around it is what it contributes to a report.  For a rule or a token
this is the token itself, and for a helper what it has collected.  The invariant says of what is
offered that it matches the operator of the helper, with as many copies of a body as groups are
counted, that rules are synthetic tokens in it, and that all other tokens are among those that the
entry stands for, in the same order.  A report puts together what its children offer, so nothing has
to be known of how the run goes on.
-/

namespace Symbol

/-- The names match the symbols, read as a regular expression over names. -/
inductive Matches : List Symbol -> List String -> Prop where
  | nil : Matches [] []
  | name (word : String) (rest : List Symbol) (back : List String) (later : Matches rest back) :
      Matches (.name word :: rest) (word :: back)
  | operator (symbol : Symbol) (unfolded rest : List Symbol) (front back : List String)
      (unfolds : symbol.Unfolds unfolded) (body : Matches unfolded front)
      (later : Matches rest back) : Matches (symbol :: rest) (front ++ back)

theorem Matches.append {left right : List Symbol} {front back : List String}
    (first : Matches left front) (second : Matches right back) :
    Matches (left ++ right) (front ++ back) := by
  induction first with
  | nil => exact second
  | name word rest middle _ inductionHypothesis =>
      exact .name word (rest ++ right) (middle ++ back) inductionHypothesis
  | operator symbol unfolded rest inner middle unfolds body _ _ inductionHypothesis =>
      rw [List.append_assoc]
      exact .operator symbol unfolded (rest ++ right) inner (middle ++ back) unfolds body
        inductionHypothesis

/-- What matches consists of names that are written in the symbols. -/
theorem Matches.written {symbols : List Symbol} {names : List String}
    (matched : Matches symbols names) : forall name, name ∈ names ->
    Exists fun symbol => symbol ∈ symbols ∧ Contains symbol (.name name) := by
  induction matched with
  | nil => exact fun _ impossible => (List.not_mem_nil impossible).elim
  | name word rest back _ inductionHypothesis =>
      intro name member
      rcases List.mem_cons.mp member with rfl | after
      · exact ⟨_, List.mem_cons_self, .refl _⟩
      · exact (inductionHypothesis name after).imp fun _ parts =>
          ⟨List.mem_cons_of_mem _ parts.1, parts.2⟩
  | operator symbol unfolded rest front back unfolds _ _ bodyHypothesis laterHypothesis =>
      intro name member
      rcases List.mem_append.mp member with here | after
      · rcases bodyHypothesis name here with ⟨inner, inside, contains⟩
        exact ⟨symbol, List.mem_cons_self,
          .child symbol inner _ (unfolds.admits.mem_children inside) contains⟩
      · exact (laterHypothesis name after).imp fun _ parts =>
          ⟨List.mem_cons_of_mem _ parts.1, parts.2⟩

/-- What matches a name and further symbols has the name at its front. -/
theorem Matches.head_of_name {word : String} {rest : List Symbol} {names : List String}
    (matched : Matches (.name word :: rest) names) : names.head? = some word := by
  cases matched with
  | name => rfl
  | operator _ _ _ _ _ unfolds => cases unfolds

end Symbol

namespace Grammar

open Draft

/-- The tokens are synthetic where they are named after rules, none has the name of a helper, and the
others come from the word, in their order. -/
structure Genuine (grammar : Grammar) (tokens word : List Token) : Prop where
  rules : forall token, token ∈ tokens -> token.name ∈ grammar.allRuleNames ->
    token.name ∈ grammar.ruleNames ∧ token.isSynthetic = true
  others : (tokens.filter fun token => token.name ∉ grammar.ruleNames).Sublist word

/-- The call is the report of a production of a rule: it goes to whom the production says, under its
label or else the name of the rule, and its tokens match the production.  `read` are the tokens that
the source has given. -/
structure Reports (grammar : Grammar) (read : List Token) (call : Call) (rule : Rule)
    (production : Production) : Prop where
  listed : rule ∈ grammar.rules
  chosen : production ∈ rule.productions
  recipient : production.emit = .report ∧ call.recipient = .parse ∨
    Exists fun identity => production.emit = .callback identity ∧
      call.recipient = .callback identity
  label : call.label = production.label.getD rule.name
  shape : grammar.FloorsFit -> Symbol.Matches production.symbols (call.tokens.map Token.name)
  synthetic : forall token, token ∈ call.tokens -> token.name ∈ grammar.ruleNames ->
    token.isSynthetic = true
  source : (call.tokens.filter fun token => token.name ∉ grammar.ruleNames).Sublist read
  helperless : forall token, token ∈ call.tokens -> ¬ grammar.IsHelper token.name

/-- What a collection holds matches a sequence that the operator unfolds to.  For a repetition this
has as many copies of the body as there are groups. -/
def Gathered (symbol : Symbol) (collection : Collection) : Prop :=
  Exists fun unfolded => symbol.Unfolds unfolded ∧
    Symbol.Matches unfolded (collection.tokens.map Token.name) ∧
    forall least most body, repetition? symbol = some (least, most, body) ->
      least ≤ collection.groups ∧ unfolded = repeated collection.groups body

/-- What an entry contributes to the report of a rule around it. -/
structure Presents (grammar : Grammar) (entry : Entry) : Prop where
  genuine : grammar.Genuine entry.offered entry.word
  written : entry.token.name ∈ grammar.names -> entry.offered = [entry.token]
  collected : forall (owner draft : Draft) (place index : Nat) (symbol : Symbol),
    Drafted grammar.drafts owner -> owner.HelperOf place index symbol draft ->
    entry.token.name = draft.name -> Exists fun collection =>
      entry.collection = some collection ∧ (grammar.FloorsFit -> Gathered symbol collection)

variable {grammar : Grammar} {plain : PlainGrammar}

theorem Genuine.append {left right front back : List Token} (first : grammar.Genuine left front)
    (second : grammar.Genuine right back) : grammar.Genuine (left ++ right) (front ++ back) := by
  refine ⟨?_, ?_⟩
  · intro token member isRule
    rcases List.mem_append.mp member with here | after
    · exact first.rules token here isRule
    · exact second.rules token after isRule
  · rw [List.filter_append]
    exact first.others.append second.others

/-- What the children offer comes from what they stand for. -/
theorem genuine_children {children : List Entry}
    (present : forall child, child ∈ children -> grammar.Presents child) :
    grammar.Genuine (children.flatMap Entry.offered) (children.flatMap Entry.word) := by
  induction children with
  | nil => exact ⟨fun _ impossible => (List.not_mem_nil impossible).elim, .slnil⟩
  | cons child rest inductionHypothesis =>
      have later := inductionHypothesis fun entry member =>
        present entry (List.mem_cons_of_mem _ member)
      exact (present child List.mem_cons_self).genuine.append later

/-- A token of the source offers itself. -/
theorem presents_token (made : grammar.toPlain = .ok plain) {token : Token}
    (terminal : token.name ∉ grammar.allRuleNames) : grammar.Presents (.leaf token) := by
  refine ⟨⟨?_, List.filter_sublist⟩, fun _ => rfl, ?_⟩
  · intro other member isRule
    rw [List.mem_singleton.mp member] at isRule
    exact (terminal isRule).elim
  · intro owner draft place index symbol ownerDrafted helperOf name
    have drafted : Drafted grammar.drafts draft := .helper _ _ _ _ _ ownerDrafted helperOf
    have own : token.name = draft.name := name
    exact (terminal (own ▸ mem_allRuleNames made drafted)).elim

/-- A reduced rule of the author's offers itself. -/
theorem presents_rule (admissible : grammar.Admissible) (made : grammar.toPlain = .ok plain)
    {name : String} (isRule : name ∈ grammar.ruleNames) (position : Position) (word : List Token) :
    grammar.Presents ⟨.synthetic name position, word, none⟩ := by
  refine ⟨⟨?_, ?_⟩, fun _ => rfl, ?_⟩
  · intro token member _
    rw [List.mem_singleton.mp member]
    exact ⟨isRule, rfl⟩
  · have nothing : [Token.synthetic name position].filter
        (fun token => token.name ∉ grammar.ruleNames) = [] := by
      rw [List.filter_eq_nil_iff]
      intro token member outside
      rw [List.mem_singleton.mp member] at outside
      exact of_decide_eq_true outside isRule
    exact nothing ▸ List.nil_sublist word
  · intro owner draft place index symbol ownerDrafted helperOf own
    have apart := admissible.helpersApart.helper_apart made
      (.helper _ _ _ _ _ ownerDrafted helperOf)
      helperOf.isHelper
    have same : name = draft.name := own
    exact (apart (same ▸ List.mem_append_left _ isRule)).elim

/-- A reduced helper offers what it has collected. -/
theorem presents_helper (admissible : grammar.Admissible) (made : grammar.toPlain = .ok plain)
    {owner draft : Draft} (ownerDrafted : Drafted grammar.drafts owner) {place index : Nat}
    {symbol : Symbol} (helperOf : owner.HelperOf place index symbol draft) {collection : Collection}
    {word : List Token} (genuine : grammar.Genuine collection.tokens word)
    (gathered : grammar.FloorsFit -> Gathered symbol collection) (position : Position) :
    grammar.Presents ⟨.synthetic draft.name position, word, some collection⟩ := by
  have drafted : Drafted grammar.drafts draft := .helper _ _ _ _ _ ownerDrafted helperOf
  refine ⟨genuine, ?_, ?_⟩
  · have unwritten := admissible.helpersApart.helper_apart made drafted helperOf.isHelper
    exact fun written => (unwritten written).elim
  · intro other helper otherPlace otherIndex operator otherDrafted otherOf name
    have same := admissible.helpersApart.operator_unique made ownerDrafted otherDrafted helperOf
      otherOf name
    subst same
    exact ⟨collection, rfl, gathered⟩

/-- A child offers what matches its symbol. -/
theorem matches_child (fits : grammar.FloorsFit) (made : grammar.toPlain = .ok plain) {draft : Draft}
    (drafted : Drafted grammar.drafts draft) {place index : Nat} {production : Production}
    (found : draft.productions[place]? = some production) {symbol : Symbol}
    (inside : production.symbols[index]? = some symbol) (writes : grammar.Writes symbol)
    {child : Entry} (present : grammar.Presents child)
    (name : child.token.name = plainName draft.name place index symbol) :
    Symbol.Matches [symbol] (child.offered.map Token.name) := by
  cases isName : symbol.asName? with
  | some word =>
      have same := eq_name_of_asName? isName
      subst same
      have isWord : child.token.name = word := name
      rw [present.written (isWord ▸ mem_names_of_writes writes), List.map_singleton, isWord]
      exact .name word [] [] .nil
  | none =>
      rw [plainName_operator isName] at name
      rcases (toPlain_eq made).2.1 draft drafted place index production symbol found inside isName
        with ⟨own, ownOf⟩
      rw [← ownOf.name] at name
      rcases present.collected draft own place index symbol drafted ownOf name with
        ⟨collection, held, gathered⟩
      rcases gathered fits with ⟨unfolded, unfolds, holds, _⟩
      rw [Entry.offered_of_some held]
      have all := Symbol.Matches.operator symbol unfolded [] _ [] unfolds holds .nil
      rwa [List.append_nil] at all

/-- Children offer together what matches their symbols. -/
theorem matches_children (fits : grammar.FloorsFit) (made : grammar.toPlain = .ok plain)
    {draft : Draft} (drafted : Drafted grammar.drafts draft) {place start : Nat}
    {production : Production}
    (found : draft.productions[place]? = some production) {symbols : List Symbol}
    {children : List Entry} (inside : production.symbols.drop start = symbols)
    (writes : forall symbol, symbol ∈ symbols -> grammar.Writes symbol)
    (names : children.map (fun child => child.token.name) =
      plainNames draft.name place start symbols)
    (present : forall child, child ∈ children -> grammar.Presents child) :
    Symbol.Matches symbols ((children.flatMap Entry.offered).map Token.name) := by
  refine relates_children (fun symbols tokens => Symbol.Matches symbols (tokens.map Token.name)) .nil
    ?_ draft place start production Entry.offered inside names ?_
  · intro symbol rest front back first later
    rw [List.map_append]
    exact first.append later
  · intro index symbol child atIndex listed member name
    exact matches_child fits made drafted found atIndex (writes symbol listed) (present child member)
      name

/-- Reductions hand on what entries offer. -/
theorem explains_presents (admissible : grammar.Admissible) (made : grammar.toPlain = .ok plain) :
    Explains grammar grammar.Presents := by
  intro draft place production children kept position correct present leaves
  have found := correct.found
  have genuine := genuine_children present
  cases leaves with
  | outward _ listed =>
      rcases List.mem_map.mp listed with ⟨rule, ruleListed, rfl⟩
      exact presents_rule admissible made (List.mem_map_of_mem ruleListed) position _
  | start owner ownerPlace index symbol least most groups body front ownerDrafted helperOf repeats _
      counts =>
      refine presents_helper admissible made ownerDrafted helperOf genuine (fun fits => ?_) position
      have operatorWrites := writes_operator ownerDrafted helperOf
      rcases counts (fits symbol operatorWrites) with ⟨within, rfl⟩
      have writes := writes_repeated operatorWrites repeats groups
      have copies := matches_children fits made correct.drafted found List.drop_zero writes
        correct.names present
      refine ⟨_, .of_within repeats within, copies, ?_⟩
      intro otherLeast otherMost otherBody otherRepeats
      cases repeats.symm.trans otherRepeats
      exact ⟨within.1, rfl⟩
  | grow owner ownerPlace index symbol least most body first others collection ownerDrafted helperOf
      repeats split held within =>
      subst split
      have names := correct.names
      rw [List.map_cons, plainNames, List.cons.injEq] at names
      rcases (present first List.mem_cons_self).collected owner draft ownerPlace index symbol
        ownerDrafted helperOf names.1 with ⟨known, holds, gathered⟩
      cases held.symm.trans holds
      rw [List.flatMap_cons, Entry.offered_of_some held] at genuine
      refine presents_helper admissible made ownerDrafted helperOf genuine (fun fits => ?_) position
      rcases gathered fits with ⟨unfolded, _, before, counts⟩
      rcases counts least most body repeats with ⟨enough, rfl⟩
      have writes := writes_body (writes_operator ownerDrafted helperOf) repeats
      have inside : (Symbol.name draft.name :: body).drop 1 = body := rfl
      have last := matches_children fits made correct.drafted found inside writes names.2
        fun child member => present child (List.mem_cons_of_mem _ member)
      have all := before.append last
      rw [← repeated_succ, ← List.map_append] at all
      have within : Within least most (collection.groups + 1) := ⟨Nat.le_succ_of_le enough, within⟩
      refine ⟨_, .of_within repeats within, all, ?_⟩
      intro otherLeast otherMost otherBody otherRepeats
      cases repeats.symm.trans otherRepeats
      exact ⟨within.1, rfl⟩
  | anew most body first others groups isHelper split missing =>
      subst split
      have names := correct.names
      rw [List.map_cons, plainNames, List.cons.injEq] at names
      rcases operator_of_helper correct.drafted isHelper with
        ⟨owner, ownerPlace, index, symbol, ownerDrafted, helperOf⟩
      rcases (present first List.mem_cons_self).collected owner draft ownerPlace index symbol
        ownerDrafted helperOf names.1 with ⟨known, held, _⟩
      rw [missing] at held
      cases held
  | branch owner ownerPlace index branches branch ownerDrafted helperOf member =>
      refine presents_helper admissible made ownerDrafted helperOf genuine (fun fits => ?_) position
      have writes := writes_branch (writes_operator ownerDrafted helperOf) member
      have chosen := matches_children fits made correct.drafted found List.drop_zero writes
        correct.names present
      refine ⟨branch, .branch branches branch member, chosen, ?_⟩
      intro least most body repeats
      cases repeats

/-- What a reduction reports has the shape of its production. -/
theorem reports_of_call (admissible : grammar.Admissible) (made : grammar.toPlain = .ok plain)
    {draft : Draft} {place : Nat} {production : Production} {children : List Entry}
    (correct : draft.Children grammar place production children)
    (present : forall child, child ∈ children -> grammar.Presents child) {call : Call}
    (called : draft.callOf production children = some call) {read : List Token}
    (source : (children.flatMap Entry.word).Sublist read) :
    Exists fun rule => grammar.Reports read call rule production := by
  have genuine := genuine_children present
  have helperless : forall token, token ∈ children.flatMap Entry.offered ->
      ¬ grammar.IsHelper token.name := by
    rintro token member ⟨helper, drafted, isHelper, name⟩
    have isRule := (genuine.rules token member (name ▸ mem_allRuleNames made drafted)).1
    exact admissible.helpersApart.helper_apart made drafted isHelper
      (name ▸ List.mem_append_left _ isRule)
  have synthetic : forall token, token ∈ children.flatMap Entry.offered ->
      token.name ∈ grammar.ruleNames -> token.isSynthetic = true := fun token member isRule =>
    (genuine.rules token member (mem_allRuleNames_of_ruleNames made isRule)).2
  have listed := List.mem_of_getElem? correct.found
  have effects : (production.emit = .report ∧
      call = ⟨.parse, production.label.getD draft.name, children.flatMap Entry.offered⟩) ∨
      Exists fun identity => production.emit = .callback identity ∧ call =
        ⟨.callback identity, production.label.getD draft.name, children.flatMap Entry.offered⟩ := by
    unfold callOf at called
    split at called
    next report => exact Or.inl ⟨report, (Option.some.inj called).symm⟩
    next identity callback => exact Or.inr ⟨identity, callback, (Option.some.inj called).symm⟩
    · cases called
  cases correct.drafted with
  | listed draft member =>
      rcases List.mem_map.mp member with ⟨rule, ruleListed, rfl⟩
      have writes := (writes_of_drafted correct.drafted listed).resolve_right
        fun own => Bool.false_ne_true own.1
      have shape := fun fits => matches_children fits made correct.drafted correct.found
        List.drop_zero writes correct.names present
      refine ⟨rule, ?_⟩
      rcases effects with ⟨report, rfl⟩ | ⟨identity, callback, rfl⟩
      · exact ⟨ruleListed, listed, Or.inl ⟨report, rfl⟩, rfl, shape, synthetic,
          genuine.others.trans source, helperless⟩
      · exact ⟨ruleListed, listed, Or.inr ⟨identity, callback, rfl⟩, rfl, shape, synthetic,
          genuine.others.trans source, helperless⟩
  | helper owner draft at_ index symbol ownerDrafted helperOf =>
      have kinds := (expand_spec helperOf.operator helperOf.expanded).1 production listed
      rcases effects with ⟨report, _⟩ | ⟨identity, callback, _⟩
      · cases kinds <;> cases report
      · cases kinds <;> cases callback

end Grammar

/-! ## Calls of a run -/

/-- The tokens among answers. -/
def tokensAmong (answers : List Answer) : List Token :=
  answers.filterMap fun answer => answer.toOption.join

variable {σ : Type} {setting : Setting σ} {grammar : Grammar} {plain : PlainGrammar}
  {means : Entry -> Prop} {heard : List Answer} {machine : Machine σ} {entries : List Entry}

/-- A reduction makes at most the call of its rule. -/
theorem calls_reduce (rule : ReduceRule) (waiting : Option Token) {call : Call}
    (member : call ∈ (setting.reduce machine rule waiting).machine.calls) :
    call ∈ machine.calls ∨ Exists fun popped => Exists fun stack => Exists fun collections =>
      Frame.pop rule.symbols machine.stack = .ok (popped, stack) ∧
      rule.reduce popped machine.collections = .ok (collections, some call) := by
  unfold Setting.reduce at member
  split at member
  · exact Or.inl member
  next popped stack pops =>
    split at member
    · exact Or.inl member
    next collections made reduced =>
      have listed : call ∈ made.toList ++ machine.calls := by
        dsimp only at member
        split at member
        · exact member
        · split at member <;> exact member
      rcases List.mem_append.mp listed with new | before
      · rw [Option.mem_toList] at new
        rw [new] at reduced
        exact Or.inr ⟨popped, stack, collections, pops, reduced⟩
      · exact Or.inl before

/-- The call is that of a production whose children are the latest entries. -/
def Latest (grammar : Grammar) (entries : List Entry) (call : Call) : Prop :=
  Exists fun draft => Exists fun place => Exists fun production => Exists fun children =>
    Exists fun rest => entries = children.reverse ++ rest ∧
      Draft.Children grammar draft place production children ∧
      Draft.callOf draft production children = some call

theorem Standing.called_reduce (grounded : Grounded grammar plain setting.table)
    (standing : Standing setting grammar plain means heard machine entries)
    {waiting : Option Token} (ready : machine.lookahead = .ready waiting) {row : TableState}
    (found : setting.table.states[machine.state]? = some row) {name : String} {index : Nat}
    (claimed : row.reduce.get? name = some index) {rule : ReduceRule}
    (atIndex : row.rules[index]? = some rule) {call : Call}
    (member : call ∈ (setting.reduce machine rule waiting).machine.calls) :
    call ∈ machine.calls ∨ Latest grammar entries call := by
  rcases calls_reduce rule waiting member with before | ⟨popped, stack, collections, pops, made⟩
  · exact Or.inl before
  · rcases standing.due grounded ready found claimed with
      ⟨draft, place, production, children, rest, below, sameIndex, split, poised, results⟩
    refine Or.inr ⟨draft, place, production, children, rest, split, poised.correct, ?_⟩
    rw [Option.some.inj (atIndex.symm.trans sameIndex)] at pops made
    rw [poised.pop, Except.ok.injEq, Prod.mk.injEq] at pops
    rw [standing.collections, split, Entry.heldBy_append, ← pops.1] at made
    rcases results with ⟨kept, _, reduced⟩ | ⟨owner, most, token, _, refused⟩
    · rw [reduced, Except.ok.injEq, Prod.mk.injEq] at made
      exact made.2
    · rw [refused] at made
      cases made

/-- A call of a step was there before, or it is that of the production that the step reduces. -/
theorem Standing.called (grounded : Grounded grammar plain setting.table)
    (standing : Standing setting grammar plain means heard machine entries) {call : Call}
    (member : call ∈ (setting.step machine).machine.calls) :
    call ∈ machine.calls ∨ Latest grammar entries call := by
  have steps := setting.steps_step machine
  generalize setting.step machine = progress at steps member
  cases steps with
  | reduced row waiting name index rule found ready claimed named =>
      exact standing.called_reduce grounded ready found claimed named member
  | _ => exact Or.inl member

/-- What a machine stands for has been read. -/
theorem Standing.word_sublist
    (standing : Standing setting grammar plain means heard machine entries) :
    (Entry.wordOf entries).Sublist (tokensAmong heard) := by
  rcases standing.heard with ⟨tokens, answers, word⟩
  have read : tokensAmong heard = tokens := by
    rw [answers, tokensAmong, List.filterMap_append, List.filterMap_map]
    have each : (fun answer : Answer => answer.toOption.join) ∘
        (fun token => .ok (some token)) = some := rfl
    rw [each, List.filterMap_some]
    split <;> simp [Except.toOption]
  have front := List.sublist_append_left (Entry.wordOf entries) machine.lookahead.waiting.join.toList
  rw [← word] at front
  rw [read]
  exact front.trans List.filter_sublist

/-- The call has the shape of some production. -/
def Told (grammar : Grammar) (read : List Token) (call : Call) : Prop :=
  Exists fun rule => Exists fun production => grammar.Reports read call rule production

theorem Told.mono {read more : List Token} {call : Call} (told : Told grammar read call)
    (sublist : read.Sublist more) : Told grammar more call := by
  rcases told with ⟨rule, production, reports⟩
  exact ⟨rule, production, { reports with source := reports.source.trans sublist }⟩

/-- A step makes no call that has not the shape of a production. -/
theorem Standing.told (prepared : Prepared grammar plain setting.table)
    (standing : Standing setting grammar plain grammar.Presents heard machine entries)
    (before : forall call, call ∈ machine.calls -> Told grammar (tokensAmong heard) call) {call : Call}
    (member : call ∈ (setting.step machine).machine.calls) :
    Told grammar (tokensAmong heard) call := by
  rcases standing.called prepared.grounded member with
    old | ⟨draft, place, production, children, rest, rfl, correct, called⟩
  · exact before call old
  · have present : forall child, child ∈ children -> grammar.Presents child := fun child inside =>
      standing.meaning child (List.mem_append_left _ (List.mem_reverse.mpr inside))
    have words := standing.word_sublist
    rw [Entry.wordOf_append] at words
    have source := (List.sublist_append_right _ (children.flatMap Entry.word)).trans words
    rcases Grammar.reports_of_call prepared.admissible prepared.made correct present called source
      with ⟨rule, reports⟩
    exact ⟨rule, production, reports⟩

/-- So does a whole run. -/
theorem Standing.told_run (prepared : Prepared grammar plain setting.table) (limit : Nat)
    (standing : Standing setting grammar plain grammar.Presents heard machine entries)
    (offers : forall token, .ok (some token) ∈ setting.answers limit machine ->
      token.isSynthetic = false ∧ grammar.Presents (.leaf token))
    (before : forall call, call ∈ machine.calls -> Told grammar (tokensAmong heard) call) {call : Call}
    (member : call ∈ (setting.run limit machine).2.calls) :
    Told grammar (tokensAmong (heard ++ setting.answers limit machine)) call := by
  induction limit generalizing heard machine entries with
  | zero =>
      rw [Setting.answers, List.append_nil]
      exact before call member
  | succ limit inductionHypothesis =>
      rw [Setting.answers] at offers ⊢
      rw [Setting.run] at member
      have advances := standing.step prepared.grounded
        (Grammar.explains_presents prepared.admissible prepared.made) fun token asked _ =>
          offers token (List.mem_append_left _ (by rw [asked]; exact List.mem_singleton_self _))
      have stepTold : forall call, call ∈ (setting.step machine).machine.calls ->
          Told grammar (tokensAmong heard) call := fun _ => standing.told prepared before
      cases result : setting.step machine with
      | running next =>
          rw [result] at advances offers member stepTold
          dsimp only at offers member ⊢
          rw [← List.append_assoc]
          cases advances with
          | running _ entries after =>
              apply inductionHypothesis after
              · exact fun token inside => offers token (List.mem_append_right _ inside)
              · intro earlier inside
                refine (stepTold earlier inside).mono ?_
                rw [tokensAmong, tokensAmong, List.filterMap_append]
                exact List.sublist_append_left _ _
              · exact member
      | ended outcome last =>
          rw [result] at member stepTold
          dsimp only at member ⊢
          refine (stepTold call member).mono ?_
          rw [List.append_nil, tokensAmong, tokensAmong, List.filterMap_append]
          exact List.sublist_append_left _ _

namespace Setting

/-- Every call that a run has made, whatever becomes of the run, is the report of a production.  The
tokens of the source have to be such that none can be mistaken for a reduced rule, and the tokens of a
call match the production if nothing is lost in a floor. -/
theorem reports_of_run (admissible : grammar.Admissible)
    (compiled : grammar.compile = .ok setting.table) (state : σ) (limit : Nat)
    (terminals : forall token, .ok (some token) ∈ setting.answers limit (.start state) ->
      token.text.isSome = true ∧ token.name ∉ grammar.allRuleNames) (call : Call)
    (member : call ∈ (setting.run limit (.start state)).2.calls) :
    Exists fun rule => Exists fun production =>
      grammar.Reports (tokensAmong (setting.answers limit (.start state))) call rule production := by
  rcases prepared_of_compile admissible compiled with ⟨plain, prepared, _⟩
  have begun : Standing setting grammar plain grammar.Presents [] (.start state) [] :=
    standing_start state
  have told := begun.told_run prepared limit (fun token asked => by
    rcases terminals token asked with ⟨text, outside⟩
    exact ⟨Token.real_of_text text, Grammar.presents_token prepared.made outside⟩)
    (fun _ impossible => (List.not_mem_nil impossible).elim) member
  rwa [List.nil_append] at told

/-- The run over two items reports them as a list. -/
theorem reports_of_run_oneOrTwo :
    Exists fun call => call ∈ (Setting.oneOrTwo.run 20 (.start .twoItems)).2.calls ∧
      call.tokens.map Token.name = ["item", "item"] ∧
      Exists fun rule => Exists fun production =>
        Grammar.oneOrTwo.Reports (tokensAmong (Setting.oneOrTwo.answers 20 (.start .twoItems))) call
          rule production := by
  have made : (Setting.oneOrTwo.run 20 (.start .twoItems)).2.calls =
      [⟨.parse, "list", [⟨"item", some "a", default⟩, ⟨"item", some "b", default⟩]⟩] := by
    decide +kernel
  have member : Call.mk .parse "list" [⟨"item", some "a", default⟩, ⟨"item", some "b", default⟩] ∈
      (Setting.oneOrTwo.run 20 (.start .twoItems)).2.calls := by
    rw [made]
    exact List.mem_singleton_self _
  exact ⟨_, member, rfl, reports_of_run Grammar.admissible_oneOrTwo compiled_oneOrTwo .twoItems 20
    terminals_oneOrTwo _ member⟩

/-- Two calls match no production: one has a token that was taken for a helper, and one lacks the copies
that a repetition has to start with. -/
theorem calls_without_match :
    (Grammar.repetitionFirst.Admissible ∧
      (forall token, token ∈ TokenList.helperNamed.tokens ->
        token.text.isSome = true ∧ token.name ∉ Grammar.repetitionFirst.ruleNames) ∧
      Grammar.repetitionFirst.compile = .ok repetitionFirst.table ∧
      Exists fun call => call ∈ (repetitionFirst.run 20 (.start .helperNamed)).2.calls ∧
        forall rule, rule ∈ Grammar.repetitionFirst.rules ->
          forall production, production ∈ rule.productions ->
            ¬ Symbol.Matches production.symbols (call.tokens.map Token.name)) ∧
    (Grammar.emptyFloor 0).Admissible ∧
      (Grammar.emptyFloor 0).compile = .ok (ofGrammar (.emptyFloor 0)).table ∧
      Exists fun call => call ∈ ((ofGrammar (.emptyFloor 0)).run 20 (.start .nothing)).2.calls ∧
        forall rule, rule ∈ (Grammar.emptyFloor 0).rules ->
          forall production, production ∈ rule.productions ->
            ¬ Symbol.Matches production.symbols (call.tokens.map Token.name) := by
  refine ⟨⟨Grammar.admissible_repetitionFirst, by decide, compiled_repetitionFirst,
    ⟨.parse, "S", [⟨"a", some "a", default⟩, ⟨"S#0#1", some "x", default⟩]⟩, by decide +kernel, ?_⟩,
    Grammar.admissible_emptyFloor 0, compiled_emptyFloor, ⟨.parse, "A", []⟩, by decide +kernel, ?_⟩
  · intro rule listed production chosen matched
    rcases matched.written "S#0#1" (by decide) with ⟨symbol, inside, contains⟩
    have written := Grammar.mem_names_of_writes ⟨rule, production, symbol, listed, chosen, inside,
      contains⟩
    exact absurd written (by decide)
  · intro rule listed production chosen matched
    rw [List.mem_singleton.mp listed] at chosen
    rw [List.mem_singleton.mp chosen] at matched
    generalize none : (Call.tokens _).map Token.name = names at matched
    cases matched with
    | operator _ unfolded _ front back unfolds body _ =>
        cases unfolds with
        | bounded _ _ _ count enough _ =>
            cases count with
            | zero => exact absurd enough (by decide)
            | succ others =>
                have first := body.head_of_name
                rw [(List.append_eq_nil_iff.mp none.symm).1] at first
                cases first

end Setting

end ShiftReduce
