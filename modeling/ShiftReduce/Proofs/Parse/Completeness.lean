import ShiftReduce.Proofs.Grammar.Language
import ShiftReduce.Proofs.Parse.Realization
import ShiftReduce.Proofs.Parse.Safety

namespace ShiftReduce

/-!
# Every sentence is accepted

A derivation in the language of the grammar tells which names a run can be led to.  A rule is realized
by its production, a choice by the production of its branch, and a repetition by the production that
it starts with and as many growths as there are further copies of its body.  A helper is built with
exactly as many groups as its operator unfolds to, and so each reduction that grows it stays below the
upper bound.

A symbol is realized wherever it is written, since the name of its helper depends on the place.
-/

variable {σ : Type} {setting : Setting σ} {grammar : Grammar} {plain : PlainGrammar}

namespace Draft

/-! ## What reductions leave -/

theorem reduces_outward (admissible : grammar.Admissible) (made : grammar.toPlain = .ok plain)
    {draft : Draft} (listed : draft ∈ grammar.drafts) (place : Nat) (production : Production)
    (counts : List (Option Nat)) : Reduces grammar draft place production counts none := by
  intro children below correct _ belowHelpers
  exact ⟨none, .outward production listed, rfl,
    reduce_outward admissible.helpersApart admissible.emitsOutward made correct listed belowHelpers⟩

variable {owner draft : Draft} {ownerPlace index : Nat} {symbol : Symbol}

theorem reduces_start (admissible : grammar.Admissible) (made : grammar.toPlain = .ok plain)
    (ownerDrafted : Drafted grammar.drafts owner)
    (helperOf : owner.HelperOf ownerPlace index symbol draft) {least most count : Nat}
    {body : List Symbol} (repeats : repetition? symbol = some (least, most, body))
    (notEmpty : body ≠ []) (within : Within least most count) (place : Nat)
    (counts : List (Option Nat)) :
    Reduces grammar draft place
      { symbols := repeated count body, emit := .repetition draft.name most body.length } counts
      (some count) := by
  intro children below correct _ belowHelpers
  have writes := Grammar.writes_repeated (Grammar.writes_operator ownerDrafted helperOf) repeats count
  have reduced := reduce_start admissible.helpersApart made correct helperOf.isHelper notEmpty writes
    belowHelpers
  rw [length_repeated_div notEmpty] at reduced
  exact ⟨_, .start owner ownerPlace index symbol least most count body _ ownerDrafted helperOf repeats
    (fun _ => mem_of_mem_repeated) fun _ => ⟨within, rfl⟩, rfl, reduced⟩

/-- A repetition grows if it does not have all its groups yet. -/
theorem reduces_grow (admissible : grammar.Admissible) (made : grammar.toPlain = .ok plain)
    (ownerDrafted : Drafted grammar.drafts owner)
    (helperOf : owner.HelperOf ownerPlace index symbol draft) {least most count : Nat}
    {body : List Symbol} (repeats : repetition? symbol = some (least, most, body))
    (notEmpty : body ≠ []) (within : most = 0 ∨ count + 1 ≤ most) (place : Nat)
    (counts : List (Option Nat)) :
    Reduces grammar draft place
      { symbols := .name draft.name :: body, emit := .repetition draft.name most body.length }
      (some count :: counts) (some (count + 1)) := by
  intro children below correct groups belowHelpers
  cases children with
  | nil => cases groups
  | cons first others =>
      rw [List.map_cons, List.cons.injEq] at groups
      have writes := Grammar.writes_body (Grammar.writes_operator ownerDrafted helperOf) repeats
      have grown := reduce_grow admissible.helpersApart made correct helperOf.isHelper notEmpty
        writes belowHelpers
      have firstGroups : first.collection.map Collection.groups = some count := groups.1
      generalize reduced : (draft.ruleOf place _).reduce _ _ = result at grown ⊢
      cases grown with
      | more collection held _ =>
          rw [held, Option.map_some, Option.some.injEq] at firstGroups
          refine ⟨_, .grow owner ownerPlace index symbol least most body first others collection
            ownerDrafted helperOf repeats rfl held ?_, ?_, rfl⟩
          · rw [firstGroups]
            exact within
          · rw [Option.map_some, firstGroups]
      | exceeded collection held limited beyond =>
          rw [held, Option.map_some, Option.some.injEq] at firstGroups
          omega
      | anew size missing =>
          rw [missing] at firstGroups
          cases firstGroups

theorem reduces_branch (admissible : grammar.Admissible) (made : grammar.toPlain = .ok plain)
    (ownerDrafted : Drafted grammar.drafts owner) {branches : List (List Symbol)}
    (helperOf : owner.HelperOf ownerPlace index (.alternation branches) draft)
    {branch : List Symbol} (member : branch ∈ branches) (place : Nat)
    (counts : List (Option Nat)) :
    Reduces grammar draft place { symbols := branch, emit := .choice draft.name } counts
      (some 1) := by
  intro children below correct _ belowHelpers
  have writes := Grammar.writes_branch (Grammar.writes_operator ownerDrafted helperOf) member
  exact ⟨_, .branch owner ownerPlace index branches branch ownerDrafted helperOf member, rfl,
    reduce_branch admissible.helpersApart made correct helperOf.isHelper writes belowHelpers⟩

end Draft

namespace Grammar

open Draft

/-! ## Symbols wherever they are written -/

/-- The name that stands for the symbol is realized at every place where the symbol is written. -/
def Realizable (setting : Setting σ) (grammar : Grammar) (plain : PlainGrammar) (symbol : Symbol)
    (word : List String) : Prop :=
  forall (owner : Draft) (place index : Nat) (production : Production),
    Drafted grammar.drafts owner -> owner.productions[place]? = some production ->
    production.symbols[index]? = some symbol -> grammar.Writes symbol ->
    Exists fun groups =>
      Realized setting grammar plain (plainName owner.name place index symbol) groups word

/-- Symbols that are realizable, each with its part of a word. -/
inductive EachRealizable (setting : Setting σ) (grammar : Grammar) (plain : PlainGrammar) :
    List Symbol -> List String -> Prop where
  | nil : EachRealizable setting grammar plain [] []
  | cons (symbol : Symbol) (word : List String) (symbols : List Symbol) (rest : List String)
      (first : Realizable setting grammar plain symbol word)
      (later : EachRealizable setting grammar plain symbols rest) :
      EachRealizable setting grammar plain (symbol :: symbols) (word ++ rest)

theorem EachRealizable.split {left right : List Symbol} {word : List String}
    (each : EachRealizable setting grammar plain (left ++ right) word) :
    Exists fun front => Exists fun back => word = front ++ back ∧
      EachRealizable setting grammar plain left front ∧
      EachRealizable setting grammar plain right back := by
  induction left generalizing word with
  | nil => exact ⟨[], word, rfl, .nil, each⟩
  | cons symbol rest inductionHypothesis =>
      cases each with
      | cons _ first _ others realizable later =>
          rcases inductionHypothesis later with ⟨front, back, rfl, eachLeft, eachRight⟩
          refine ⟨first ++ front, back, (List.append_assoc first front back).symm, ?_, eachRight⟩
          exact .cons symbol first rest front realizable eachLeft

/-- The symbols of a production are realized by their names. -/
theorem EachRealizable.realizedAll {symbols : List Symbol} {word : List String}
    (each : EachRealizable setting grammar plain symbols word) {owner : Draft}
    (drafted : Drafted grammar.drafts owner) {place start : Nat} {production : Production}
    (found : owner.productions[place]? = some production)
    (inside : production.symbols.drop start = symbols)
    (writes : forall symbol, symbol ∈ symbols -> grammar.Writes symbol) :
    Exists fun counts => RealizedAll setting grammar plain
      (plainNames owner.name place start symbols) counts word := by
  induction each generalizing start with
  | nil => exact ⟨[], .nil⟩
  | cons symbol word symbols rest first later inductionHypothesis =>
      have atStart : production.symbols[start]? = some symbol := by
        rw [← List.head?_drop, inside]
        rfl
      have after : production.symbols.drop (start + 1) = symbols := by
        rw [← List.tail_drop, inside]
        rfl
      rcases first owner place start production drafted found atStart
        (writes symbol List.mem_cons_self) with ⟨groups, realized⟩
      rcases inductionHypothesis after
        (fun other member => writes other (List.mem_cons_of_mem _ member)) with ⟨counts, all⟩
      exact ⟨groups :: counts, .cons _ groups word _ counts rest realized all⟩

/-- A repetition is realized with as many groups as there are copies of its body. -/
theorem realized_repetition (prepared : Prepared grammar plain setting.table)
    (decides : Decides plain setting.table plain.kernels) {owner draft : Draft}
    (ownerDrafted : Drafted grammar.drafts owner) {place index : Nat} {symbol : Symbol}
    (helperOf : owner.HelperOf place index symbol draft) (fits : FloorFits symbol)
    {least most count : Nat} {body : List Symbol}
    (repeats : repetition? symbol = some (least, most, body)) (within : Within least most count) {word : List String}
    (each : EachRealizable setting grammar plain (repeated count body) word) :
    Realized setting grammar plain draft.name (some count) word := by
  have drafted : Drafted grammar.drafts draft := .helper _ _ _ _ _ ownerDrafted helperOf
  have writes := writes_operator ownerDrafted helperOf
  have enough := (expand_spec helperOf.operator helperOf.expanded).2
  rw [← helperOf.name] at enough
  have notEmpty := enough.notEmpty least most body repeats
  rcases enough.counts fits least most body repeats count within.1 (Or.inl within) with
    ⟨first, firstWithin, small, start, grow⟩
  -- The repetition starts with `first` copies and grows from there.
  induction count, small using Nat.le_induction generalizing word with
  | base =>
      rcases List.getElem?_of_mem start with ⟨number, found⟩
      rcases each.realizedAll drafted found List.drop_zero (writes_repeated writes repeats first) with
        ⟨counts, all⟩
      exact .production prepared decides drafted found all
        (reduces_start prepared.admissible prepared.made ownerDrafted helperOf repeats notEmpty
          firstWithin number counts)
  | succ count more inductionHypothesis =>
      have fewer : Within least most count :=
        ⟨Nat.le_trans firstWithin.1 more, within.2.imp_right Nat.le_of_succ_le⟩
      rw [repeated_succ] at each
      rcases each.split with ⟨front, back, rfl, eachFront, eachBack⟩
      have growing := grow (Nat.lt_succ_of_le more)
      have before := inductionHypothesis fewer eachFront fun _ => growing
      rcases List.getElem?_of_mem growing with ⟨number, found⟩
      have inside : (Symbol.name draft.name :: body).drop 1 = body := rfl
      rcases eachBack.realizedAll drafted found inside (writes_body writes repeats) with
        ⟨counts, all⟩
      exact .production prepared decides drafted found
        (.cons draft.name (some count) front _ counts back before all)
        (reduces_grow prepared.admissible prepared.made ownerDrafted helperOf repeats notEmpty
          within.2 number counts)

/-- A choice is realized by a branch. -/
theorem realized_branch (prepared : Prepared grammar plain setting.table)
    (decides : Decides plain setting.table plain.kernels) {owner draft : Draft}
    (ownerDrafted : Drafted grammar.drafts owner) {place index : Nat}
    {branches : List (List Symbol)}
    (helperOf : owner.HelperOf place index (.alternation branches) draft) {branch : List Symbol}
    (member : branch ∈ branches) {word : List String}
    (each : EachRealizable setting grammar plain branch word) :
    Realized setting grammar plain draft.name (some 1) word := by
  have drafted : Drafted grammar.drafts draft := .helper _ _ _ _ _ ownerDrafted helperOf
  have writes := writes_branch (writes_operator ownerDrafted helperOf) member
  have enough := (expand_spec helperOf.operator helperOf.expanded).2
  rw [← helperOf.name] at enough
  rcases List.getElem?_of_mem (enough.branches branches rfl branch member) with ⟨number, found⟩
  rcases each.realizedAll drafted found List.drop_zero writes with ⟨counts, all⟩
  exact .production prepared decides drafted found all
    (reduces_branch prepared.admissible prepared.made ownerDrafted helperOf member number counts)

theorem realizable_of_unfolds (prepared : Prepared grammar plain setting.table)
    (decides : Decides plain setting.table plain.kernels) (fits : grammar.FloorsFit) {symbol : Symbol}
    {unfolded : List Symbol} (unfolds : symbol.Unfolds unfolded) {word : List String}
    (each : EachRealizable setting grammar plain unfolded word) :
    Realizable setting grammar plain symbol word := by
  intro owner place index production drafted found inside _
  have operator := Symbol.asName?_of_unfolds unfolds
  rcases (toPlain_eq prepared.made).2.1 owner drafted place index production symbol found inside
    operator with ⟨draft, helperOf⟩
  rw [plainName_operator operator, ← helperOf.name]
  rcases unfolds.cases with ⟨least, most, body, count, repeats, within, rfl⟩ | ⟨branches, rfl, member⟩
  · have symbolFits := fits symbol (writes_operator drafted helperOf)
    exact ⟨_, realized_repetition prepared decides drafted helperOf symbolFits repeats within each⟩
  · exact ⟨_, realized_branch prepared decides drafted helperOf member each⟩

theorem realizable_of_terminal (prepared : Prepared grammar plain setting.table) {name : String}
    (terminal : name ∉ grammar.ruleNames) :
    Realizable setting grammar plain (.name name) [name] := by
  intro owner place index production _ _ _ writes
  exact ⟨none, .token prepared
    (not_nonterminal prepared.admissible.helpersApart prepared.made terminal
      (mem_names_of_writes writes))⟩

theorem realizedAll_of_rule {rule : Rule} (listed : rule ∈ grammar.rules) {production : Production}
    (chosen : production ∈ rule.productions) {word : List String}
    (each : EachRealizable setting grammar plain production.symbols word) :
    Exists fun place => Exists fun counts => rule.productions[place]? = some production ∧
      RealizedAll setting grammar plain (plainNames rule.name place 0 production.symbols) counts
        word := by
  rcases List.getElem?_of_mem chosen with ⟨place, found⟩
  have writes : forall symbol, symbol ∈ production.symbols -> grammar.Writes symbol :=
    fun symbol inside => ⟨rule, production, symbol, listed, chosen, inside, .refl symbol⟩
  rcases each.realizedAll (.listed _ (mem_drafts_of_rule listed)) found List.drop_zero writes with
    ⟨counts, all⟩
  exact ⟨place, counts, found, all⟩

/-- Symbols are realizable with the words that they derive. -/
theorem Derives.eachRealizable (prepared : Prepared grammar plain setting.table)
    (decides : Decides plain setting.table plain.kernels) (fits : grammar.FloorsFit)
    {symbols : List Symbol} {word : List String} (derives : grammar.Derives symbols word) :
    EachRealizable setting grammar plain symbols word := by
  induction derives with
  | nil => exact .nil
  | token name rest back terminal _ inductionHypothesis =>
      exact .cons (.name name) [name] rest back (realizable_of_terminal prepared terminal)
        inductionHypothesis
  | rule rule production rest front back listed chosen _ _ bodyHypothesis laterHypothesis =>
      refine .cons (.name rule.name) front rest back ?_ laterHypothesis
      intro owner place index other _ _ _ _
      rcases realizedAll_of_rule listed chosen bodyHypothesis with ⟨number, counts, found, all⟩
      have inDrafts := mem_drafts_of_rule listed
      exact ⟨none, .production prepared decides (.listed _ inDrafts) found all
        (reduces_outward prepared.admissible prepared.made inDrafts number production counts)⟩
  | operator symbol unfolded rest front back unfolds _ _ bodyHypothesis laterHypothesis =>
      exact .cons symbol front rest back
        (realizable_of_unfolds prepared decides fits unfolds bodyHypothesis) laterHypothesis

end Grammar

namespace Setting

/-- A machine that has not begun accepts if a sentence is ahead and no conflict was resolved. -/
theorem accepts_of_sentence (prepared : Prepared grammar plain setting.table)
    (decides : Decides plain setting.table plain.kernels) (fits : grammar.FloorsFit) {state : σ}
    {later : List Token}
    (feeds : setting.Feeds (.start state) later)
    (sentence : grammar.Sentence (later.map Token.name)) : setting.Accepts (.start state) := by
  rcases sentence.production with ⟨rule, production, listed, isRoot, chosen, derives⟩
  have root : rule.name = plain.root :=
    Option.some.inj (isRoot.symm.trans (Grammar.toPlain_eq prepared.made).2.2)
  have drafted := Draft.Drafted.listed _ (Grammar.mem_drafts_of_rule listed)
  rcases Grammar.realizedAll_of_rule listed chosen (derives.eachRealizable prepared decides fits)
    with ⟨place, counts, found, all⟩
  rcases List.getElem?_of_mem (Grammar.plain_of_draft prepared.made drafted found) with
    ⟨index, known⟩
  apply accepts_of_unread prepared (standing_start state) rfl feeds
  intro next ready stack
  rw [← List.append_nil later] at ready
  have attaches : plain.Attaches (namesOf next.stack) ⟨index, 0⟩ (aheadName []) := by
    rw [stack]
    exact .start index ⟨_, known, root⟩
  apply accepts_of_production prepared decides drafted found all
    (Draft.reduces_outward prepared.admissible prepared.made (Grammar.mem_drafts_of_rule listed) place
      production counts) known next [] _ [] rfl ready attaches
  intro last entry heard _ _ _ _ _ _ notDone
  refine (notDone ⟨rfl, stack, ?_⟩).elim
  rw [prepared.drives.root]
  exact root

/-- Every sentence is accepted: if no conflict was resolved, nothing is lost in a floor and the names of
the tokens that are not skipped are derived by the root, the run over these tokens comes to acceptance.
Whatever its preferences are, the source has to answer with these tokens, which have text, and then with
the end of the input. -/
theorem accepted_of_sentence (admissible : grammar.Admissible)
    (compiled : grammar.compile = .ok setting.table) (decided : setting.table.conflicts = [])
    (fits : grammar.FloorsFit) (state : σ) (tokens : List Token)
    (text : forall token, token ∈ tokens -> token.text.isSome = true)
    (answers : forall limit, setting.answers limit (.start state) <+:
      tokens.map (fun token => .ok (some token)) ++ [.ok none])
    (sentence : grammar.Sentence (setting.significant tokens)) :
    Exists fun limit => forall more,
      (setting.run (limit + more) (.start state)).1 = .accepted := by
  rcases prepared_of_compile admissible compiled with ⟨plain, prepared, decides⟩
  have real := fun token member => Token.real_of_text (text token member)
  have feeds : setting.Feeds (.start state)
      (tokens.filter fun token => token.name ∉ setting.skip) := ⟨tokens, real, rfl, answers⟩
  exact accepts_of_sentence prepared (decides decided) fits feeds sentence

/-- Two items with a blank between them are accepted, since two items are a list. -/
theorem accepted_of_sentence_oneOrTwo :
    Grammar.oneOrTwo.Sentence (Setting.oneOrTwo.significant TokenList.twoItems.tokens) ∧
    Exists fun limit => forall more,
      (Setting.oneOrTwo.run (limit + more) (.start .twoItems)).1 = .accepted := by
  have items : Grammar.oneOrTwo.Derives [.name "item", .name "item"] ["item", "item"] :=
    .token "item" _ _ (by decide) (.token "item" [] [] (by decide) .nil)
  have bounded : Grammar.oneOrTwo.Derives [.bounded 1 2 [.name "item"]] ["item", "item"] :=
    .operator _ _ [] ["item", "item"] [] (.bounded 1 2 _ 2 (by decide) (by decide)) items .nil
  have list : Grammar.oneOrTwo.Derives [.name "list"] ["item", "item"] :=
    .rule ⟨"list", [{ symbols := [.bounded 1 2 [.name "item"]] }]⟩ _ [] ["item", "item"] []
      List.mem_cons_self List.mem_cons_self bounded .nil
  have sentence : Grammar.oneOrTwo.Sentence
      (Setting.oneOrTwo.significant TokenList.twoItems.tokens) := ⟨"list", rfl, list⟩
  exact ⟨sentence, accepted_of_sentence Grammar.admissible_oneOrTwo compiled_oneOrTwo
    (by decide +kernel) (by decide) .twoItems TokenList.twoItems.tokens (by decide)
    (fun limit => TokenList.answers_prefix rfl limit rfl) sentence⟩

end Setting

/-- So many copies of two options that nothing is left of them in the floor. -/
def Grammar.emptyOptions : Grammar :=
  repeating halfWord halfWord [.optional [.name "b"], .optional [.name "b"]]

/-- All copies but one derive nothing. -/
theorem Grammar.sentence_emptyOptions : emptyOptions.Sentence ["b"] := by
  have name : emptyOptions.Derives [.name "b"] ["b"] := .token "b" [] [] (by decide) .nil
  have none : emptyOptions.Derives [.optional [.name "b"], .optional [.name "b"]] [] :=
    .operator _ _ _ [] [] (.absent _) .nil (.operator _ _ [] [] [] (.absent _) .nil .nil)
  have one : emptyOptions.Derives [.optional [.name "b"], .optional [.name "b"]] ["b"] :=
    .operator _ _ _ ["b"] [] (.present _) name (.operator _ _ [] [] [] (.absent _) .nil .nil)
  have others := none.copies (halfWord - 1)
  rw [List.flatten_replicate_nil] at others
  have all := one.append others
  rw [← List.flatten_cons, ← List.replicate_succ] at all
  have list := Derives.operator (.bounded halfWord halfWord _) _ [] ["b"] []
    (.bounded _ _ _ halfWord (Nat.le_refl _) fun _ => Nat.le_refl _) all .nil
  exact ⟨"A", rfl, .rule emptyOptions.rules.head! _ [] ["b"] [] List.mem_cons_self
    List.mem_cons_self list .nil⟩

/-- One name. -/
def TokenList.oneName : TokenList := ⟨[⟨"b", some "b", default⟩], default, none⟩

/-- A sentence is refused because the helper has no option left to read it with. -/
theorem Setting.refused_emptyOptions :
    Grammar.emptyOptions.Admissible ∧
    Grammar.emptyOptions.compile = .ok (ofGrammar .emptyOptions).table ∧
    (ofGrammar .emptyOptions).table.conflicts = [] ∧
    Grammar.emptyOptions.Sentence
      ((ofGrammar .emptyOptions).significant TokenList.oneName.tokens) ∧
    ((ofGrammar .emptyOptions).run 20 (.start .oneName)).1 =
      .stopped (.failed (.unexpectedToken "b" "b" default)) :=
  ⟨Grammar.admissible_of_reports (by decide) (by decide) (by decide),
    eq_ok_of_isOk (by decide +kernel), by decide +kernel, Grammar.sentence_emptyOptions,
    by decide +kernel⟩

end ShiftReduce
