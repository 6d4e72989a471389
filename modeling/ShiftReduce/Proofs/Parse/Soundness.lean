import ShiftReduce.Proofs.Grammar.PlainLanguage
import ShiftReduce.Proofs.Parse.Safety

namespace ShiftReduce

/-!
# What is accepted is a sentence

The entries of a parse are given a meaning in the language of the grammar.  A token of the source
stands for itself, a rule for a string that it derives, and a helper for a string that one of the
sequences derives to which its operator unfolds.  For a repetition this sequence has as many copies
of the body as the collection of the helper counts groups.  So the bounds are met at every moment,
although the table knows nothing of the upper one.

Reductions hand this meaning on, whatever lookahead made the table reduce.  Nothing is asked of the
conflicts of the grammar, since a table with resolved conflicts reduces less.
-/

namespace Grammar

open Draft

/-- What an entry stands for. -/
inductive Denotes (grammar : Grammar) : Entry -> Prop where
  | token (token : Token) (real : token.isSynthetic = false)
      (terminal : token.name ∉ grammar.allRuleNames) : Denotes grammar (.leaf token)
  | rule (entry : Entry) (rule : Rule) (listed : rule ∈ grammar.rules)
      (name : entry.token.name = rule.name)
      (derives : grammar.Derives [.name rule.name] (entry.word.map Token.name)) : Denotes grammar entry
  | helper (entry : Entry) (owner draft : Draft) (place index : Nat) (symbol : Symbol)
      (collection : Collection) (unfolded : List Symbol)
      (ownerDrafted : Drafted grammar.drafts owner)
      (helperOf : owner.HelperOf place index symbol draft)
      (name : entry.token.name = draft.name) (held : entry.collection = some collection)
      (unfolds : symbol.Unfolds unfolded)
      (derives : grammar.Derives unfolded (entry.word.map Token.name))
      (counts : forall least most body, repetition? symbol = some (least, most, body) ->
        least ≤ collection.groups ∧ unfolded = repeated collection.groups body) :
      Denotes grammar entry

variable {grammar : Grammar} {plain : PlainGrammar}

/-- An entry with the name of a helper stands for its operator and has a collection. -/
theorem denotes_helper (admissible : grammar.Admissible) (made : grammar.toPlain = .ok plain)
    {owner draft : Draft} (ownerDrafted : Drafted grammar.drafts owner) {place index : Nat}
    {symbol : Symbol} (helperOf : owner.HelperOf place index symbol draft) {entry : Entry}
    (denotes : grammar.Denotes entry) (name : entry.token.name = draft.name) :
    Exists fun collection => Exists fun unfolded => entry.collection = some collection ∧
      symbol.Unfolds unfolded ∧ grammar.Derives unfolded (entry.word.map Token.name) ∧
      forall least most body, repetition? symbol = some (least, most, body) ->
        least ≤ collection.groups ∧ unfolded = repeated collection.groups body := by
  have drafted : Drafted grammar.drafts draft := .helper _ _ _ _ _ ownerDrafted helperOf
  cases denotes with
  | token token real terminal =>
      have own : token.name = draft.name := name
      exact (terminal (own ▸ mem_allRuleNames made drafted)).elim
  | rule _ rule listed ruleName derives =>
      have member : rule.name ∈ grammar.names :=
        List.mem_append_left _ (List.mem_map_of_mem listed)
      rw [← ruleName, name] at member
      exact (admissible.helpersApart.helper_apart made drafted helperOf.isHelper member).elim
  | helper _ other helper otherPlace otherIndex operator collection unfolded otherDrafted otherOf
      helperName held unfolds derives counts =>
      have same := admissible.helpersApart.operator_unique made ownerDrafted otherDrafted helperOf otherOf
        (name.symm.trans helperName)
      subst same
      exact ⟨collection, unfolded, held, unfolds, derives, counts⟩

/-- An entry with a name that the author wrote stands for a string that the name derives. -/
theorem derives_of_name (admissible : grammar.Admissible) (made : grammar.toPlain = .ok plain)
    {entry : Entry} (denotes : grammar.Denotes entry) (written : entry.token.name ∈ grammar.names) :
    grammar.Derives [.name entry.token.name] (entry.word.map Token.name) := by
  cases denotes with
  | token token real terminal =>
      have outside := fun member => terminal (mem_allRuleNames_of_ruleNames made member)
      exact .token token.name [] [] outside .nil
  | rule _ rule listed ruleName derives =>
      rw [ruleName]
      exact derives
  | helper _ owner draft place index symbol collection unfolded ownerDrafted helperOf helperName =>
      rw [helperName] at written
      exact (admissible.helpersApart.helper_apart made (.helper _ _ _ _ _ ownerDrafted helperOf)
        helperOf.isHelper written).elim

/-- A child stands for a string that its symbol derives. -/
theorem derives_child (admissible : grammar.Admissible) (made : grammar.toPlain = .ok plain)
    {draft : Draft} (drafted : Drafted grammar.drafts draft) {place index : Nat}
    {production : Production} (found : draft.productions[place]? = some production)
    {symbol : Symbol} (inside : production.symbols[index]? = some symbol)
    (writes : grammar.Writes symbol) {child : Entry} (denotes : grammar.Denotes child)
    (name : child.token.name = plainName draft.name place index symbol) :
    grammar.Derives [symbol] (child.word.map Token.name) := by
  cases isName : symbol.asName? with
  | some word =>
      have same := eq_name_of_asName? isName
      subst same
      have isWord : child.token.name = word := name
      rw [← isWord] at writes ⊢
      exact derives_of_name admissible made denotes (mem_names_of_writes writes)
  | none =>
      rw [plainName_operator isName] at name
      rcases (toPlain_eq made).2.1 draft drafted place index production symbol found inside isName
        with ⟨own, ownOf⟩
      rw [← ownOf.name] at name
      rcases denotes_helper admissible made drafted ownOf denotes name with
        ⟨collection, unfolded, _, unfolds, derives, _⟩
      have all := Derives.operator symbol unfolded [] _ [] unfolds derives .nil
      rwa [List.append_nil] at all

/-- Children stand together for a string that their symbols derive. -/
theorem derives_children (admissible : grammar.Admissible) (made : grammar.toPlain = .ok plain)
    {draft : Draft} (drafted : Drafted grammar.drafts draft) {place start : Nat}
    {production : Production} (found : draft.productions[place]? = some production)
    {symbols : List Symbol} {children : List Entry}
    (inside : production.symbols.drop start = symbols)
    (writes : forall symbol, symbol ∈ symbols -> grammar.Writes symbol)
    (names : children.map (fun child => child.token.name) =
      plainNames draft.name place start symbols)
    (denote : forall child, child ∈ children -> grammar.Denotes child) :
    grammar.Derives symbols ((children.flatMap Entry.word).map Token.name) := by
  refine relates_children (fun symbols tokens => grammar.Derives symbols (tokens.map Token.name)) .nil
    ?_ draft place start production Entry.word inside names ?_
  · intro symbol rest front back first later
    rw [List.map_append]
    exact first.append later
  · intro index symbol child atIndex listed member name
    exact derives_child admissible made drafted found atIndex (writes symbol listed)
      (denote child member) name

/-- Reductions hand on what entries stand for. -/
theorem explains_denotes (fits : grammar.FloorsFit) (admissible : grammar.Admissible)
    (made : grammar.toPlain = .ok plain) : Explains grammar grammar.Denotes := by
  intro draft place production children kept position correct denote leaves
  have found := correct.found
  cases leaves with
  | outward _ listed =>
      rcases List.mem_map.mp listed with ⟨rule, ruleListed, rfl⟩
      have writes := (writes_of_drafted correct.drafted (List.mem_of_getElem? found)).resolve_right
        fun own => Bool.false_ne_true own.1
      have body := derives_children admissible made correct.drafted found List.drop_zero writes
        correct.names denote
      have all := Derives.rule rule production [] _ [] ruleListed (List.mem_of_getElem? found) body
        .nil
      rw [List.append_nil] at all
      exact .rule _ rule ruleListed rfl all
  | start owner ownerPlace index symbol least most count body front ownerDrafted helperOf repeats _
      counts =>
      rcases counts (fits symbol (writes_operator ownerDrafted helperOf)) with ⟨within, rfl⟩
      have writes := writes_repeated (writes_operator ownerDrafted helperOf) repeats count
      have copies := derives_children admissible made correct.drafted found List.drop_zero writes
        correct.names denote
      refine .helper _ owner draft ownerPlace index symbol _ _ ownerDrafted helperOf rfl rfl
        (.of_within repeats within) copies ?_
      intro otherLeast otherMost otherBody otherRepeats
      cases repeats.symm.trans otherRepeats
      exact ⟨within.1, rfl⟩
  | grow owner ownerPlace index symbol least most body first others collection ownerDrafted helperOf
      repeats split held within =>
      subst split
      have names := correct.names
      rw [List.map_cons, plainNames, List.cons.injEq] at names
      rcases denotes_helper admissible made ownerDrafted helperOf (denote first List.mem_cons_self)
        names.1 with ⟨known, unfolded, holds, _, derives, counts⟩
      cases held.symm.trans holds
      rcases counts least most body repeats with ⟨enough, rfl⟩
      have writes := writes_body (writes_operator ownerDrafted helperOf) repeats
      have inside : (Symbol.name draft.name :: body).drop 1 = body := rfl
      have last := derives_children admissible made correct.drafted found inside writes names.2
        fun child member => denote child (List.mem_cons_of_mem _ member)
      have within : Within least most (collection.groups + 1) := ⟨Nat.le_succ_of_le enough, within⟩
      have all := derives.append last
      rw [← repeated_succ, ← List.map_append, ← List.flatMap_cons] at all
      refine .helper _ owner draft ownerPlace index symbol _ _ ownerDrafted helperOf rfl rfl
        (.of_within repeats within) all ?_
      intro otherLeast otherMost otherBody otherRepeats
      cases repeats.symm.trans otherRepeats
      exact ⟨within.1, rfl⟩
  | anew most body first others groups isHelper split missing =>
      subst split
      have names := correct.names
      rw [List.map_cons, plainNames, List.cons.injEq] at names
      rcases operator_of_helper correct.drafted isHelper with
        ⟨owner, ownerPlace, index, symbol, ownerDrafted, helperOf⟩
      rcases denotes_helper admissible made ownerDrafted helperOf (denote first List.mem_cons_self)
        names.1 with ⟨known, unfolded, held, _⟩
      rw [missing] at held
      cases held
  | branch owner ownerPlace index branches branch ownerDrafted helperOf member =>
      have writes := writes_branch (writes_operator ownerDrafted helperOf) member
      have chosen := derives_children admissible made correct.drafted found List.drop_zero writes
        correct.names denote
      refine .helper _ owner draft ownerPlace index _ _ branch ownerDrafted helperOf rfl rfl
        (.branch branches branch member) chosen ?_
      intro least most body repeats
      cases repeats

end Grammar

namespace Setting

variable {σ : Type} {setting : Setting σ} {grammar : Grammar}

/-- Whatever a run accepts is a sentence: it has read the source to its end, and the names of the
tokens that are not skipped are derived by the root.  The tokens have to be such that none can be
mistaken for a reduced rule, so they have text, and no rule and no helper has the name of one.  And
nothing may be lost in a floor. -/
theorem sentence_of_accepted (admissible : grammar.Admissible)
    (compiled : grammar.compile = .ok setting.table) (fits : grammar.FloorsFit) (state : σ)
    (limit : Nat)
    (terminals : forall token, .ok (some token) ∈ setting.answers limit (.start state) ->
      token.text.isSome = true ∧ token.name ∉ grammar.allRuleNames)
    (accepted : (setting.run limit (.start state)).1 = .accepted) :
    Exists fun tokens : List Token =>
      setting.answers limit (.start state) =
        tokens.map (fun token => .ok (some token)) ++ [.ok none] ∧
      grammar.Sentence (setting.significant tokens) := by
  rcases prepared_of_compile admissible compiled with ⟨plain, prepared, _⟩
  have ends := (standing_start state).run prepared.grounded
    (Grammar.explains_denotes fits admissible prepared.made) limit fun token member _ => by
      rcases terminals token member with ⟨text, outside⟩
      have real := Token.real_of_text text
      exact ⟨real, .token token real outside⟩
  rw [List.nil_append, accepted] at ends
  cases ends with
  | accepted _ entry position root standing =>
      rcases standing.heard with ⟨tokens, answers, names⟩
      refine ⟨tokens, answers, plain.root, (Grammar.toPlain_eq prepared.made).2.2, ?_⟩
      have word : setting.significant tokens = entry.word.map Token.name := by
        rw [Entry.wordOf_cons] at names
        exact congrArg (List.map Token.name) (names.trans (List.append_nil _))
      rw [word]
      have named : entry.token.name = plain.root := by
        rw [root]
        rfl
      rw [← named]
      apply Grammar.derives_of_name admissible prepared.made
      · exact standing.meaning entry (List.mem_singleton_self _)
      · rw [named]
        exact Grammar.root_mem_names prepared.made

/-- Two items are a list, since they are accepted. -/
theorem sentence_of_accepted_oneOrTwo :
    (Setting.oneOrTwo.run 20 (.start .twoItems)).1 = .accepted ∧
    Exists fun tokens : List Token =>
      Setting.oneOrTwo.answers 20 (.start .twoItems) =
        tokens.map (fun token => .ok (some token)) ++ [.ok none] ∧
      Grammar.oneOrTwo.Sentence (Setting.oneOrTwo.significant tokens) := by
  have accepted : (Setting.oneOrTwo.run 20 (.start .twoItems)).1 = .accepted := by decide +kernel
  exact ⟨accepted, sentence_of_accepted Grammar.admissible_oneOrTwo compiled_oneOrTwo (by decide)
    .twoItems 20 terminals_oneOrTwo accepted⟩

/-- Two runs accept what is no sentence: one takes a token for a helper that has its name, and one lacks
the copies that a repetition has to start with. -/
theorem accepted_without_sentence :
    (Grammar.repetitionFirst.Admissible ∧
      (forall token, token ∈ TokenList.helperNamed.tokens ->
        token.text.isSome = true ∧ token.name ∉ Grammar.repetitionFirst.ruleNames) ∧
      Grammar.repetitionFirst.compile = .ok repetitionFirst.table ∧
      (repetitionFirst.run 20 (.start .helperNamed)).1 = .accepted ∧
      ¬ Grammar.repetitionFirst.Sentence ["a", "S#0#1"]) ∧
    (Grammar.emptyFloor 0).Admissible ∧
      (Grammar.emptyFloor 0).compile = .ok (ofGrammar (.emptyFloor 0)).table ∧
      ((ofGrammar (.emptyFloor 0)).run 20 (.start .nothing)).1 = .accepted ∧
      ¬ (Grammar.emptyFloor 0).Sentence [] := by
  refine ⟨⟨Grammar.admissible_repetitionFirst, by decide, compiled_repetitionFirst,
    by decide +kernel, ?_⟩, Grammar.admissible_emptyFloor 0, compiled_emptyFloor, by decide +kernel,
    ?_⟩
  · exact fun sentence => absurd (sentence.written "S#0#1" (by decide)) (by decide)
  · rintro ⟨root, isRoot, derives⟩
    cases isRoot
    exact Grammar.not_generates_emptyFloor 0 derives.generates

end Setting

end ShiftReduce
