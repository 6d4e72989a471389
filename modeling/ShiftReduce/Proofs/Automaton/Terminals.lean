import ShiftReduce.Proofs.Automaton.Exactness
import ShiftReduce.Proofs.Grammar.Origins
import ShiftReduce.Proofs.Grammar.PlainLanguage

namespace ShiftReduce

/-!
# The names without rules are the terminals

Two computations say which names of a grammar are tokens.  One goes over the rules as they are written,
level by level through nested operators, and keeps the names that no rule has.  The other numbers the
symbols of the plain grammar, in which bodies of operators have been copied into helpers, and a symbol
without productions is a terminal.

They agree for grammars whose rules all have productions and whose names are apart from those of
helpers.  Whatever is written stands directly in a production of some draft, however deep it is nested.
Conversely a name in a production of a draft is written, or it is that of a helper, which has a rule.
-/

namespace Draft

/-- A helper has a production. -/
theorem productions_ne_nil {owner helper : String} {symbol : Symbol} {productions : List Production}
    (operator : symbol.asName? = none)
    (expanded : expand owner helper symbol = .ok productions) : productions ≠ [] := by
  have covers := (expand_spec operator expanded).2
  have repeated : forall least most body, repetition? symbol = some (least, most, body) ->
      productions ≠ [] := by
    intro least most body repeats
    rcases covers.starts least most body repeats with ⟨_, _, start⟩
    exact List.ne_nil_of_mem start
  cases symbol with
  | name word => cases operator
  | repeat0 body | repeat1 body | optional body | bounded _ _ body => exact repeated _ _ body rfl
  | alternation branches =>
      have sound := not_malformed_of_expand expanded
      rcases List.exists_mem_of_ne_nil branches fun none => sound (Or.inl none) with
        ⟨branch, listed⟩
      exact List.ne_nil_of_mem (covers.branches branches rfl branch listed)

end Draft

namespace Grammar

open Draft

variable {grammar : Grammar} {plain : PlainGrammar}

/-! ## First mentions -/

/-- The names that a rule mentions are those that are written in it. -/
theorem mem_namesOfRule_iff {rule : Rule} {name : String} :
    name ∈ namesOfRule rule ↔ rule.Writes (.name name) := by
  constructor
  · intro member
    rcases List.mem_flatMap.mp member with ⟨production, listed, inProduction⟩
    rcases List.mem_flatMap.mp inProduction with ⟨outer, inside, inNames⟩
    exact ⟨production, outer, listed, inside, Symbol.mem_names_iff.mp inNames⟩
  · rintro ⟨production, outer, listed, inside, contains⟩
    exact List.mem_flatMap.mpr ⟨production, listed,
      List.mem_flatMap.mpr ⟨outer, inside, Symbol.mem_names_iff.mpr contains⟩⟩

/-- What is kept is the first pair of each name that has not been seen before. -/
theorem mem_firstMentions_iff {mentions : List (String × String)} {seen : List String}
    {rule name : String} :
    (rule, name) ∈ firstMentions mentions seen ↔
      name ∉ seen ∧ mentions.find? (fun mention => mention.2 == name) = some (rule, name) := by
  induction mentions generalizing seen with
  | nil => simp [firstMentions]
  | cons mention rest inductionHypothesis =>
      rcases mention with ⟨first, word⟩
      rw [firstMentions]
      by_cases same : word = name
      · subst same
        have found : List.find? (fun mention => mention.2 == word) ((first, word) :: rest) =
            some (first, word) := List.find?_cons_of_pos (beq_self_eq_true word)
        rw [found]
        by_cases known : word ∈ seen
        · rw [if_pos known, inductionHypothesis]
          exact ⟨fun kept => (kept.1 known).elim, fun kept => (kept.1 known).elim⟩
        · rw [if_neg known, List.mem_cons, inductionHypothesis]
          constructor
          · rintro (here | ⟨later, _⟩)
            · exact ⟨known, congrArg some here.symm⟩
            · exact (later List.mem_cons_self).elim
          · exact fun kept => Or.inl (Option.some.inj kept.2).symm
      · rw [List.find?_cons_of_neg (by simpa using same)]
        by_cases known : word ∈ seen
        · rw [if_pos known, inductionHypothesis]
        · have other : (rule, name) ≠ (first, word) := fun equal => same (congrArg Prod.snd equal).symm
          rw [if_neg known, List.mem_cons, or_iff_right other, inductionHypothesis, List.mem_cons,
            or_iff_right (Ne.symm same)]

theorem nodup_firstMentions (mentions : List (String × String)) (seen : List String) :
    ((firstMentions mentions seen).map Prod.snd).Nodup := by
  induction mentions generalizing seen with
  | nil => exact List.nodup_nil
  | cons mention rest inductionHypothesis =>
      rcases mention with ⟨first, word⟩
      rw [firstMentions]
      split
      · exact inductionHypothesis seen
      · refine List.nodup_cons.mpr ⟨fun member => ?_, inductionHypothesis (word :: seen)⟩
        rcases List.mem_map.mp member with ⟨⟨rule, name⟩, listed, rfl⟩
        exact (mem_firstMentions_iff.mp listed).1 List.mem_cons_self

/-- A rule of that name writes the name, and no rule before it does. -/
def FirstWrites (grammar : Grammar) (rule name : String) : Prop :=
  Exists fun before => Exists fun found => Exists fun after =>
    grammar.rules = before ++ found :: after ∧ found.name = rule ∧ found.Writes (.name name) ∧
      forall earlier, earlier ∈ before -> ¬ earlier.Writes (.name name)

theorem contains_iff {name : String} : grammar.contains name = true ↔ name ∈ grammar.ruleNames := by
  unfold contains get? ruleNames
  rw [List.find?_isSome, List.mem_map]
  exact exists_congr fun rule => and_congr_right fun _ => beq_iff_eq

private theorem find?_mentions (rule name : String) (words : List String) :
    ((words.map fun word => (rule, word)).find? fun mention => mention.2 == name) =
      if name ∈ words then some (rule, name) else none := by
  induction words with
  | nil => rfl
  | cons word rest inductionHypothesis =>
      by_cases same : word = name
      · rw [same, if_pos List.mem_cons_self]
        exact List.find?_cons_of_pos (beq_self_eq_true name)
      · rw [List.map_cons, List.find?_cons_of_neg (by simpa using same), inductionHypothesis]
        simp only [List.mem_cons, or_iff_right (Ne.symm same)]

/-- The first mention of a name is by the first rule that writes it. -/
private theorem find?_mentions_eq_some {rule name : String} :
    ((grammar.rules.flatMap fun rule => (namesOfRule rule).map fun name => (rule.name, name)).find?
      fun mention => mention.2 == name) = some (rule, name) ↔ grammar.FirstWrites rule name := by
  rw [List.find?_flatMap]
  simp only [find?_mentions]
  rw [List.findSome?_eq_some_iff]
  constructor
  · rintro ⟨before, found, after, split, here, earlier⟩
    have writes : name ∈ namesOfRule found := by
      by_contra missing
      rw [if_neg missing] at here
      cases here
    rw [if_pos writes] at here
    refine ⟨before, found, after, split, congrArg Prod.fst (Option.some.inj here),
      mem_namesOfRule_iff.mp writes, fun other listed otherWrites => ?_⟩
    have unwritten := earlier other listed
    rw [if_pos (mem_namesOfRule_iff.mpr otherWrites)] at unwritten
    cases unwritten
  · rintro ⟨before, found, after, split, rfl, writes, earlier⟩
    refine ⟨before, found, after, split, if_pos (mem_namesOfRule_iff.mpr writes), ?_⟩
    exact fun other listed =>
      if_neg fun member => earlier other listed (mem_namesOfRule_iff.mp member)

/-- The dangling references are the names that are written and that no rule has, each with the first
rule that it is written in. -/
theorem mem_danglingReferences_iff {rule name : String} :
    (rule, name) ∈ grammar.danglingReferences ↔
      grammar.FirstWrites rule name ∧ name ∉ grammar.ruleNames := by
  unfold danglingReferences
  rw [mem_firstMentions_iff, List.find?_filter]
  by_cases isRule : grammar.contains name = true
  · rw [and_comm, List.find?_eq_none.mpr]
    · exact iff_of_false (fun found => by cases found.1)
        (fun found => found.2 (contains_iff.mp isRule))
    · rintro ⟨first, word⟩ _ found
      have both := of_decide_eq_true found
      rw [beq_iff_eq.mp both.2, isRule] at both
      cases both.1
  · have searched : (fun mention : String × String =>
        decide ((!grammar.contains mention.2) = true ∧ (mention.2 == name) = true)) =
          fun mention => mention.2 == name := by
      funext mention
      by_cases same : mention.2 = name
      · simp [same, isRule]
      · simp [same]
    rw [searched, find?_mentions_eq_some, ← contains_iff]
    exact ⟨fun first => ⟨first.2, isRule⟩, fun first => ⟨List.not_mem_nil, first.1⟩⟩

/-- A name that is written has a first rule that it is written in. -/
theorem exists_firstWrites {name : String} :
    (Exists fun rule => grammar.FirstWrites rule name) ↔ grammar.Writes (.name name) := by
  constructor
  · rintro ⟨_, before, found, after, split, _, ⟨production, outer, writes⟩, _⟩
    refine ⟨found, production, outer, ?_, writes⟩
    rw [split]
    exact List.mem_append_right _ List.mem_cons_self
  · rintro ⟨rule, production, outer, listed, writes⟩
    have some : (grammar.rules.find? fun rule => name ∈ namesOfRule rule).isSome :=
      List.find?_isSome.mpr
        ⟨rule, listed, decide_eq_true (mem_namesOfRule_iff.mpr ⟨production, outer, writes⟩)⟩
    rcases Option.isSome_iff_exists.mp some with ⟨found, first⟩
    rcases List.find?_eq_some_iff_append.mp first with ⟨here, before, after, split, earlier⟩
    refine ⟨found.name, before, found, after, split, rfl,
      mem_namesOfRule_iff.mp (of_decide_eq_true here), fun other inFront otherWrites => ?_⟩
    have unwritten := earlier other inFront
    rw [decide_eq_true (mem_namesOfRule_iff.mpr otherWrites)] at unwritten
    cases unwritten

theorem mem_danglingNames_iff {name : String} :
    name ∈ grammar.danglingReferences.map Prod.snd ↔
      grammar.Writes (.name name) ∧ name ∉ grammar.ruleNames := by
  rw [← exists_firstWrites]
  constructor
  · intro member
    rcases List.mem_map.mp member with ⟨⟨rule, name⟩, listed, rfl⟩
    have first := mem_danglingReferences_iff.mp listed
    exact ⟨⟨rule, first.1⟩, first.2⟩
  · rintro ⟨⟨rule, first⟩, outside⟩
    exact List.mem_map.mpr ⟨(rule, name), mem_danglingReferences_iff.mpr ⟨first, outside⟩, rfl⟩

/-! ## Names of the plain grammar -/

/-- Every rule has a production. -/
def Filled (grammar : Grammar) : Prop :=
  forall rule, rule ∈ grammar.rules -> rule.productions ≠ []

instance (grammar : Grammar) : Decidable grammar.Filled :=
  inferInstanceAs (Decidable (forall rule, rule ∈ grammar.rules -> rule.productions ≠ []))

/-- A name in a production of the plain grammar is written, or is that of a rule. -/
theorem writes_or_rule_of_mem (made : grammar.toPlain = .ok plain)
    {pair : PlainRule × PlainProduction} (listed : pair ∈ plain.productions) {name : String}
    (inside : name ∈ pair.2.symbols) :
    grammar.Writes (.name name) ∨ Exists fun rule => rule ∈ plain.rules ∧ rule.name = name := by
  rcases draft_of_plain made listed with ⟨draft, place, production, drafted, found, rfl⟩
  rcases List.getElem?_of_mem inside with ⟨index, atIndex⟩
  dsimp only [plainProduction] at atIndex
  rw [getElem?_plainNames, Nat.zero_add] at atIndex
  rcases Option.map_eq_some_iff.mp atIndex with ⟨symbol, atSymbol, rfl⟩
  cases isName : symbol.asName? with
  | none =>
      right
      rcases (toPlain_eq made).2.1 draft drafted place index production symbol found atSymbol isName
        with ⟨helper, helperOf⟩
      refine ⟨helper.plainRule, ((toPlain_eq made).1 _).mpr ⟨helper, ?_, rfl⟩, ?_⟩
      · exact .helper draft helper place index symbol drafted helperOf
      · rw [plainName_operator isName]
        exact helperOf.name
  | some word =>
      have same := eq_name_of_asName? isName
      subst same
      have member := List.mem_of_getElem? atSymbol
      rcases writes_of_drafted drafted (List.mem_of_getElem? found) with
        all | ⟨_, rest, split, others⟩
      · exact Or.inl (all _ member)
      · rw [split] at member
        rcases List.mem_cons.mp member with own | after
        · right
          refine ⟨draft.plainRule, ((toPlain_eq made).1 _).mpr ⟨draft, drafted, rfl⟩, ?_⟩
          exact (Symbol.name.inj own).symm
        · exact Or.inl (others _ after)

/-- A name that is written stands in a production of the plain grammar. -/
theorem mem_symbols_of_writes (fits : grammar.FloorsFit) (made : grammar.toPlain = .ok plain)
    {name : String} (writes : grammar.Writes (.name name)) :
    Exists fun pair => pair ∈ plain.productions ∧ name ∈ pair.2.symbols := by
  rcases exists_draft_of_writes fits made writes with ⟨draft, production, drafted, listed, inside⟩
  rcases List.getElem?_of_mem listed with ⟨place, found⟩
  rcases List.getElem?_of_mem inside with ⟨index, atIndex⟩
  refine ⟨_, plain_of_draft made drafted found, List.mem_of_getElem? (i := index) ?_⟩
  dsimp only [plainProduction]
  rw [getElem?_plainNames, atIndex]
  rfl

theorem exists_rule_iff_mem_allRuleNames (made : grammar.toPlain = .ok plain) {name : String} :
    (Exists fun rule => rule ∈ plain.rules ∧ rule.name = name) ↔ name ∈ grammar.allRuleNames := by
  unfold allRuleNames
  rw [made, List.mem_map]

/-- A symbol of the plain grammar that no rule has is a dangling reference. -/
theorem mem_danglingNames_of_symbol (made : grammar.toPlain = .ok plain) {name : String}
    (mentioned : name ∈ plain.symbols)
    (missing : forall rule, rule ∈ plain.rules -> rule.name ≠ name) :
    name ∈ grammar.danglingReferences.map Prod.snd := by
  have outside : name ∉ grammar.allRuleNames := fun member =>
    ((exists_rule_iff_mem_allRuleNames made).mpr member).elim fun rule parts =>
      missing rule parts.1 parts.2
  rw [mem_danglingNames_iff]
  rcases PlainGrammar.mem_symbols.mp mentioned with ⟨rule, listed, same⟩ | ⟨pair, listed, inside⟩
  · exact (missing rule listed same.symm).elim
  · exact ⟨(writes_or_rule_of_mem made listed inside).resolve_right fun rule =>
      outside ((exists_rule_iff_mem_allRuleNames made).mp rule),
      fun member => outside (mem_allRuleNames_of_ruleNames made member)⟩

/-- A dangling reference is a symbol of the plain grammar that no rule has, if nothing is lost in a
floor. -/
theorem symbol_of_mem_danglingNames (fits : grammar.FloorsFit) (apart : grammar.HelpersApart)
    (made : grammar.toPlain = .ok plain) {name : String}
    (dangling : name ∈ grammar.danglingReferences.map Prod.snd) :
    name ∈ plain.symbols ∧ forall rule, rule ∈ plain.rules -> rule.name ≠ name := by
  rcases mem_danglingNames_iff.mp dangling with ⟨writes, outside⟩
  refine ⟨PlainGrammar.mem_symbols.mpr (Or.inr (mem_symbols_of_writes fits made writes)), ?_⟩
  intro rule listed same
  exact not_mem_allRuleNames apart made outside (mem_names_of_writes writes)
    ((exists_rule_iff_mem_allRuleNames made).mp ⟨rule, listed, same⟩)

/-- Where every rule has a production, so has every rule of the plain grammar. -/
theorem Filled.isNonterminal (filled : grammar.Filled) (made : grammar.toPlain = .ok plain)
    {rule : PlainRule} (listed : rule ∈ plain.rules) : plain.IsNonterminal rule.name := by
  rcases ((toPlain_eq made).1 rule).mp listed with ⟨draft, drafted, rfl⟩
  have some : draft.productions ≠ [] := by
    cases drafted with
    | listed draft member =>
        rcases List.mem_map.mp member with ⟨rule, inRules, rfl⟩
        exact filled rule inRules
    | helper owner draft place index symbol _ helperOf =>
        exact productions_ne_nil helperOf.operator helperOf.expanded
  rcases List.exists_mem_of_ne_nil _ some with ⟨production, member⟩
  rcases List.getElem?_of_mem member with ⟨place, found⟩
  exact ⟨_, plain_of_draft made drafted found, rfl⟩

end Grammar

/-! ## Terminals of the automaton -/

namespace Vocabulary

/-- Every name that has a number is one of these. -/
def NamesFrom (known : String -> Prop) (vocabulary : Vocabulary) : Prop :=
  forall name, name ∈ vocabulary.names.toList -> known name

variable {known : String -> Prop} {vocabulary : Vocabulary}

theorem NamesFrom.number (all : vocabulary.NamesFrom known) {name : String} (isKnown : known name) :
    (vocabulary.number name).2.NamesFrom known := by
  unfold Vocabulary.number
  split
  · exact all
  · intro other member
    rw [Array.toList_push, List.mem_append, List.mem_singleton] at member
    rcases member with before | rfl
    · exact all other before
    · exact isKnown

theorem NamesFrom.numberEach (all : vocabulary.NamesFrom known) {names : List String}
    (areKnown : forall name, name ∈ names -> known name) :
    (vocabulary.numberEach names).2.NamesFrom known := by
  induction names generalizing vocabulary with
  | nil => exact all
  | cons name rest inductionHypothesis =>
      rw [List.forall_mem_cons] at areKnown
      exact inductionHypothesis (all.number areKnown.1) areKnown.2

private theorem NamesFrom.addProductions {index left : Nat} {productions : List PlainProduction}
    (all : vocabulary.NamesFrom known)
    (areKnown : forall production, production ∈ productions ->
      forall name, name ∈ production.symbols -> known name) :
    (productions.foldl (addProduction index left) vocabulary).NamesFrom known := by
  induction productions generalizing vocabulary with
  | nil => exact all
  | cons production rest inductionHypothesis =>
      rw [List.forall_mem_cons] at areKnown
      exact inductionHypothesis (all.numberEach areKnown.1) areKnown.2

private theorem NamesFrom.addRules {rules : List (PlainRule × Nat)}
    (all : vocabulary.NamesFrom known)
    (areKnown : forall rule, rule ∈ rules -> known rule.1.name ∧
      forall production, production ∈ rule.1.productions ->
        forall name, name ∈ production.symbols -> known name) :
    (rules.foldl (fun vocabulary (rule, index) => vocabulary.addRule rule index)
      vocabulary).NamesFrom known := by
  induction rules generalizing vocabulary with
  | nil => exact all
  | cons rule rest inductionHypothesis =>
      rw [List.forall_mem_cons] at areKnown
      exact inductionHypothesis ((all.number areKnown.1.1).addProductions areKnown.1.2) areKnown.2

/-- Only the end of the input and the names of the grammar have numbers. -/
theorem namesFrom_ofGrammar (grammar : PlainGrammar) :
    (ofGrammar grammar).NamesFrom fun name => name = "" ∨ name ∈ grammar.symbols := by
  refine NamesFrom.addRules (fun name member => Or.inl (List.mem_singleton.mp member)) ?_
  intro rule member
  have listed := List.fst_mem_of_mem_zipIdx member
  refine ⟨Or.inr (PlainGrammar.mem_symbols.mpr (Or.inl ⟨rule.1, listed, rfl⟩)), ?_⟩
  intro production inRule name inside
  exact Or.inr (PlainGrammar.mem_symbols.mpr
    (Or.inr ⟨(rule.1, production), PlainGrammar.mem_productions.mpr ⟨listed, inRule⟩, inside⟩))

end Vocabulary

namespace Analysis

/-- The symbols that productions mention and that have no productions themselves. -/
def terminals (analysis : Analysis) : List Nat :=
  (List.range analysis.vocabulary.names.size).filter fun id =>
    !analysis.isNonterminal id &&
      analysis.vocabulary.productions.toList.any fun production => id ∈ production.right

variable (grammar : PlainGrammar)

theorem isNonterminal_iff {id : Nat} (inside : id < symbolCount grammar) :
    (ofGrammar grammar).isNonterminal id = true ↔ grammar.IsNonterminal (symbolName grammar id) := by
  unfold isNonterminal
  rw [Bool.not_eq_true', ← Bool.not_eq_true, isEmpty_productionsOf grammar inside, not_not]

theorem mem_terminals_iff {id : Nat} :
    id ∈ (ofGrammar grammar).terminals ↔ id < symbolCount grammar ∧
      ¬ grammar.IsNonterminal (symbolName grammar id) ∧
        Exists fun pair => pair ∈ grammar.productions ∧ symbolName grammar id ∈ pair.2.symbols := by
  unfold terminals
  rw [List.mem_filter, List.mem_range, Bool.and_eq_true, Bool.not_eq_true', ← Bool.not_eq_true,
    List.any_eq_true]
  change id < symbolCount grammar ∧ _ ↔ _
  refine and_congr_right fun inside => and_congr (not_congr (isNonterminal_iff grammar inside)) ?_
  constructor
  · rintro ⟨numbered, listed, mentions⟩
    rcases List.getElem?_of_mem listed with ⟨index, found⟩
    rw [Array.getElem?_toList] at found
    rcases translates_at grammar found with ⟨pair, known, translates⟩
    refine ⟨pair, List.mem_of_getElem? known, ?_⟩
    rw [← translates.right]
    exact List.mem_map_of_mem (of_decide_eq_true mentions)
  · rintro ⟨pair, listed, mentioned⟩
    rcases translated_of_mem grammar listed with ⟨numbered, member, translates⟩
    rw [← translates.right] at mentioned
    rcases List.mem_map.mp mentioned with ⟨other, inRight, same⟩
    have equal := symbolName_injective grammar (translates.rightInside other inRight) inside same
    exact ⟨numbered, member, decide_eq_true (equal ▸ inRight)⟩

theorem nodup_terminals : ((ofGrammar grammar).terminals.map (symbolName grammar)).Nodup := by
  refine List.Nodup.map_on ?_ (List.nodup_range.filter _)
  intro left inLeft right inRight same
  exact symbolName_injective grammar ((mem_terminals_iff grammar).mp inLeft).1
    ((mem_terminals_iff grammar).mp inRight).1 same

variable {grammar}

/-- In a grammar whose rules all have productions, the terminals are the symbols that no rule has. -/
theorem mem_map_terminals_iff
    (filled : forall rule, rule ∈ grammar.rules -> grammar.IsNonterminal rule.name) {name : String} :
    name ∈ (ofGrammar grammar).terminals.map (symbolName grammar) ↔
      name ∈ grammar.symbols ∧ forall rule, rule ∈ grammar.rules -> rule.name ≠ name := by
  rw [List.mem_map]
  constructor
  · rintro ⟨id, member, rfl⟩
    rcases (mem_terminals_iff grammar).mp member with ⟨_, isTerminal, inProduction⟩
    refine ⟨PlainGrammar.mem_symbols.mpr (Or.inr inProduction), fun rule listed same => ?_⟩
    exact isTerminal (same ▸ filled rule listed)
  · rintro ⟨mentioned, noRule⟩
    rcases numbered_of_mem_symbols grammar mentioned with ⟨id, _, inside, rfl⟩
    refine ⟨id, (mem_terminals_iff grammar).mpr ⟨inside, ?_, ?_⟩, rfl⟩
    · rintro ⟨pair, listed, same⟩
      exact noRule pair.1 (PlainGrammar.mem_productions.mp listed).1 same
    · rcases PlainGrammar.mem_symbols.mp mentioned with ⟨rule, listed, same⟩ | inProduction
      · exact (noRule rule listed same.symm).elim
      · exact inProduction

/-- In such a grammar, a symbol that is neither a terminal nor a nonterminal is the end of the
input. -/
theorem terminal_or_nonterminal
    (filled : forall rule, rule ∈ grammar.rules -> grammar.IsNonterminal rule.name) {id : Nat}
    (inside : id < symbolCount grammar) :
    id ∈ (ofGrammar grammar).terminals ∨ (ofGrammar grammar).isNonterminal id = true ∨
      id = Vocabulary.endId := by
  have atName := Vocabulary.getElem?_names inside
  rw [← Array.getElem?_toList] at atName
  rcases Vocabulary.namesFrom_ofGrammar grammar _ (List.mem_of_getElem? atName) with
    empty | mentioned
  · exact Or.inr (Or.inr ((symbolName_eq_empty grammar inside).mp empty))
  · by_cases isNonterminal : grammar.IsNonterminal (symbolName grammar id)
    · exact Or.inr (Or.inl ((isNonterminal_iff grammar inside).mpr isNonterminal))
    · left
      rcases PlainGrammar.mem_symbols.mp mentioned with ⟨rule, listed, same⟩ | inProduction
      · have ofRule := filled rule listed
        rw [← same] at ofRule
        exact (isNonterminal ofRule).elim
      · exact (mem_terminals_iff grammar).mpr ⟨inside, isNonterminal, inProduction⟩

end Analysis

namespace Grammar

variable {grammar : Grammar} {plain : PlainGrammar}

/-- The dangling references are listed once each, with the first rule that writes them.  Among them
are all symbols of the plain grammar that no rule has, and if nothing is lost in a floor, no others:
they are the terminals of the automaton.  Apart from its terminals the automaton has only nonterminals
and the end of the input. -/
theorem dangling_iff_terminal (made : grammar.toPlain = .ok plain) (filled : grammar.Filled)
    (apart : grammar.HelpersApart) :
    let analysis := (Automaton.ofGrammar plain).analysis
    (grammar.danglingReferences.map Prod.snd).Nodup ∧
      (forall rule name, (rule, name) ∈ grammar.danglingReferences ->
        grammar.FirstWrites rule name) ∧
      (forall name, name ∈ plain.symbols ->
        (forall rule, rule ∈ plain.rules -> rule.name ≠ name) ->
        name ∈ grammar.danglingReferences.map Prod.snd) ∧
      (forall id, id < analysis.vocabulary.names.size ->
        id ∈ analysis.terminals ∨ analysis.isNonterminal id = true ∨ id = Vocabulary.endId) ∧
      (grammar.FloorsFit ->
        (forall name, name ∈ grammar.danglingReferences.map Prod.snd ->
          name ∈ plain.symbols ∧ forall rule, rule ∈ plain.rules -> rule.name ≠ name) ∧
        (grammar.danglingReferences.map Prod.snd).Perm
          (analysis.terminals.map analysis.vocabulary.name)) := by
  have nonterminals : forall rule, rule ∈ plain.rules -> plain.IsNonterminal rule.name :=
    fun _ => filled.isNonterminal made
  have distinct := nodup_firstMentions ((grammar.rules.flatMap fun rule =>
    (namesOfRule rule).map fun name => (rule.name, name)).filter fun mention =>
      !grammar.contains mention.2) []
  have reported : forall name, name ∈ plain.symbols ->
      (forall rule, rule ∈ plain.rules -> rule.name ≠ name) ->
      name ∈ grammar.danglingReferences.map Prod.snd := fun _ => mem_danglingNames_of_symbol made
  refine ⟨distinct, fun rule name listed => (mem_danglingReferences_iff.mp listed).1, reported,
    fun id inside => Analysis.terminal_or_nonterminal nonterminals inside, fun fits => ?_⟩
  have mentioned : forall name, name ∈ grammar.danglingReferences.map Prod.snd ->
      name ∈ plain.symbols ∧ forall rule, rule ∈ plain.rules -> rule.name ≠ name :=
    fun _ => symbol_of_mem_danglingNames fits apart made
  refine ⟨mentioned, (List.perm_ext_iff_of_nodup distinct (Analysis.nodup_terminals plain)).mpr ?_⟩
  intro name
  rw [Analysis.mem_map_terminals_iff nonterminals]
  exact ⟨mentioned name, fun parts => reported name parts.1 parts.2⟩

theorem dangling_iff_terminal_nested :
    nested.danglingReferences =
        [("list", "item"), ("list", "comma"), ("list", "open"), ("list", "close")] ∧
      Exists fun plain => nested.toPlain = .ok plain ∧
        (nested.danglingReferences.map Prod.snd).Perm
          ((Automaton.ofGrammar plain).analysis.terminals.map
            (Automaton.ofGrammar plain).analysis.vocabulary.name) := by
  refine ⟨by decide +kernel, _, rfl, ?_⟩
  have filled : nested.Filled := by decide
  exact ((dangling_iff_terminal rfl filled helpersApart_nested).2.2.2.2 (by decide)).2

/-- The names of which there are so many copies that none is left are dangling references, but no
symbols of the plain grammar. -/
theorem dangling_ne_terminal_emptyFloor :
    (emptyFloor halfWord).HelpersApart ∧ (emptyFloor halfWord).Filled ∧
    (emptyFloor halfWord).danglingReferences = [("A", "a"), ("A", "b")] ∧
    Exists fun plain => (emptyFloor halfWord).toPlain = .ok plain ∧
      "a" ∉ plain.symbols ∧ "b" ∉ plain.symbols :=
  ⟨helpersApart_emptyFloor _, by decide, by decide +kernel, _, rfl, by decide +kernel,
    by decide +kernel⟩

end Grammar
end ShiftReduce
