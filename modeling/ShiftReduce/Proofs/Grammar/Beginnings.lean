import ShiftReduce.Proofs.Grammar.PlainLanguage

namespace ShiftReduce

/-!
# Beginnings of sentences

A string of terminals begins a sentence if the root can be rewritten to that string with anything
behind it.  For this every rule has to derive some string, as otherwise what stands behind can never
be turned into terminals, and no upper bound may be left to the collections, as otherwise the plain
grammar derives more than the sentences.

That a rule of the author's derives some string is assumed.  For a helper it follows: a repetition can
start with the fewest copies of its body, a choice takes any branch, and the operators in there are
nested less deep.
-/

namespace Grammar

open Draft

/-- Every rule derives some string. -/
def IsProductive (grammar : Grammar) : Prop :=
  forall name, name ∈ grammar.ruleNames ->
    Exists fun word => grammar.Derives [.name name] word

/-- Where a repetition has an upper bound, it is the lower one as well. -/
def BoundsExactly (grammar : Grammar) : Prop :=
  forall least most body, grammar.Writes (.bounded least most body) -> most = 0 ∨ most = least

/-- The operator does not leave an upper bound to its collection. -/
def BoundedExactly : Symbol -> Prop
  | .bounded least most _ => most = 0 ∨ most = least
  | _ => True

instance : DecidablePred BoundedExactly
  | .bounded _ _ _ => inferInstanceAs (Decidable (_ ∨ _))
  | .name _ | .repeat0 _ | .repeat1 _ | .optional _ | .alternation _ =>
    inferInstanceAs (Decidable True)

variable {grammar : Grammar} {plain : PlainGrammar}

theorem boundsExactly_of_written
    (each : forall symbol, symbol ∈ grammar.writtenSymbols -> BoundedExactly symbol) :
    grammar.BoundsExactly :=
  fun _ _ _ writes => each _ (mem_writtenSymbols.mpr writes)

/-! ## From one language to the other -/

/-- An operator whose helper cannot grow too far unfolds to all that the helper stands for. -/
theorem unfolds_of_admits (exactly : grammar.BoundsExactly) {symbol : Symbol}
    (writes : grammar.Writes symbol) {unfolded : List Symbol} (admits : symbol.Admits unfolded) :
    symbol.Unfolds unfolded := by
  cases admits with
  | repeat0 body count => exact .repeat0 body count
  | repeat1 body count positive => exact .repeat1 body count positive
  | absent body => exact .absent body
  | present => exact .present _
  | branch branches _ member => exact .branch branches _ member
  | bounded least most body count enough exact =>
      refine .bounded least most body count enough fun limited => ?_
      have same := (exactly least most body writes).resolve_left limited
      rw [exact limited same, same]

/-- If upper bounds are lower bounds as well, what is generated is derived. -/
theorem Generates.derives (exactly : grammar.BoundsExactly) {symbols : List Symbol}
    {word : List String} (generates : grammar.Generates symbols word)
    (writes : forall symbol, symbol ∈ symbols -> symbol.asName? = none -> grammar.Writes symbol) :
    grammar.Derives symbols word := by
  induction generates with
  | nil => exact .nil
  | token name rest back terminal _ inductionHypothesis =>
      exact .token name rest back terminal
        (inductionHypothesis fun symbol inside => writes symbol (List.mem_cons_of_mem _ inside))
  | rule rule production rest front back listed chosen _ _ bodyHypothesis laterHypothesis =>
      exact .rule rule production rest front back listed chosen
        (bodyHypothesis fun symbol inside _ =>
          ⟨rule, production, symbol, listed, chosen, inside, .refl symbol⟩)
        (laterHypothesis fun symbol inside => writes symbol (List.mem_cons_of_mem _ inside))
  | operator symbol unfolded rest front back admits _ _ bodyHypothesis laterHypothesis =>
      have outer := writes symbol List.mem_cons_self (Symbol.asName?_of_admits admits)
      exact .operator symbol unfolded rest front back (unfolds_of_admits exactly outer admits)
        (bodyHypothesis fun inner inside _ => outer.child (admits.mem_children inside))
        (laterHypothesis fun other inside => writes other (List.mem_cons_of_mem _ inside))

/-! ## Names that derive terminals -/

/-- Names that can be rewritten to terminals. -/
def Completes (grammar : Grammar) (plain : PlainGrammar) (names : List String) : Prop :=
  Exists fun word => plain.Derives names word ∧
    forall terminal, terminal ∈ word -> terminal ∉ grammar.allRuleNames

theorem completes_of_each {names : List String}
    (each : forall name, name ∈ names -> grammar.Completes plain [name]) :
    grammar.Completes plain names := by
  induction names with
  | nil => exact ⟨[], .refl [], fun _ impossible => (List.not_mem_nil impossible).elim⟩
  | cons name rest inductionHypothesis =>
      rcases each name List.mem_cons_self with ⟨front, derivesFront, frontTerminals⟩
      rcases inductionHypothesis fun other member => each other (List.mem_cons_of_mem _ member) with
        ⟨back, derivesBack, backTerminals⟩
      refine ⟨front ++ back, PlainGrammar.Derives.append derivesFront derivesBack, ?_⟩
      intro terminal member
      exact (List.mem_append.mp member).elim (frontTerminals terminal) (backTerminals terminal)

theorem completes_of_terminal {name : String} (outside : name ∉ grammar.allRuleNames) :
    grammar.Completes plain [name] :=
  ⟨[name], .refl _, fun _ member => List.mem_singleton.mp member ▸ outside⟩

/-- Some production of a helper has no symbols but those directly inside its operator. -/
theorem starting_production {owner draft : Draft} {place index : Nat} {symbol : Symbol}
    (helperOf : owner.HelperOf place index symbol draft) :
    Exists fun production => production ∈ draft.productions ∧
      forall inner, inner ∈ production.symbols -> inner ∈ symbol.children := by
  have covers := (expand_spec helperOf.operator helperOf.expanded).2
  have repeated : forall least most body, repetition? symbol = some (least, most, body) ->
      Exists fun production => production ∈ draft.productions ∧
        forall inner, inner ∈ production.symbols -> inner ∈ body := by
    intro least most body repeats
    rcases covers.starts least most body repeats with ⟨front, inside, start⟩
    exact ⟨_, start, inside⟩
  cases symbol with
  | name word => cases helperOf.operator
  | repeat0 body | repeat1 body | optional body | bounded _ _ body => exact repeated _ _ body rfl
  | alternation branches =>
      cases branches with
      | nil => cases helperOf.expanded
      | cons branch rest =>
          refine ⟨_, covers.branches _ rfl branch List.mem_cons_self, fun inner inside => ?_⟩
          exact List.mem_flatten.mpr ⟨branch, List.mem_cons_self, inside⟩

/-- If the rules of the author's derive terminals, so do all helpers. -/
theorem completes_of_draft (apart : grammar.HelpersApart) (made : grammar.toPlain = .ok plain)
    (rules : forall name, name ∈ grammar.ruleNames -> grammar.Completes plain [name]) {draft : Draft}
    (drafted : Drafted grammar.drafts draft) : grammar.Completes plain [draft.name] := by
  -- The helpers of a helper are nested less deep.
  induction nesting : draft.depth using Nat.strongRecOn generalizing draft with
  | _ nesting inductionHypothesis =>
      subst nesting
      have isDrafted := drafted
      cases drafted with
      | listed draft member =>
          rcases List.mem_map.mp member with ⟨rule, listed, rfl⟩
          exact rules rule.name (List.mem_map_of_mem listed)
      | helper owner draft place index symbol ownerDrafted helperOf =>
          rcases starting_production helperOf with ⟨production, listed, inside⟩
          rcases List.getElem?_of_mem listed with ⟨number, found⟩
          have writes := writes_operator ownerDrafted helperOf
          have first := PlainGrammar.Derives.production (plain_of_draft made isDrafted found)
          have all : grammar.Completes plain (plainNames draft.name number 0 production.symbols) := by
            apply completes_of_each
            intro name member
            rcases List.getElem?_of_mem member with ⟨at_, atName⟩
            rw [getElem?_plainNames, Nat.zero_add] at atName
            rcases Option.map_eq_some_iff.mp atName with ⟨inner, atInner, rfl⟩
            have innerWrites := writes.child (inside inner (List.mem_of_getElem? atInner))
            cases isName : inner.asName? with
            | some word =>
                have same := eq_name_of_asName? isName
                subst same
                have written := mem_names_of_writes innerWrites
                change grammar.Completes plain [word]
                by_cases isRule : word ∈ grammar.ruleNames
                · exact rules word isRule
                · exact completes_of_terminal (not_mem_allRuleNames apart made isRule written)
            | none =>
                rcases (toPlain_eq made).2.1 draft isDrafted number at_ production inner found atInner
                  isName with ⟨helper, innerOf⟩
                rw [plainName_operator isName, ← innerOf.name]
                exact inductionHypothesis helper.depth (depth_lt_of_helper innerOf)
                  (.helper _ _ _ _ _ isDrafted innerOf) rfl
          rcases all with ⟨word, derives, terminals⟩
          exact ⟨word, PlainGrammar.Derives.trans first derives, terminals⟩

/-- If every rule derives some string, any names can be rewritten to terminals. -/
theorem IsProductive.completes (productive : grammar.IsProductive) (fits : grammar.FloorsFit)
    (apart : grammar.HelpersApart) (made : grammar.toPlain = .ok plain) (names : List String) :
    grammar.Completes plain names := by
  apply completes_of_each
  intro name _
  have rules : forall name, name ∈ grammar.ruleNames -> grammar.Completes plain [name] := by
    intro name isRule
    rcases productive name isRule with ⟨word, derives⟩
    exact ⟨word, derives_of_generates fits apart made isRule derives.generates⟩
  by_cases isRule : name ∈ grammar.allRuleNames
  · unfold allRuleNames at isRule
    rw [made] at isRule
    rcases List.mem_map.mp isRule with ⟨rule, listed, rfl⟩
    rcases ((toPlain_eq made).1 rule).mp listed with ⟨draft, drafted, rfl⟩
    exact completes_of_draft apart made rules drafted
  · exact completes_of_terminal isRule

/-- Terminals that can be at the front of what the root is rewritten to begin a sentence. -/
theorem begins_sentence (productive : grammar.IsProductive) (exactly : grammar.BoundsExactly)
    (fits : grammar.FloorsFit) (apart : grammar.HelpersApart)
    (made : grammar.toPlain = .ok plain) {word rest : List String}
    (derives : plain.Derives [plain.root] (word ++ rest))
    (terminals : forall terminal, terminal ∈ word -> terminal ∉ grammar.allRuleNames) :
    Exists fun back => grammar.Sentence (word ++ back) := by
  have isRoot := (toPlain_eq made).2.2
  rcases productive.completes fits apart made rest with ⟨back, derivesBack, backTerminals⟩
  have whole := PlainGrammar.Derives.trans derives (derivesBack.append_left word)
  have generates := generates_of_derives fits apart made (root_mem_ruleNames isRoot) whole
    fun terminal member =>
      (List.mem_append.mp member).elim (terminals terminal) (backTerminals terminal)
  refine ⟨back, plain.root, isRoot, generates.derives exactly fun symbol inside isOperator => ?_⟩
  rw [List.mem_singleton.mp inside] at isOperator
  cases isOperator

end Grammar

end ShiftReduce
