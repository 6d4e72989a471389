import Mathlib.Data.List.Nodup
import ShiftReduce.Proofs.Grammar.Language
import ShiftReduce.Proofs.Grammar.Rewriting

namespace ShiftReduce

/-!
# Grammars whose names are apart from those of helpers

Helpers are named after places, and nothing keeps an author from using such a name.  A grammar is
admissible if no name in it is empty or that of one of its helpers, and if its productions report to
the outside or not at all.

Most of what follows only needs the names to be apart from those of helpers, and is stated for such
grammars.  In the plain grammar a name then says which draft it belongs to, and a name in a production
of a draft is one of the author's, that of the operator at this place, or, in a repetition that grows,
that of the repetition itself.
-/

namespace Symbol

/-- One symbol is the other or inside it. -/
inductive Contains : Symbol -> Symbol -> Prop where
  | refl (symbol : Symbol) : Contains symbol symbol
  | child (outer inner symbol : Symbol) (member : inner ∈ outer.children)
      (contains : Contains inner symbol) : Contains outer symbol

theorem Contains.trans {outer middle inner : Symbol} (first : Contains outer middle)
    (second : Contains middle inner) : Contains outer inner := by
  induction first with
  | refl symbol => exact second
  | child outer between symbol member _ inductionHypothesis =>
      exact .child outer between inner member (inductionHypothesis second)

/-- The symbols of `level`, those directly inside them, and so on for `bound` levels. -/
def levels : Nat -> List Symbol -> List Symbol
  | 0, _ => []
  | bound + 1, level => level ++ levels bound (level.flatMap children)

theorem namesWithin_eq (bound : Nat) (level : List Symbol) :
    namesWithin bound level = (levels bound level).filterMap asName? := by
  induction bound generalizing level with
  | zero => rfl
  | succ bound inductionHypothesis =>
      rw [namesWithin, levels, List.filterMap_append, inductionHypothesis]

private theorem levels_mono {symbol : Symbol} {bound larger : Nat} {level wider : List Symbol}
    (member : symbol ∈ levels bound level) (small : bound ≤ larger)
    (subset : forall symbol, symbol ∈ level -> symbol ∈ wider) : symbol ∈ levels larger wider := by
  induction bound generalizing larger level wider with
  | zero => cases member
  | succ bound inductionHypothesis =>
      cases larger with
      | zero => exact (Nat.not_succ_le_zero _ small).elim
      | succ larger =>
          rw [levels] at member ⊢
          rcases List.mem_append.mp member with here | deeper
          · exact List.mem_append_left _ (subset symbol here)
          · apply List.mem_append_right
            apply inductionHypothesis deeper (Nat.le_of_succ_le_succ small)
            intro inner inChildren
            rcases List.mem_flatMap.mp inChildren with ⟨outer, listed, inOuter⟩
            exact List.mem_flatMap.mpr ⟨outer, subset outer listed, inOuter⟩

private theorem contains_of_mem_levels {bound : Nat} {level : List Symbol} {symbol : Symbol}
    (member : symbol ∈ levels bound level) :
    Exists fun outer => outer ∈ level ∧ Contains outer symbol := by
  induction bound generalizing level with
  | zero => cases member
  | succ bound inductionHypothesis =>
      rw [levels] at member
      rcases List.mem_append.mp member with here | deeper
      · exact ⟨symbol, here, .refl symbol⟩
      · rcases inductionHypothesis deeper with ⟨inner, inChildren, contains⟩
        rcases List.mem_flatMap.mp inChildren with ⟨outer, listed, inside⟩
        exact ⟨outer, listed, .child outer inner _ inside contains⟩

/-- Only operators have something inside. -/
theorem operator_of_child {outer inner : Symbol} (member : inner ∈ outer.children) :
    outer.asName? = none := by
  cases outer with
  | name word => cases member
  | _ => rfl

theorem depth_lt_of_child {outer inner : Symbol} (member : inner ∈ outer.children) :
    inner.depth < outer.depth := by
  cases outer with
  | name word => cases member
  | repeat0 body => exact Nat.lt_succ_of_le (Draft.depth_le_of_mem member)
  | repeat1 body => exact Nat.lt_succ_of_le (Draft.depth_le_of_mem member)
  | optional body => exact Nat.lt_succ_of_le (Draft.depth_le_of_mem member)
  | alternation branches =>
      rcases List.mem_flatten.mp member with ⟨branch, listed, inBranch⟩
      exact Nat.lt_succ_of_le (Nat.le_trans (Draft.depth_le_of_mem inBranch)
        (Draft.depthOfSequence_le_of_branch listed))
  | bounded least most body => exact Nat.lt_succ_of_le (Draft.depth_le_of_mem member)

/-- As many levels as a symbol is nested hold all that is inside it. -/
theorem mem_levels_iff {symbol inner : Symbol} :
    inner ∈ levels (symbol.depth + 1) [symbol] ↔ Contains symbol inner := by
  constructor
  · intro member
    rcases contains_of_mem_levels member with ⟨outer, listed, contains⟩
    rwa [List.mem_singleton.mp listed] at contains
  · intro contains
    induction contains with
    | refl symbol => exact List.mem_cons_self
    | child outer between inner member _ inductionHypothesis =>
        rw [levels]
        apply List.mem_append_right
        apply levels_mono inductionHypothesis (Nat.succ_le_of_lt (depth_lt_of_child member))
        intro symbol listed
        rw [List.mem_singleton.mp listed]
        exact List.mem_flatMap.mpr ⟨outer, List.mem_singleton_self outer, member⟩

/-- The names of a symbol are those inside it. -/
theorem mem_names_iff {symbol : Symbol} {word : String} :
    word ∈ symbol.names ↔ Contains symbol (.name word) := by
  unfold names
  rw [namesWithin_eq, List.mem_filterMap, ← mem_levels_iff]
  constructor
  · rintro ⟨inner, member, isName⟩
    exact Draft.eq_name_of_asName? isName ▸ member
  · exact fun member => ⟨_, member, rfl⟩

end Symbol

namespace Emit

/-- The effects that a grammar's author can choose. -/
def IsOutward (emit : Emit) : Prop :=
  emit = .none ∨ emit = .report ∨ Exists fun identity => emit = .callback identity

end Emit

/-- As many pairs as fill a word once, so that nothing is left of their length. -/
def halfWord : Nat := 9223372036854775808

namespace Grammar

/-- The names of the rules and all names that they mention. -/
def names (grammar : Grammar) : List String :=
  grammar.rules.map Rule.name ++ grammar.rules.flatMap namesOfRule

/-- No helper has a name that is written in the grammar. -/
def HelpersApart (grammar : Grammar) : Prop :=
  forall plain, grammar.toPlain = .ok plain -> forall rule, rule ∈ plain.rules ->
    rule.helper = true -> rule.name ∉ grammar.names

/-- No production gathers anything by itself. -/
def EmitsOutward (grammar : Grammar) : Prop :=
  forall rule, rule ∈ grammar.rules -> forall production, production ∈ rule.productions ->
    production.emit.IsOutward

/-- No name is empty or that of a helper, and no production gathers anything by itself. -/
structure Admissible (grammar : Grammar) : Prop where
  outward : forall rule, rule ∈ grammar.rules -> forall production, production ∈ rule.productions ->
    production.emit.IsOutward
  named : "" ∉ grammar.names
  apart : forall plain, grammar.toPlain = .ok plain -> forall rule, rule ∈ plain.rules ->
    rule.helper = true -> rule.name ∉ grammar.names

open Draft

/-- The symbol is written somewhere in the grammar, maybe inside an operator. -/
def Writes (grammar : Grammar) (symbol : Symbol) : Prop :=
  Exists fun rule => Exists fun production => Exists fun outer => rule ∈ grammar.rules ∧
    production ∈ rule.productions ∧ outer ∈ production.symbols ∧ Symbol.Contains outer symbol

/-- The helper of every repetition starts with all the copies that it needs. -/
def FloorsFit (grammar : Grammar) : Prop :=
  forall symbol, grammar.Writes symbol -> FloorFits symbol

variable {grammar : Grammar}

/-- The symbols that are written in the grammar. -/
def writtenSymbols (grammar : Grammar) : List Symbol :=
  grammar.rules.flatMap fun rule => rule.productions.flatMap fun production =>
    production.symbols.flatMap fun outer => Symbol.levels (outer.depth + 1) [outer]

theorem mem_writtenSymbols {symbol : Symbol} :
    symbol ∈ grammar.writtenSymbols ↔ grammar.Writes symbol := by
  simp only [writtenSymbols, List.mem_flatMap, Symbol.mem_levels_iff]
  constructor
  · rintro ⟨rule, listed, production, chosen, outer, inside, contains⟩
    exact ⟨rule, production, outer, listed, chosen, inside, contains⟩
  · rintro ⟨rule, production, outer, listed, chosen, inside, contains⟩
    exact ⟨rule, listed, production, chosen, outer, inside, contains⟩

instance (grammar : Grammar) : Decidable grammar.FloorsFit :=
  decidable_of_iff (forall symbol, symbol ∈ grammar.writtenSymbols -> FloorFits symbol)
    (forall_congr' fun _ => imp_congr_left mem_writtenSymbols)

/-- One repetition of a body: `A = (body){least,most} ;`. -/
def repeating (least most : Nat) (body : List Symbol) : Grammar :=
  ⟨[⟨"A", [{ symbols := [.bounded least most body] }]⟩], List.nodup_singleton _⟩

/-- So many copies of two names that nothing is left of them in the floor. -/
def emptyFloor (most : Nat) : Grammar := repeating halfWord most [.name "a", .name "b"]

theorem Writes.child {outer inner : Symbol} (writes : grammar.Writes outer)
    (member : inner ∈ outer.children) : grammar.Writes inner := by
  rcases writes with ⟨rule, production, top, ruleListed, productionListed, topListed, contains⟩
  exact ⟨rule, production, top, ruleListed, productionListed, topListed,
    contains.trans (.child outer inner inner member (.refl inner))⟩

theorem mem_names_of_writes {word : String} (writes : grammar.Writes (.name word)) :
    word ∈ grammar.names := by
  rcases writes with ⟨rule, production, outer, ruleListed, productionListed, outerListed, contains⟩
  apply List.mem_append_right
  refine List.mem_flatMap.mpr ⟨rule, ruleListed, ?_⟩
  refine List.mem_flatMap.mpr ⟨production, productionListed, ?_⟩
  exact List.mem_flatMap.mpr ⟨outer, outerListed, Symbol.mem_names_iff.mpr contains⟩

theorem writes_body {symbol : Symbol} (writes : grammar.Writes symbol) {least most : Nat}
    {body : List Symbol} (repeats : repetition? symbol = some (least, most, body)) :
    forall inner, inner ∈ body -> grammar.Writes inner := by
  intro inner inside
  apply writes.child
  cases symbol <;> cases repeats <;> exact inside

/-- A symbol of a draft is written in the grammar, or it is the helper's own name at the front of a
production that grows it. -/
theorem writes_of_drafted {draft : Draft} (drafted : Drafted grammar.drafts draft)
    {production : Production} (listed : production ∈ draft.productions) :
    (forall symbol, symbol ∈ production.symbols -> grammar.Writes symbol) ∨
      (draft.helper = true ∧ Exists fun rest => production.symbols = .name draft.name :: rest ∧
        forall symbol, symbol ∈ rest -> grammar.Writes symbol) := by
  induction drafted generalizing production with
  | listed draft member =>
      rcases List.mem_map.mp member with ⟨rule, ruleListed, rfl⟩
      exact Or.inl fun symbol inside =>
        ⟨rule, production, symbol, ruleListed, listed, inside, .refl symbol⟩
  | helper owner helper place index symbol _ helperOf inductionHypothesis =>
      rcases helperOf.place with ⟨found, atPlace, atIndex⟩
      have writes : grammar.Writes symbol := by
        have inside := List.mem_of_getElem? atIndex
        rcases inductionHypothesis (List.mem_of_getElem? atPlace) with all | ⟨_, rest, split, others⟩
        · exact all symbol inside
        · rw [split] at inside
          rcases List.mem_cons.mp inside with own | after
          · have operator := helperOf.operator
            rw [own] at operator
            cases operator
          · exact others symbol after
      cases (expand_spec helperOf.operator helperOf.expanded).1 production listed with
      | start least most count symbols front repeats inside _ =>
          left
          exact fun inner member => writes_body writes repeats inner (inside inner member)
      | grow least most symbols repeats _ =>
          right
          refine ⟨helperOf.isHelper, symbols, ?_, writes_body writes repeats⟩
          rw [helperOf.name]
      | branch branches branch choice inBranches =>
          left
          intro inner inside
          apply writes.child
          rw [choice]
          exact List.mem_flatten.mpr ⟨branch, inBranches, inside⟩

/-- An operator in a draft is written in the grammar. -/
theorem writes_of_operator {draft : Draft} (drafted : Drafted grammar.drafts draft)
    {production : Production} (listed : production ∈ draft.productions) {symbol : Symbol}
    (inside : symbol ∈ production.symbols) (operator : symbol.asName? = none) :
    grammar.Writes symbol := by
  rcases writes_of_drafted drafted listed with all | ⟨_, rest, split, others⟩
  · exact all symbol inside
  · rw [split] at inside
    rcases List.mem_cons.mp inside with own | after
    · rw [own] at operator
      cases operator
    · exact others symbol after

/-- An operator that has a helper is written in the grammar. -/
theorem writes_operator {owner helper : Draft} (drafted : Drafted grammar.drafts owner)
    {place index : Nat} {symbol : Symbol} (helperOf : owner.HelperOf place index symbol helper) :
    grammar.Writes symbol := by
  rcases helperOf.place with ⟨found, atPlace, atIndex⟩
  exact writes_of_operator drafted (List.mem_of_getElem? atPlace) (List.mem_of_getElem? atIndex)
    helperOf.operator

/-- What an operator repeats is written in the grammar. -/
theorem writes_repeated {symbol : Symbol} (writes : grammar.Writes symbol) {least most : Nat}
    {body : List Symbol} (repeats : repetition? symbol = some (least, most, body)) (count : Nat) :
    forall inner, inner ∈ repeated count body -> grammar.Writes inner :=
  fun inner inside => writes_body writes repeats inner (mem_of_mem_repeated inside)

theorem writes_branch {branches : List (List Symbol)} {branch : List Symbol}
    (writes : grammar.Writes (.alternation branches)) (member : branch ∈ branches) :
    forall inner, inner ∈ branch -> grammar.Writes inner :=
  fun _ inside => writes.child (List.mem_flatten.mpr ⟨branch, member, inside⟩)

/-! ## Names tell drafts apart -/

theorem mem_drafts_of_rule {rule : Rule} (listed : rule ∈ grammar.rules) :
    (⟨rule.name, rule.productions, false⟩ : Draft) ∈ grammar.drafts :=
  List.mem_map.mpr ⟨rule, listed, rfl⟩

theorem helper_of_listed {draft : Draft} (member : draft ∈ grammar.drafts) :
    draft.helper = false ∧ draft.name ∈ grammar.names := by
  rcases List.mem_map.mp member with ⟨rule, listed, rfl⟩
  exact ⟨rfl, List.mem_append_left _ (List.mem_map_of_mem listed)⟩

variable {plain : PlainGrammar}

theorem Admissible.helpersApart (admissible : grammar.Admissible) : grammar.HelpersApart :=
  admissible.apart

theorem Admissible.emitsOutward (admissible : grammar.Admissible) : grammar.EmitsOutward :=
  admissible.outward

theorem HelpersApart.helper_apart (apart : grammar.HelpersApart)
    (made : grammar.toPlain = .ok plain) {draft : Draft} (drafted : Drafted grammar.drafts draft)
    (isHelper : draft.helper = true) : draft.name ∉ grammar.names :=
  apart plain made draft.plainRule
    (((toPlain_eq made).1 _).mpr ⟨draft, drafted, rfl⟩) isHelper

private theorem listed_unique {left right : Draft} (leftListed : left ∈ grammar.drafts)
    (rightListed : right ∈ grammar.drafts) (same : left.name = right.name) : left = right := by
  rcases List.mem_map.mp leftListed with ⟨first, firstListed, rfl⟩
  rcases List.mem_map.mp rightListed with ⟨second, secondListed, rfl⟩
  rw [List.inj_on_of_nodup_map grammar.distinct firstListed secondListed same]

/-- Drafts of one name are the same. -/
theorem HelpersApart.draft_unique (apart : grammar.HelpersApart)
    (made : grammar.toPlain = .ok plain) {left right : Draft}
    (leftDrafted : Drafted grammar.drafts left) (rightDrafted : Drafted grammar.drafts right)
    (same : left.name = right.name) : left = right := by
  induction leftDrafted generalizing right with
  | listed left leftListed =>
      cases rightDrafted with
      | listed _ rightListed => exact listed_unique leftListed rightListed same
      | helper owner _ production index symbol drafted helperOf =>
          have unwritten := apart.helper_apart made
            (.helper owner right production index symbol drafted helperOf) helperOf.isHelper
          exact (unwritten (same ▸ (helper_of_listed leftListed).2)).elim
  | helper owner left production index symbol drafted helperOf inductionHypothesis =>
      cases rightDrafted with
      | listed _ rightListed =>
          have unwritten := apart.helper_apart made
            (.helper owner left production index symbol drafted helperOf) helperOf.isHelper
          exact (unwritten (same ▸ (helper_of_listed rightListed).2)).elim
      | helper other _ otherProduction otherIndex otherSymbol otherDrafted otherOf =>
          rw [helperOf.name, otherOf.name] at same
          rcases helperName_injective same with ⟨owners, rfl, rfl⟩
          have sameOwner := inductionHypothesis otherDrafted owners
          subst sameOwner
          rcases helperOf.place with ⟨found, atPlace, atIndex⟩
          rcases otherOf.place with ⟨otherFound, otherAtPlace, otherAtIndex⟩
          have sameProduction := Option.some.inj (atPlace.symm.trans otherAtPlace)
          subst sameProduction
          have sameSymbol := Option.some.inj (atIndex.symm.trans otherAtIndex)
          subst sameSymbol
          exact helper_unique helperOf otherOf

/-- Helpers of one name stand for the same operator. -/
theorem HelpersApart.operator_unique (apart : grammar.HelpersApart)
    (made : grammar.toPlain = .ok plain) {owner other first second : Draft}
    (ownerDrafted : Drafted grammar.drafts owner) (otherDrafted : Drafted grammar.drafts other)
    {place otherPlace index otherIndex : Nat} {symbol otherSymbol : Symbol}
    (firstOf : owner.HelperOf place index symbol first)
    (secondOf : other.HelperOf otherPlace otherIndex otherSymbol second)
    (same : first.name = second.name) : symbol = otherSymbol := by
  rw [firstOf.name, secondOf.name] at same
  rcases helperName_injective same with ⟨owners, rfl, rfl⟩
  have sameOwner := apart.draft_unique made ownerDrafted otherDrafted owners
  subst sameOwner
  rcases firstOf.place with ⟨found, atPlace, atIndex⟩
  rcases secondOf.place with ⟨otherFound, otherAtPlace, otherAtIndex⟩
  have sameProduction := Option.some.inj (atPlace.symm.trans otherAtPlace)
  subst sameProduction
  exact Option.some.inj (atIndex.symm.trans otherAtIndex)

/-- The names of all rules, also of those that stand for operators; none if there is no plain
grammar. -/
def allRuleNames (grammar : Grammar) : List String :=
  match grammar.toPlain with
  | .ok plain => plain.rules.map PlainRule.name
  | .error _ => []

theorem mem_allRuleNames (made : grammar.toPlain = .ok plain) {draft : Draft}
    (drafted : Drafted grammar.drafts draft) : draft.name ∈ grammar.allRuleNames := by
  unfold allRuleNames
  rw [made]
  exact List.mem_map.mpr ⟨draft.plainRule, ((toPlain_eq made).1 _).mpr ⟨draft, drafted, rfl⟩, rfl⟩

theorem mem_allRuleNames_of_ruleNames (made : grammar.toPlain = .ok plain) {name : String}
    (member : name ∈ grammar.ruleNames) : name ∈ grammar.allRuleNames := by
  rcases List.mem_map.mp member with ⟨rule, listed, rfl⟩
  exact mem_allRuleNames made (.listed _ (mem_drafts_of_rule listed))

/-! ## The productions of the plain grammar -/

/-- A plain production comes from a production of a draft. -/
theorem draft_of_plain (made : grammar.toPlain = .ok plain) {pair : PlainRule × PlainProduction}
    (listed : pair ∈ plain.productions) :
    Exists fun draft => Exists fun index => Exists fun production =>
      Drafted grammar.drafts draft ∧ draft.productions[index]? = some production ∧
        pair = (draft.plainRule, plainProduction draft.name index production) := by
  rcases PlainGrammar.mem_productions.mp listed with ⟨ruleListed, productionListed⟩
  rcases ((toPlain_eq made).1 _).mp ruleListed with ⟨draft, drafted, same⟩
  rw [same] at productionListed
  rcases List.getElem?_of_mem productionListed with ⟨index, found⟩
  rw [plainRule, List.getElem?_mapIdx] at found
  rcases Option.map_eq_some_iff.mp found with ⟨production, atIndex, plainEq⟩
  exact ⟨draft, index, production, drafted, atIndex, Prod.ext same plainEq.symm⟩

/-- Every production of a draft is in the plain grammar. -/
theorem plain_of_draft (made : grammar.toPlain = .ok plain) {draft : Draft}
    (drafted : Drafted grammar.drafts draft) {index : Nat} {production : Production}
    (found : draft.productions[index]? = some production) :
    (draft.plainRule, plainProduction draft.name index production) ∈ plain.productions := by
  apply PlainGrammar.mem_productions.mpr
  refine ⟨((toPlain_eq made).1 _).mpr ⟨draft, drafted, rfl⟩, ?_⟩
  apply List.mem_of_getElem? (i := index)
  rw [plainRule, List.getElem?_mapIdx, found]
  rfl

/-- A name that is written and is not that of a rule is not that of a helper either. -/
theorem not_mem_allRuleNames (apart : grammar.HelpersApart) (made : grammar.toPlain = .ok plain)
    {name : String} (outside : name ∉ grammar.ruleNames) (written : name ∈ grammar.names) :
    name ∉ grammar.allRuleNames := by
  intro member
  unfold allRuleNames at member
  rw [made] at member
  rcases List.mem_map.mp member with ⟨rule, ruleListed, rfl⟩
  rcases ((toPlain_eq made).1 rule).mp ruleListed with ⟨draft, drafted, rfl⟩
  cases isHelper : draft.helper with
  | true => exact apart.helper_apart made drafted isHelper written
  | false =>
      cases drafted with
      | listed _ inDrafts =>
          rcases List.mem_map.mp inDrafts with ⟨rule, listed, rfl⟩
          exact outside (List.mem_map_of_mem listed)
      | helper owner _ place index symbol _ helperOf =>
          cases isHelper.symm.trans helperOf.isHelper

/-- A name that is not that of a rule is a terminal. -/
theorem not_nonterminal_of_outside (made : grammar.toPlain = .ok plain) {name : String}
    (outside : name ∉ grammar.allRuleNames) : ¬ plain.IsNonterminal name := by
  rintro ⟨pair, listed, same⟩
  rcases draft_of_plain made listed with ⟨draft, _, _, drafted, _, rfl⟩
  exact outside (same ▸ mem_allRuleNames made drafted)

/-- A name that is written and is not that of a rule is a terminal. -/
theorem not_nonterminal (apart : grammar.HelpersApart) (made : grammar.toPlain = .ok plain)
    {name : String} (outside : name ∉ grammar.ruleNames) (written : name ∈ grammar.names) :
    ¬ plain.IsNonterminal name :=
  not_nonterminal_of_outside made (not_mem_allRuleNames apart made outside written)

private theorem helperName_ne_empty (owner : String) (production index : Nat) :
    helperName owner production index ≠ "" := by
  intro empty
  have letters := congrArg String.toList empty
  simp [helperName] at letters

private theorem name_ne_empty (admissible : grammar.Admissible) {draft : Draft}
    (drafted : Drafted grammar.drafts draft) : draft.name ≠ "" := by
  cases drafted with
  | listed draft member =>
      intro empty
      exact admissible.named (empty ▸ (helper_of_listed member).2)
  | helper owner draft production index symbol _ helperOf =>
      rw [helperOf.name]
      exact helperName_ne_empty owner.name production index

/-- The plain grammar has no empty names. -/
theorem Admissible.plain_named (admissible : grammar.Admissible)
    (made : grammar.toPlain = .ok plain) : plain.Named := by
  intro rule ruleListed
  rcases ((toPlain_eq made).1 rule).mp ruleListed with ⟨draft, drafted, rfl⟩
  refine ⟨name_ne_empty admissible drafted, ?_⟩
  intro plainProduction productionListed empty
  rcases List.getElem?_of_mem productionListed with ⟨place, found⟩
  rw [plainRule, List.getElem?_mapIdx] at found
  rcases Option.map_eq_some_iff.mp found with ⟨production, atPlace, rfl⟩
  rcases List.getElem?_of_mem empty with ⟨index, atIndex⟩
  unfold Draft.plainProduction at atIndex
  dsimp only at atIndex
  rw [getElem?_plainNames] at atIndex
  rcases Option.map_eq_some_iff.mp atIndex with ⟨symbol, inside, isEmpty⟩
  cases isName : symbol.asName? with
  | none =>
      rw [plainName_operator isName] at isEmpty
      exact helperName_ne_empty _ _ _ isEmpty
  | some word =>
      have same := eq_name_of_asName? isName
      subst same
      have word : word = "" := isEmpty
      subst word
      have symbolListed := List.mem_of_getElem? inside
      rcases writes_of_drafted drafted (List.mem_of_getElem? atPlace) with
        all | ⟨_, rest, split, others⟩
      · exact admissible.named (mem_names_of_writes (all _ symbolListed))
      · rw [split] at symbolListed
        rcases List.mem_cons.mp symbolListed with own | after
        · exact name_ne_empty admissible drafted (Symbol.name.inj own).symm
        · exact admissible.named (mem_names_of_writes (others _ after))

/-! ## Helpers in a production -/

/-- The name is that of a helper of the grammar. -/
def IsHelper (grammar : Grammar) (name : String) : Prop :=
  Exists fun draft => Drafted grammar.drafts draft ∧ draft.helper = true ∧ draft.name = name

theorem helperName_ne_owner (owner : String) (production index : Nat) :
    helperName owner production index ≠ owner := by
  intro same
  have length := congrArg (fun name : String => name.toList.length) same
  simp [helperName] at length

theorem not_helper_of_mem_names (apart : grammar.HelpersApart)
    (made : grammar.toPlain = .ok plain) {name : String} (member : name ∈ grammar.names) :
    ¬ grammar.IsHelper name := by
  rintro ⟨draft, drafted, isHelper, rfl⟩
  exact apart.helper_apart made drafted isHelper member

theorem root_mem_names (made : grammar.toPlain = .ok plain) : plain.root ∈ grammar.names :=
  List.mem_append_left _ (root_mem_ruleNames (toPlain_eq made).2.2)

/-- A helper in a production is that of an operator at its place, or the rule itself in front. -/
theorem helper_at (apart : grammar.HelpersApart) (made : grammar.toPlain = .ok plain)
    {draft : Draft} (drafted : Drafted grammar.drafts draft) {place : Nat} {production : Production}
    (found : draft.productions[place]? = some production) {index : Nat} {name : String}
    (atIndex : (plainNames draft.name place 0 production.symbols)[index]? = some name)
    (isHelper : grammar.IsHelper name) :
    (hasOperator production.symbols = true ∧ name = helperName draft.name place index) ∨
      (index = 0 ∧ name = draft.name) := by
  rw [getElem?_plainNames, Nat.zero_add] at atIndex
  rcases Option.map_eq_some_iff.mp atIndex with ⟨symbol, inside, isName⟩
  cases isWord : symbol.asName? with
  | none =>
      left
      rw [plainName_operator isWord] at isName
      refine ⟨List.any_eq_true.mpr ⟨symbol, List.mem_of_getElem? inside, ?_⟩, isName.symm⟩
      rw [isWord]
      rfl
  | some word =>
      right
      have same := eq_name_of_asName? isWord
      subst same
      have equal : word = name := isName
      subst equal
      have written : ¬ grammar.Writes (.name _) := fun writes =>
        not_helper_of_mem_names apart made (mem_names_of_writes writes) isHelper
      rcases writes_of_drafted drafted (List.mem_of_getElem? found) with
        all | ⟨_, rest, split, others⟩
      · exact (written (all _ (List.mem_of_getElem? inside))).elim
      · rw [split] at inside
        cases index with
        | zero =>
            rw [List.getElem?_cons_zero, Option.some.injEq] at inside
            exact ⟨rfl, (Symbol.name.inj inside).symm⟩
        | succ index => exact (written (others _ (List.mem_of_getElem? inside))).elim

/-- No helper occurs twice in a production. -/
theorem helpers_distinct (apart : grammar.HelpersApart) (made : grammar.toPlain = .ok plain)
    {draft : Draft} (drafted : Drafted grammar.drafts draft) {place : Nat} {production : Production}
    (found : draft.productions[place]? = some production) :
    (plainNames draft.name place 0 production.symbols).Pairwise fun left right =>
      grammar.IsHelper left -> left ≠ right := by
  rw [List.pairwise_iff_getElem]
  intro first second firstInside secondInside less isHelper same
  have atFirst := helper_at apart made drafted found
    (List.getElem?_eq_getElem firstInside) isHelper
  have atSecond := helper_at apart made drafted found
    (List.getElem?_eq_getElem secondInside) (same ▸ isHelper)
  rcases atFirst with ⟨_, firstName⟩ | ⟨rfl, firstName⟩
  · rcases atSecond with ⟨_, secondName⟩ | ⟨rfl, _⟩
    · have indices := helperName_injective (firstName.symm.trans (same.trans secondName))
      exact Nat.ne_of_lt less indices.2.2
    · exact Nat.not_lt_zero _ less
  · rcases atSecond with ⟨_, secondName⟩ | ⟨rfl, _⟩
    · exact helperName_ne_owner draft.name place second
        (secondName.symm.trans (same.symm.trans firstName))
    · exact Nat.lt_irrefl _ less

/-- A helper's own name stands for none of the symbols that are written in the grammar. -/
theorem own_not_mem (apart : grammar.HelpersApart) (made : grammar.toPlain = .ok plain)
    {draft : Draft} (drafted : Drafted grammar.drafts draft) (isHelper : draft.helper = true)
    (place start : Nat) {symbols : List Symbol}
    (writes : forall symbol, symbol ∈ symbols -> grammar.Writes symbol) :
    draft.name ∉ plainNames draft.name place start symbols := by
  intro member
  rcases List.getElem?_of_mem member with ⟨index, atIndex⟩
  rw [getElem?_plainNames] at atIndex
  rcases Option.map_eq_some_iff.mp atIndex with ⟨symbol, inside, isName⟩
  cases isWord : symbol.asName? with
  | none =>
      rw [plainName_operator isWord] at isName
      exact helperName_ne_owner _ _ _ isName
  | some word =>
      have same := eq_name_of_asName? isWord
      subst same
      have equal : word = draft.name := isName
      have written := mem_names_of_writes (writes _ (List.mem_of_getElem? inside))
      rw [equal] at written
      exact apart.helper_apart made drafted isHelper written

/-- A helper is that of an operator of a draft. -/
theorem operator_of_helper {draft : Draft} (drafted : Drafted grammar.drafts draft)
    (isHelper : draft.helper = true) :
    Exists fun owner => Exists fun place => Exists fun index => Exists fun symbol =>
      Drafted grammar.drafts owner ∧ owner.HelperOf place index symbol draft := by
  cases drafted with
  | listed draft member =>
      rw [(helper_of_listed member).1] at isHelper
      cases isHelper
  | helper owner draft place index symbol ownerDrafted helperOf =>
      exact ⟨owner, place, index, symbol, ownerDrafted, helperOf⟩

/-! ## Grammars that take no helper's name -/

/-- The names of helpers have a form of their own. -/
theorem helpersApart_of_names (names : forall name, name ∈ grammar.names -> ¬ IsHelperName name) :
    grammar.HelpersApart := by
  intro plain made rule listed isHelper written
  rcases ((toPlain_eq made).1 rule).mp listed with ⟨draft, drafted, rfl⟩
  rcases operator_of_helper drafted isHelper with ⟨owner, place, index, symbol, _, helperOf⟩
  refine names _ written ?_
  change IsHelperName draft.name
  rw [helperOf.name]
  exact isHelperName_helperName _ _ _

/-- If no name has a mark, none is that of a helper. -/
theorem helpersApart_of_markless
    (markless : forall name, name ∈ grammar.names -> '#' ∉ name.toList) : grammar.HelpersApart :=
  helpersApart_of_names fun name written => not_isHelperName (markless name written)

/-- A grammar that reports everything under names without a mark is admissible. -/
theorem admissible_of_reports (reports : forall rule, rule ∈ grammar.rules ->
      forall production, production ∈ rule.productions -> production.emit = .report)
    (named : "" ∉ grammar.names)
    (markless : forall name, name ∈ grammar.names -> '#' ∉ name.toList) : grammar.Admissible :=
  ⟨fun rule listed production chosen => Or.inr (Or.inl (reports rule listed production chosen)),
    named, helpersApart_of_markless markless⟩

end Grammar

end ShiftReduce
