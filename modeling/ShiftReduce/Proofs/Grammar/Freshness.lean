import Mathlib.Data.List.Nodup
import ShiftReduce.Proofs.Ebnf.RoundTrip
import ShiftReduce.Proofs.Grammar.Origins

namespace ShiftReduce

/-!
# Helpers with names of their own

Different helpers have different names.  Helpers of one draft stand for different places, and those of
different drafts are told apart by the drafts' names.  All names on one level of nesting have the same
number of marks, and those on the next level have two more, so no two levels share a name.

In a grammar that is read from a text the names of rules are identifiers, which have no marks.  A name
that is quoted can have them, and if it is that of a helper, the helper is what it refers to.
-/

namespace Draft

/-! ## One level -/

private theorem nodup_rewriteSymbols {owner : String} {production start : Nat} {symbols : List Symbol}
    {names : List String} {helpers : List Draft}
    (rewritten : rewriteSymbols owner production start symbols = .ok (names, helpers)) :
    (helpers.map Draft.name).Nodup := by
  induction symbols generalizing start names helpers with
  | nil =>
      cases rewritten
      exact List.nodup_nil
  | cons symbol rest inductionHypothesis =>
      cases isName : symbol.asName? with
      | some word =>
          rw [eq_name_of_asName? isName, rewriteSymbols] at rewritten
          rcases of_bind_eq_ok rewritten with ⟨⟨others, more⟩, later, made⟩
          cases made
          exact inductionHypothesis later
      | none =>
          rw [rewriteSymbols_operator isName] at rewritten
          rcases of_bind_eq_ok rewritten with ⟨productions, _, others⟩
          rcases of_bind_eq_ok others with ⟨⟨names, more⟩, later, made⟩
          cases made
          refine List.nodup_cons.mpr ⟨fun again => ?_, inductionHypothesis later⟩
          -- What comes later stands for later places.
          rcases List.mem_map.mp again with ⟨helper, listed, same⟩
          rcases (rewriteSymbols_eq later).2.2.listed helper listed with ⟨index, _, _, _, _, name, _⟩
          have places := helperName_injective (name.symm.trans same)
          omega

private theorem nodup_rewriteProductions {owner : String} {start : Nat} {productions : List Production}
    {plain : List PlainProduction} {helpers : List Draft}
    (rewritten : rewriteProductions owner start productions = .ok (plain, helpers)) :
    (helpers.map Draft.name).Nodup := by
  induction productions generalizing start plain helpers with
  | nil =>
      cases rewritten
      exact List.nodup_nil
  | cons production rest inductionHypothesis =>
      rw [rewriteProductions] at rewritten
      rcases of_bind_eq_ok rewritten with ⟨⟨first, own⟩, here, remaining⟩
      rcases of_bind_eq_ok remaining with ⟨⟨others, more⟩, later, made⟩
      cases made
      have ownNodup : (own.map Draft.name).Nodup := by
        rw [rewriteProduction] at here
        rcases of_bind_eq_ok here with ⟨⟨names, drafts⟩, symbols, made⟩
        cases made
        exact nodup_rewriteSymbols symbols
      rw [List.map_append, List.nodup_append]
      refine ⟨ownNodup, inductionHypothesis later, List.forall_mem_map.mpr fun helper listed =>
        List.forall_mem_map.mpr fun other otherListed same => ?_⟩
      rcases (rewriteProduction_eq here).2.listed helper listed with ⟨_, _, _, _, _, name, _⟩
      rcases (rewriteProductions_eq later).2.1 other otherListed with
        ⟨index, _, _, _, inOthers, othersOf⟩
      rcases othersOf.listed other inOthers with ⟨_, _, _, _, _, otherName, _⟩
      have places := helperName_injective (name.symm.trans (same.trans otherName))
      omega

/-- The helpers of drafts with different names have different names. -/
theorem nodup_rewriteEach {drafts helpers : List Draft} {rules : List PlainRule}
    (rewritten : rewriteEach drafts = .ok (rules, helpers))
    (distinct : (drafts.map Draft.name).Nodup) : (helpers.map Draft.name).Nodup := by
  induction drafts generalizing rules helpers with
  | nil =>
      cases rewritten
      exact List.nodup_nil
  | cons draft rest inductionHypothesis =>
      rw [rewriteEach] at rewritten
      rcases of_bind_eq_ok rewritten with ⟨⟨rule, own⟩, here, remaining⟩
      rcases of_bind_eq_ok remaining with ⟨⟨others, more⟩, later, made⟩
      cases made
      have ownNodup : (own.map Draft.name).Nodup := by
        rw [rewrite] at here
        rcases of_bind_eq_ok here with ⟨⟨productions, drafts⟩, all, made⟩
        cases made
        exact nodup_rewriteProductions all
      have parts := List.nodup_cons.mp distinct
      rw [List.map_append, List.nodup_append]
      refine ⟨ownNodup, inductionHypothesis later parts.2, List.forall_mem_map.mpr fun helper listed =>
        List.forall_mem_map.mpr fun other otherListed same => ?_⟩
      rcases (rewrite_eq here).2.1 helper listed with ⟨_, _, _, helperOf⟩
      rcases (rewriteEach_eq later).2.1 other otherListed with ⟨owner, _, _, _, inRest, otherOf⟩
      rw [helperOf.name, otherOf.name] at same
      exact parts.1 ((helperName_injective same).1 ▸ List.mem_map_of_mem inRest)

/-! ## All levels -/

/-- How many marks the name has. -/
def marks (name : String) : Nat := name.toList.count '#'

theorem marks_helperName (owner : String) (production index : Nat) :
    marks (helperName owner production index) = marks owner + 2 := by
  unfold marks
  rw [toList_helperName, List.count_append, List.count_append, List.count_cons_self,
    List.count_cons_self, List.count_eq_zero.mpr (mark_not_mem production),
    List.count_eq_zero.mpr (mark_not_mem index)]

/-- Rules of different names with equally many marks are rewritten into rules of different names. -/
theorem nodup_rewriteLevels {levels count : Nat} {drafts : List Draft} {rules : List PlainRule}
    (rewritten : rewriteLevels levels drafts = .ok rules) (distinct : (drafts.map Draft.name).Nodup)
    (level : forall draft, draft ∈ drafts -> marks draft.name = count) :
    (rules.map PlainRule.name).Nodup ∧
      forall rule, rule ∈ rules -> count ≤ marks rule.name := by
  induction levels generalizing drafts rules count with
  | zero =>
      cases rewritten
      exact ⟨List.nodup_nil, fun _ impossible => (List.not_mem_nil impossible).elim⟩
  | succ levels inductionHypothesis =>
      rw [rewriteLevels_succ] at rewritten
      rcases of_bind_eq_ok rewritten with ⟨⟨first, helpers⟩, each, remaining⟩
      rcases of_bind_eq_ok remaining with ⟨more, later, made⟩
      rcases rewriteEach_eq each with ⟨rfl, listed, _⟩
      cases made
      have deeper : forall helper, helper ∈ helpers -> marks helper.name = count + 2 := by
        intro helper member
        rcases listed helper member with ⟨owner, _, _, _, inDrafts, helperOf⟩
        rw [helperOf.name, marks_helperName, level owner inDrafts]
      rcases inductionHypothesis later (nodup_rewriteEach each distinct) deeper with
        ⟨others, above⟩
      have same : (drafts.map plainRule).map PlainRule.name = drafts.map Draft.name := by
        rw [List.map_map]
        rfl
      constructor
      · rw [List.map_append, same, List.nodup_append]
        refine ⟨distinct, others, List.forall_mem_map.mpr fun draft inDrafts =>
          List.forall_mem_map.mpr fun rule inMore same => ?_⟩
        have more := above rule inMore
        rw [← same, level draft inDrafts] at more
        omega
      · intro rule member
        rcases List.mem_append.mp member with here | there
        · rcases List.mem_map.mp here with ⟨draft, inDrafts, rfl⟩
          exact Nat.le_of_eq (level draft inDrafts).symm
        · exact Nat.le_trans (Nat.le_add_right _ _) (above rule there)

end Draft

namespace Grammar

open Draft

variable {grammar : Grammar} {plain : PlainGrammar}

/-- No two rules of the plain grammar have the same name. -/
theorem RulesMarkless.nodup_names (markless : grammar.RulesMarkless)
    (made : grammar.toPlain = .ok plain) : (plain.rules.map PlainRule.name).Nodup := by
  have distinct : (grammar.drafts.map Draft.name).Nodup := by
    rw [drafts, List.map_map]
    exact grammar.distinct
  have unmarked : forall draft, draft ∈ grammar.drafts -> marks draft.name = 0 := by
    intro draft listed
    rcases List.mem_map.mp listed with ⟨rule, inRules, rfl⟩
    exact List.count_eq_zero.mpr (markless rule inRules)
  exact (nodup_rewriteLevels (rewriteLevels_of_toPlain made).2 distinct unmarked).1

/-- Who has the name of a helper is named after a place in a rule. -/
theorem RulesMarkless.of_isHelper (markless : grammar.RulesMarkless) {name : String}
    (isHelper : grammar.IsHelper name) :
    IsHelperName name ∧ Collections.ownerOf name ∈ grammar.ruleNames := by
  rcases isHelper with ⟨draft, drafted, isHelper, rfl⟩
  rcases operator_of_helper drafted isHelper with ⟨owner, place, index, symbol, _, helperOf⟩
  rcases markless.rule_of_drafted drafted with ⟨rule, listed, same, _⟩
  refine ⟨?_, ?_⟩
  · rw [helperOf.name]
    exact isHelperName_helperName _ _ _
  · rw [same]
    exact List.mem_map_of_mem listed

theorem isHelper_iff (made : grammar.toPlain = .ok plain) {name : String} :
    grammar.IsHelper name ↔
      Exists fun rule => rule ∈ plain.rules ∧ rule.helper = true ∧ rule.name = name := by
  constructor
  · rintro ⟨draft, drafted, isHelper, same⟩
    exact ⟨draft.plainRule, ((toPlain_eq made).1 _).mpr ⟨draft, drafted, rfl⟩, isHelper, same⟩
  · rintro ⟨rule, listed, isHelper, same⟩
    rcases ((toPlain_eq made).1 rule).mp listed with ⟨draft, drafted, rfl⟩
    exact ⟨draft, drafted, isHelper, same⟩

/-! ## Grammars that are read -/

theorem mark_not_mem_of_isIdentifier {name : String} (identifier : isIdentifier name = true) :
    '#' ∉ name.toList := by
  unfold isIdentifier at identifier
  cases letters : name.toList with
  | nil => exact List.not_mem_nil
  | cons c rest =>
      rw [letters, Bool.and_eq_true, List.all_eq_true] at identifier
      intro member
      rcases List.mem_cons.mp member with rfl | later
      · exact absurd identifier.1 (by decide)
      · exact absurd (identifier.2 '#' later) (by decide)

theorem rulesMarkless_of_ofText {text : String} (read : ofText text = .ok grammar) :
    grammar.RulesMarkless :=
  fun rule listed => mark_not_mem_of_isIdentifier ((expressible_of_ofText read).2 rule listed).name

/-- The rules that are added to a grammar which is read from a text differ in their names from one
another and from the rules that are written.  A name that is written is that of a helper only if it is
quoted and has the form of a place in a rule, so all helpers have names of their own exactly if no
quoted name is that of a helper. -/
theorem helpersApart_iff_quoted {text : String} (read : ofText text = .ok grammar)
    (made : grammar.toPlain = .ok plain) :
    (plain.rules.map PlainRule.name).Nodup ∧
    (forall rule, rule ∈ plain.rules -> rule.helper = true -> rule.name ∉ grammar.ruleNames) ∧
    (forall name, name ∈ grammar.names -> grammar.IsHelper name -> isIdentifier name = false ∧
      IsHelperName name ∧ Collections.ownerOf name ∈ grammar.ruleNames) ∧
    (grammar.HelpersApart ↔ forall name, name ∈ grammar.names -> isIdentifier name = false ->
      ¬ grammar.IsHelper name) := by
  have markless := rulesMarkless_of_ofText read
  have quoted : forall name, grammar.IsHelper name -> isIdentifier name = false := by
    intro name isHelper
    rcases (markless.of_isHelper isHelper).1 with ⟨place, rfl⟩
    by_contra identifier
    exact mark_not_mem_of_isIdentifier ((Bool.not_eq_false _).mp identifier)
      (mark_mem_helperName _ _ _)
  refine ⟨markless.nodup_names made, ?_, ?_, ?_, ?_⟩
  · intro rule listed isHelper written
    rcases (markless.of_isHelper ((isHelper_iff made).mpr ⟨rule, listed, isHelper, rfl⟩)).1 with
      ⟨place, same⟩
    exact markless.not_mem_ruleNames (mark_mem_helperName _ _ _) (same ▸ written)
  · exact fun name _ isHelper => ⟨quoted name isHelper, markless.of_isHelper isHelper⟩
  · exact fun apart name member _ => not_helper_of_mem_names apart made member
  · intro unquoted other otherMade rule listed isHelper written
    have helper := (isHelper_iff otherMade).mpr ⟨rule, listed, isHelper, rfl⟩
    exact unquoted rule.name written (quoted _ helper) helper

/-- The only quoted name of the quoted items is the apostrophe. -/
theorem helpersApart_quotedItems :
    Exists fun plain => quotedItems.toPlain = .ok plain ∧
      (plain.rules.map PlainRule.name).Nodup ∧ quotedItems.HelpersApart := by
  have normal : quotedItems.simplify = quotedItems := by decide
  have read : ofText quotedItems.display = .ok quotedItems :=
    (ofText_display_of_expressible expressible_quotedItems).trans (congrArg Except.ok normal)
  have made : quotedItems.toPlain = .ok _ := eq_ok_of_isOk (by decide +kernel)
  rcases helpersApart_iff_quoted read made with ⟨distinct, _, _, apart⟩
  refine ⟨_, made, distinct, apart.mpr fun name member _ isHelper => ?_⟩
  have unmarked : forall name, name ∈ quotedItems.names -> '#' ∉ name.toList := by decide +kernel
  exact not_isHelperName (unmarked name member) ((rulesMarkless_of_ofText read).of_isHelper isHelper).1

/-- A repetition, and a token with the name of its helper. -/
def capturing : Grammar :=
  ⟨[⟨"A", [{ symbols := [.repeat0 [.name "x"], .name "A#0#0"] }]⟩], List.nodup_singleton _⟩

theorem expressible_capturing : capturing.Expressible := by
  have name : forall word, Writable word -> (Symbol.name word).Everywhere Symbol.Spelled :=
    fun _ writable => Symbol.everywhere_iff.mpr ⟨writable, nofun⟩
  intro rule member
  rw [List.mem_singleton.mp member]
  refine ⟨by decide, by decide, fun production chosen => ?_⟩
  rw [List.mem_singleton.mp chosen]
  refine ⟨Or.inl rfl, nofun, fun symbol inside => ?_⟩
  rcases List.mem_pair.mp inside with rfl | rfl
  · refine Symbol.everywhere_iff.mpr ⟨trivial, fun child member => ?_⟩
    rw [List.mem_singleton.mp member]
    exact name "x" ⟨by decide, by decide⟩
  · exact name "A#0#0" ⟨by decide, by decide⟩

end Grammar

/-- Parses with the table of that grammar. -/
def Setting.capturing : Setting TokenList :=
  ⟨(Grammar.capturing.compile.toOption).getD default, TokenList.source, [], none⟩

/-- The quoted name is not that of a rule, so it should be that of a token.  It refers to the helper, and
a text without such a token is accepted. -/
theorem Grammar.captures_quoted :
    ofText "A = (x)* 'A#0#0';\n" = .ok capturing ∧ "A#0#0" ∈ capturing.names ∧
    "A#0#0" ∉ capturing.ruleNames ∧
    (Exists fun plain => capturing.toPlain = .ok plain ∧ plain.isHelper "A#0#0" = true) ∧
    capturing.compile = .ok Setting.capturing.table ∧
    (Setting.capturing.parse ⟨[], .start, none⟩).outcome = .accepted := by
  have normal : capturing.simplify = capturing := by decide
  have written : capturing.display = "A = (x)* 'A#0#0';\n" := by decide +kernel
  have read : ofText capturing.display = .ok capturing :=
    (ofText_display_of_expressible expressible_capturing).trans (congrArg Except.ok normal)
  have runs : (Setting.capturing.run 20 (.start ⟨[], .start, none⟩)).1 = .accepted := by
    decide +kernel
  refine ⟨written ▸ read, by decide +kernel, by decide, ⟨_, eq_ok_of_isOk (by decide +kernel), ?_⟩,
    eq_ok_of_isOk (by decide +kernel), Setting.outcome_of_run runs Outcome.noConfusion⟩
  decide +kernel

end ShiftReduce
