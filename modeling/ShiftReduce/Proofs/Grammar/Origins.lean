import Mathlib.Data.List.TakeWhile
import ShiftReduce.Parse.Collect
import ShiftReduce.Proofs.Grammar.Refusals

namespace ShiftReduce

/-!
# The rule that a helper comes from

Every draft comes from a rule of the author's: it is that of the rule, or stands for an operator in a
draft that comes from it.  If the rules have no marks in their names, the name of a draft tells the rule,
since helpers only add behind its first mark.  Whatever operator stands in the draft is written in that
rule.

A complaint about an operator names the draft that the operator stands in directly.  This is the rule
itself for an operator that is in no other.  For one inside another it is a helper, and no rule has such
a name.  Operators of rules are looked at before those of helpers, so which of the two it is depends on
whether some malformed operator is in no other.
-/

namespace Draft

/-! ## The part before the mark -/

private theorem takeWhile_marked (front back : List Char) :
    (front ++ '#' :: back).takeWhile (· ≠ '#') = front.takeWhile (· ≠ '#') := by
  induction front with
  | nil => rfl
  | cons letter rest inductionHypothesis =>
      rw [List.cons_append, List.takeWhile_cons, List.takeWhile_cons, inductionHypothesis]

/-- A helper belongs to the same rule as what it stands in. -/
theorem ownerOf_helperName (owner : String) (production index : Nat) :
    Collections.ownerOf (helperName owner production index) = Collections.ownerOf owner := by
  unfold Collections.ownerOf
  rw [toList_helperName, takeWhile_marked, takeWhile_marked]

/-- A name without a mark is that of the rule itself. -/
theorem ownerOf_markless {name : String} (markless : '#' ∉ name.toList) :
    Collections.ownerOf name = name := by
  unfold Collections.ownerOf
  rw [List.takeWhile_eq_self_iff.mpr, String.ofList_toList]
  intro letter inside
  exact decide_eq_true fun mark => markless (mark ▸ inside)

/-- Whatever is drafted is drafted from one of the list alone, and its name tells of which. -/
theorem exists_origin {drafts : List Draft} {draft : Draft} (drafted : Drafted drafts draft) :
    Exists fun origin => origin ∈ drafts ∧ Drafted [origin] draft ∧
      Collections.ownerOf draft.name = Collections.ownerOf origin.name := by
  induction drafted with
  | listed draft member => exact ⟨draft, member, .listed draft List.mem_cons_self, rfl⟩
  | helper owner helper production index symbol _ helperOf inductionHypothesis =>
      rcases inductionHypothesis with ⟨origin, member, drafted, same⟩
      refine ⟨origin, member, .helper owner helper production index symbol drafted helperOf, ?_⟩
      rw [helperOf.name, ownerOf_helperName, same]

end Draft

namespace Rule

/-- The symbol is written in the rule, maybe inside an operator. -/
def Writes (rule : Rule) (symbol : Symbol) : Prop :=
  Exists fun production => Exists fun outer => production ∈ rule.productions ∧
    outer ∈ production.symbols ∧ Symbol.Contains outer symbol

/-- The symbol is written in the rule, inside no operator. -/
def WritesOutside (rule : Rule) (symbol : Symbol) : Prop :=
  Exists fun production => production ∈ rule.productions ∧ symbol ∈ production.symbols

/-- A grammar of one rule. -/
def alone (rule : Rule) : Grammar := ⟨[rule], List.nodup_singleton _⟩

theorem writes_of_alone {rule : Rule} {symbol : Symbol} (writes : rule.alone.Writes symbol) :
    rule.Writes symbol := by
  rcases writes with ⟨other, production, outer, listed, others⟩
  rw [List.mem_singleton.mp listed] at others
  exact ⟨production, outer, others⟩

end Rule

namespace Grammar

open Draft

variable {grammar : Grammar}

/-- No rule has a mark in its name. -/
def RulesMarkless (grammar : Grammar) : Prop :=
  forall rule, rule ∈ grammar.rules -> '#' ∉ rule.name.toList

/-- The rule that a draft comes from has its operators, and its name is in front of the mark. -/
theorem RulesMarkless.rule_of_drafted (markless : grammar.RulesMarkless) {draft : Draft}
    (drafted : Drafted grammar.drafts draft) :
    Exists fun rule => rule ∈ grammar.rules ∧ Collections.ownerOf draft.name = rule.name ∧
      forall production, production ∈ draft.productions -> forall symbol,
        symbol ∈ production.symbols -> symbol.asName? = none -> rule.Writes symbol := by
  rcases exists_origin drafted with ⟨origin, member, fromOrigin, same⟩
  rcases List.mem_map.mp member with ⟨rule, listed, rfl⟩
  refine ⟨rule, listed, same.trans (ownerOf_markless (markless rule listed)), ?_⟩
  intro production inDraft symbol inside operator
  have drafted : Drafted rule.alone.drafts draft := fromOrigin
  exact Rule.writes_of_alone (writes_of_operator drafted inDraft inside operator)

/-! ## Complaints -/

/-- Some operator that is inside no other is malformed. -/
def FaultyOutside (grammar : Grammar) : Prop :=
  Exists fun rule => Exists fun symbol => rule ∈ grammar.rules ∧ rule.WritesOutside symbol ∧
    symbol.Malformed

/-- A malformed operator outside of others is met before any helper is looked at. -/
theorem FaultyOutside.refused (faulty : grammar.FaultyOutside) {failure : GrammarError}
    (failed : grammar.toPlain = .error failure) :
    Exists fun draft => draft ∈ grammar.drafts ∧ draft.Refused failure := by
  rcases faulty with ⟨rule, symbol, listed, ⟨production, inRule, inside⟩, malformed⟩
  unfold toPlain at failed
  split at failed
  next none =>
    rw [List.isEmpty_iff.mp none] at listed
    cases listed
  next =>
    rcases of_bind_eq_error failed with refused | ⟨_, _, impossible⟩
    · rw [rewriteLevels_succ] at refused
      rcases of_bind_eq_error refused with here | ⟨_, each, _⟩
      · exact rewriteEach_eq_error here
      · -- All operators of the rules would have helpers, the malformed one among them.
        have supplied := ((rewriteEach_eq each).2.2 _ (mem_drafts_of_rule listed)).1
        exact (supplied.not_malformed inRule inside malformed).elim
    · cases impossible

theorem RulesMarkless.not_mem_ruleNames (markless : grammar.RulesMarkless) {name : String}
    (marked : '#' ∈ name.toList) : name ∉ grammar.ruleNames := by
  intro member
  rcases List.mem_map.mp member with ⟨rule, listed, rfl⟩
  exact markless rule listed marked

/-- A complaint is about an operator of a rule and names the rule, or a helper that belongs to it.  It
names the rule exactly if some malformed operator is inside no other. -/
theorem RulesMarkless.blames (markless : grammar.RulesMarkless) {failure : GrammarError}
    (failed : grammar.toPlain = .error failure) :
    (grammar.rules = [] ∧ failure = .empty) ∨
    Exists fun rule => Exists fun symbol => Exists fun named => rule ∈ grammar.rules ∧
      rule.Writes symbol ∧ symbol.Fault named failure ∧ Collections.ownerOf named = rule.name ∧
      (grammar.FaultyOutside -> named = rule.name) ∧
      (¬ grammar.FaultyOutside -> named ∉ grammar.ruleNames) := by
  by_cases faulty : grammar.FaultyOutside
  · right
    rcases faulty.refused failed with ⟨draft, listed, production, symbol, inDraft, inside, fault⟩
    rcases List.mem_map.mp listed with ⟨rule, inRules, rfl⟩
    exact ⟨rule, symbol, rule.name, inRules, ⟨production, symbol, inDraft, inside, .refl symbol⟩,
      fault, ownerOf_markless (markless rule inRules), fun _ => rfl, fun sound => (sound faulty).elim⟩
  · refine (toPlain_eq_error failed).imp id ?_
    rintro ⟨draft, drafted, production, symbol, inDraft, inside, fault⟩
    rcases markless.rule_of_drafted drafted with ⟨rule, inRules, owner, operators⟩
    refine ⟨rule, symbol, draft.name, inRules,
      operators production inDraft symbol inside fault.operator, fault, owner,
      fun impossible => (faulty impossible).elim, fun _ => ?_⟩
    cases drafted with
    | listed _ listed =>
        rcases List.mem_map.mp listed with ⟨other, inRules, rfl⟩
        exact (faulty ⟨other, symbol, inRules, ⟨production, inDraft, inside⟩,
          (Symbol.malformed_iff_fault other.name symbol).mpr ⟨failure, fault⟩⟩).elim
    | helper outer _ place index operator _ helperOf =>
        rw [helperOf.name]
        exact markless.not_mem_ruleNames (mark_mem_helperName _ _ _)

end Grammar

end ShiftReduce
