import Mathlib.Data.List.Perm.Basic
import Mathlib.Data.List.Sigma
import ShiftReduce.Proofs.Grammar.Relocation
import ShiftReduce.Proofs.Table.Renumbering

namespace ShiftReduce

/-!
# Grammars that are written in another order

Two grammars can have the same root and the same rules with the same productions, while the rules
behind the first, and the productions of each rule, are in another order.  Their plain grammars are
then renumberings of one another: the helpers of an operator are named after another production, and
so are theirs in turn, but otherwise only the order of productions changes.

Rewriting goes by levels of nesting, and on each level the productions that are rewritten are the
same for both grammars, but for their places.  This is the invariant; it holds of the rules as they
are written, and it hands itself on from the productions of a level to their helpers.
-/

/-- The productions of a grammar as a parse sees them. -/
def PlainGrammar.reduceRules (grammar : PlainGrammar) : List ReduceRule :=
  grammar.productions.map PlainGrammar.reduceRule

theorem PlainGrammar.reduceRules_append (front back : List PlainRule) :
    PlainGrammar.reduceRules ⟨front ++ back⟩ =
      PlainGrammar.reduceRules ⟨front⟩ ++ PlainGrammar.reduceRules ⟨back⟩ := by
  unfold reduceRules productions
  rw [List.flatMap_append, List.map_append]

/-- A production with its rule and the number that it has there. -/
structure PlacedProduction where
  owner : String
  helper : Bool
  place : Nat
  production : Production

namespace PlacedProduction

open Draft

/-- The production without its operators, and the drafts of its helpers. -/
def rewrite (placed : PlacedProduction) : Except GrammarError (PlainProduction × List Draft) :=
  rewriteProduction placed.owner placed.place placed.production

/-- The drafts of its helpers; none if some operator is malformed. -/
def helpers (placed : PlacedProduction) : List Draft :=
  match placed.rewrite with
  | .ok result => result.2
  | .error _ => []

/-- The rule that a table has for the production. -/
def rule (placed : PlacedProduction) : ReduceRule :=
  PlainGrammar.reduceRule (⟨placed.owner, [], placed.helper⟩,
    plainProduction placed.owner placed.place placed.production)

/-- The productions of drafts, in order. -/
def ofEach (drafts : List Draft) : List PlacedProduction :=
  drafts.flatMap fun draft => draft.productions.zipIdx.map fun numbered =>
    ⟨draft.name, draft.helper, numbered.2, numbered.1⟩

/-- The production at its new place. -/
noncomputable def relocate (places : String -> Equiv.Perm Nat) (placed : PlacedProduction) :
    PlacedProduction where
  owner := Draft.relocate places placed.owner
  helper := placed.helper
  place := if placed.helper then placed.place else places placed.owner placed.place
  production := placed.production.rename (Draft.relocate places)

/-! ## Rewriting one level -/

private theorem rewriteProductions_iff {owner : String} {start : Nat}
    {productions : List Production} {plain : List PlainProduction} {drafts : List Draft} :
    rewriteProductions owner start productions = .ok (plain, drafts) ↔
      (forall numbered, numbered ∈ productions.zipIdx start -> Exists fun result =>
        rewriteProduction owner numbered.2 numbered.1 = .ok result) ∧
      plain = (productions.zipIdx start).map
        (fun numbered => plainProduction owner numbered.2 numbered.1) ∧
      drafts = (productions.zipIdx start).flatMap fun numbered =>
        (PlacedProduction.mk owner false numbered.2 numbered.1).helpers := by
  induction productions generalizing start plain drafts with
  | nil =>
      rw [rewriteProductions, Except.ok.injEq, Prod.mk.injEq]
      constructor
      · rintro ⟨rfl, rfl⟩
        exact ⟨fun _ impossible => (List.not_mem_nil impossible).elim, rfl, rfl⟩
      · rintro ⟨_, rfl, rfl⟩
        exact ⟨rfl, rfl⟩
  | cons production rest inductionHypothesis =>
      rw [List.zipIdx_cons, rewriteProductions, List.forall_mem_cons, List.map_cons,
        List.flatMap_cons]
      have head : forall {first : PlainProduction} {own : List Draft},
          rewriteProduction owner start production = .ok (first, own) ->
          (PlacedProduction.mk owner false start production).helpers = own := by
        intro first own here
        unfold helpers rewrite
        rw [here]
      constructor
      · intro rewritten
        rcases of_bind_eq_ok rewritten with ⟨⟨first, own⟩, here, remaining⟩
        rcases of_bind_eq_ok remaining with ⟨⟨others, more⟩, later, made⟩
        rcases inductionHypothesis.mp later with ⟨each, rfl, rfl⟩
        cases made
        refine ⟨⟨⟨_, here⟩, each⟩, ?_, ?_⟩
        · rw [(rewriteProduction_eq here).1]
        · rw [head here]
      · rintro ⟨⟨⟨⟨first, own⟩, here⟩, each⟩, rfl, rfl⟩
        rw [here, head here, ← (rewriteProduction_eq here).1]
        change (rewriteProductions owner (start + 1) rest >>= _) = _
        rw [inductionHypothesis.mpr ⟨each, rfl, rfl⟩]
        rfl

theorem rewriteEach_iff {drafts helpers : List Draft} {rules : List PlainRule} :
    rewriteEach drafts = .ok (rules, helpers) ↔
      (forall placed, placed ∈ ofEach drafts -> Exists fun result => placed.rewrite = .ok result) ∧
      rules = drafts.map plainRule ∧ helpers = (ofEach drafts).flatMap PlacedProduction.helpers := by
  induction drafts generalizing rules helpers with
  | nil =>
      rw [rewriteEach, Except.ok.injEq, Prod.mk.injEq]
      constructor
      · rintro ⟨rfl, rfl⟩
        exact ⟨fun _ impossible => (List.not_mem_nil impossible).elim, rfl, rfl⟩
      · rintro ⟨_, rfl, rfl⟩
        exact ⟨rfl, rfl⟩
  | cons draft rest inductionHypothesis =>
      have split : ofEach (draft :: rest) = (draft.productions.zipIdx.map fun numbered =>
          PlacedProduction.mk draft.name draft.helper numbered.2 numbered.1) ++ ofEach rest := rfl
      rw [split, rewriteEach, List.map_cons, List.flatMap_append, List.flatMap_map]
      constructor
      · intro rewritten
        rcases of_bind_eq_ok rewritten with ⟨⟨rule, own⟩, here, remaining⟩
        rcases of_bind_eq_ok remaining with ⟨⟨others, more⟩, later, made⟩
        rcases inductionHypothesis.mp later with ⟨each, rfl, rfl⟩
        cases made
        have first := (rewrite_eq here).1
        rw [Draft.rewrite] at here
        rcases of_bind_eq_ok here with ⟨⟨plain, drafts⟩, all, done⟩
        cases done
        rcases rewriteProductions_iff.mp all with ⟨eachHere, _, rfl⟩
        refine ⟨?_, by rw [first], rfl⟩
        intro placed member
        rcases List.mem_append.mp member with inHere | inRest
        · rcases List.mem_map.mp inHere with ⟨numbered, listed, rfl⟩
          exact eachHere numbered listed
        · exact each placed inRest
      · rintro ⟨each, rfl, rfl⟩
        have here := rewriteProductions_iff.mpr
          ⟨fun numbered listed => each _ (List.mem_append_left _
            (List.mem_map_of_mem (f := fun numbered : Production × Nat =>
              PlacedProduction.mk draft.name draft.helper numbered.2 numbered.1) listed)), rfl, rfl⟩
        have later := inductionHypothesis.mpr
          ⟨fun placed member => each placed (List.mem_append_right _ member), rfl, rfl⟩
        rw [Draft.rewrite, here, later]
        unfold plainRule
        rw [List.mapIdx_eq_zipIdx_map]
        rfl

/-- The rules of the productions on a level. -/
theorem reduceRules_ofEach (drafts : List Draft) :
    PlainGrammar.reduceRules ⟨drafts.map plainRule⟩ = (ofEach drafts).map rule := by
  unfold PlainGrammar.reduceRules PlainGrammar.productions ofEach
  rw [List.flatMap_map, List.map_flatMap, List.map_flatMap]
  congr 1
  funext draft
  rw [List.map_map, List.map_map]
  unfold plainRule
  dsimp only
  rw [List.mapIdx_eq_zipIdx_map, List.map_map]
  rfl

/-! ## Moving productions -/

section Relocate

variable {places : String -> Equiv.Perm Nat}

/-- The production belongs to a helper or to a rule of the author's, and the names inside its
operators stay. -/
structure Movable (places : String -> Equiv.Perm Nat) (placed : PlacedProduction) : Prop where
  marked : placed.helper = true -> '#' ∈ placed.owner.toList
  markless : placed.helper = false -> '#' ∉ placed.owner.toList
  settles : Settles (Draft.relocate places) placed.production.symbols

variable {placed : PlacedProduction}

theorem Movable.rewrite (movable : placed.Movable places) {plain : PlainProduction}
    {drafts : List Draft} (rewritten : placed.rewrite = .ok (plain, drafts)) :
    (placed.relocate places).rewrite =
      .ok (plain.rename (Draft.relocate places), drafts.map (Draft.rename (Draft.relocate places))) := by
  refine rewriteProduction_rename ?_ movable.settles rewritten
  intro index
  unfold relocate
  cases kind : placed.helper with
  | true => exact (relocate_nested places (movable.marked kind) placed.place index).symm
  | false =>
      have markless := movable.markless kind
      rw [relocate_of_not places (not_isHelperName markless)]
      exact (relocate_placed places markless placed.place index).symm

theorem Movable.helpers (movable : placed.Movable places)
    (rewritten : Exists fun result => placed.rewrite = .ok result) :
    (placed.relocate places).helpers =
      placed.helpers.map (Draft.rename (Draft.relocate places)) := by
  rcases rewritten with ⟨⟨plain, drafts⟩, rewritten⟩
  unfold PlacedProduction.helpers
  rw [rewritten, movable.rewrite rewritten]

theorem Movable.rule (movable : placed.Movable places)
    (rewritten : Exists fun result => placed.rewrite = .ok result) :
    (placed.relocate places).rule = placed.rule.rename (Draft.relocate places) := by
  rcases rewritten with ⟨⟨plain, drafts⟩, rewritten⟩
  have here := (rewriteProduction_eq rewritten).1
  have there := (rewriteProduction_eq (movable.rewrite rewritten)).1
  unfold PlacedProduction.rule
  rw [← here]
  change PlainGrammar.reduceRule (_, plainProduction (placed.relocate places).owner
    (placed.relocate places).place (placed.relocate places).production) = _
  rw [← there]
  rfl

/-- The helpers' productions keep their numbers. -/
theorem ofEach_rename {drafts : List Draft}
    (helpers : forall draft, draft ∈ drafts -> draft.helper = true) :
    ofEach (drafts.map (Draft.rename (Draft.relocate places))) =
      (ofEach drafts).map (relocate places) := by
  unfold ofEach
  rw [List.flatMap_map, List.map_flatMap]
  refine List.flatMap_congr fun draft member => ?_
  have isHelper := helpers draft member
  unfold Draft.rename relocate
  dsimp only
  rw [List.zipIdx_map, List.map_map, List.map_map]
  refine List.map_congr_left fun numbered _ => ?_
  simp only [Function.comp_apply, Prod.map_fst, Prod.map_snd, id_eq, isHelper, if_true]

end Relocate

end PlacedProduction

namespace Grammar

open Draft PlacedProduction

/-- No rule has a mark in its name, and no name has the form of a helper's name. -/
structure Markless (grammar : Grammar) : Prop where
  rules : forall rule, rule ∈ grammar.rules -> '#' ∉ rule.name.toList
  names : forall name, name ∈ grammar.names -> ¬ IsHelperName name

/-- It is enough that no name has a mark. -/
theorem markless_of_names {grammar : Grammar}
    (markless : forall name, name ∈ grammar.names -> '#' ∉ name.toList) : grammar.Markless :=
  ⟨fun _ listed => markless _ (List.mem_append_left _ (List.mem_map_of_mem listed)),
    fun name written => not_isHelperName (markless name written)⟩

variable {grammar : Grammar} {places : String -> Equiv.Perm Nat}

theorem Markless.rename_of_writes (markless : grammar.Markless) {symbol : Symbol}
    (writes : grammar.Writes symbol) : symbol.rename (Draft.relocate places) = symbol := by
  cases isName : symbol.asName? with
  | none => exact rename_operator isName
  | some word =>
      have same := eq_name_of_asName? isName
      subst same
      exact congrArg Symbol.name
        (relocate_of_not places (markless.names word (mem_names_of_writes writes)))

/-- All productions of drafts can be moved. -/
theorem Markless.movable (markless : grammar.Markless) {drafts : List Draft}
    (drafted : forall draft, draft ∈ drafts -> Drafted grammar.drafts draft)
    {placed : PlacedProduction} (member : placed ∈ ofEach drafts) : placed.Movable places := by
  rcases List.mem_flatMap.mp member with ⟨draft, listed, inDraft⟩
  rcases List.mem_map.mp inDraft with ⟨⟨production, place⟩, numbered, rfl⟩
  have found := List.mem_of_getElem? (List.mem_zipIdx_iff_getElem?.mp numbered)
  refine ⟨?_, ?_, ?_⟩
  · intro isHelper
    cases drafted draft listed with
    | listed draft written => exact (Bool.false_ne_true
        ((helper_of_listed written).1.symm.trans isHelper)).elim
    | helper owner helper place index symbol _ helperOf =>
        rw [helperOf.name]
        exact mark_mem_helperName _ _ _
  · intro isRule
    cases drafted draft listed with
    | listed draft written =>
        rcases List.mem_map.mp written with ⟨rule, inRules, rfl⟩
        exact markless.rules rule inRules
    | helper owner helper place index symbol _ helperOf =>
        exact (Bool.false_ne_true (isRule.symm.trans helperOf.isHelper)).elim
  · intro symbol inside operator inner inSymbol
    apply markless.rename_of_writes
    rcases writes_of_drafted (drafted draft listed) found with all | ⟨_, rest, split, others⟩
    · exact (all symbol inside).child inSymbol
    · rw [split] at inside
      rcases List.mem_cons.mp inside with own | after
      · rw [own] at operator
        cases operator
      · exact (others symbol after).child inSymbol

/-- What one level is rewritten to is moved along with it. -/
theorem Markless.rewriteEach (markless : grammar.Markless) {drafts others helpers : List Draft}
    {rules : List PlainRule}
    (drafted : forall draft, draft ∈ drafts -> Drafted grammar.drafts draft)
    (moved : ((ofEach drafts).map (PlacedProduction.relocate places)).Perm (ofEach others))
    (rewritten : Draft.rewriteEach drafts = .ok (rules, helpers)) :
    Exists fun otherRules => Exists fun otherHelpers =>
      Draft.rewriteEach others = .ok (otherRules, otherHelpers) ∧
      ((PlainGrammar.reduceRules ⟨rules⟩).map (ReduceRule.rename (Draft.relocate places))).Perm
        (PlainGrammar.reduceRules ⟨otherRules⟩) ∧
      ((ofEach helpers).map (PlacedProduction.relocate places)).Perm (ofEach otherHelpers) ∧
      forall helper, helper ∈ helpers -> Drafted grammar.drafts helper := by
  rcases rewriteEach_eq rewritten with ⟨_, listed, _⟩
  rcases rewriteEach_iff.mp rewritten with ⟨succeed, rfl, rfl⟩
  have movable : forall placed, placed ∈ ofEach drafts -> placed.Movable places :=
    fun placed member => markless.movable drafted member
  refine ⟨others.map plainRule, (ofEach others).flatMap PlacedProduction.helpers, ?_, ?_, ?_, ?_⟩
  · refine rewriteEach_iff.mpr ⟨fun other member => ?_, rfl, rfl⟩
    rcases List.mem_map.mp (moved.mem_iff.mpr member) with ⟨placed, inDrafts, rfl⟩
    rcases succeed placed inDrafts with ⟨⟨plain, own⟩, result⟩
    exact ⟨_, (movable placed inDrafts).rewrite result⟩
  · have each : ((ofEach drafts).map rule).map (ReduceRule.rename (Draft.relocate places)) =
        ((ofEach drafts).map (PlacedProduction.relocate places)).map rule := by
      rw [List.map_map, List.map_map]
      exact List.map_congr_left fun placed inDrafts =>
        ((movable placed inDrafts).rule (succeed placed inDrafts)).symm
    rw [reduceRules_ofEach, reduceRules_ofEach, each]
    exact moved.map rule
  · have areHelpers : forall helper, helper ∈ (ofEach drafts).flatMap PlacedProduction.helpers ->
        helper.helper = true := by
      intro helper member
      rcases listed helper member with ⟨owner, place, index, symbol, _, helperOf⟩
      exact helperOf.isHelper
    have each : ((ofEach drafts).flatMap PlacedProduction.helpers).map
        (Draft.rename (Draft.relocate places)) =
        ((ofEach drafts).map (PlacedProduction.relocate places)).flatMap
          PlacedProduction.helpers := by
      rw [List.map_flatMap, List.flatMap_map]
      exact List.flatMap_congr fun placed inDrafts =>
        ((movable placed inDrafts).helpers (succeed placed inDrafts)).symm
    rw [← ofEach_rename areHelpers, each]
    exact (moved.flatMap_right PlacedProduction.helpers).flatMap_right _
  · intro helper member
    rcases listed helper member with ⟨owner, place, index, symbol, inDrafts, helperOf⟩
    exact .helper owner helper place index symbol (drafted owner inDrafts) helperOf

/-- So are all levels. -/
theorem Markless.rewriteLevels (markless : grammar.Markless) {levels : Nat}
    {drafts others : List Draft} {rules : List PlainRule}
    (drafted : forall draft, draft ∈ drafts -> Drafted grammar.drafts draft)
    (moved : ((ofEach drafts).map (PlacedProduction.relocate places)).Perm (ofEach others))
    (rewritten : Draft.rewriteLevels levels drafts = .ok rules) :
    Exists fun otherRules => Draft.rewriteLevels levels others = .ok otherRules ∧
      ((PlainGrammar.reduceRules ⟨rules⟩).map (ReduceRule.rename (Draft.relocate places))).Perm
        (PlainGrammar.reduceRules ⟨otherRules⟩) := by
  induction levels generalizing drafts others rules with
  | zero =>
      cases rewritten
      exact ⟨[], rfl, .nil⟩
  | succ levels inductionHypothesis =>
      rw [rewriteLevels_succ] at rewritten
      rcases of_bind_eq_ok rewritten with ⟨⟨first, helpers⟩, each, remaining⟩
      rcases of_bind_eq_ok remaining with ⟨more, later, made⟩
      cases made
      rcases markless.rewriteEach drafted moved each with
        ⟨otherFirst, otherHelpers, otherEach, here, helpersMoved, helpersDrafted⟩
      rcases inductionHypothesis helpersDrafted helpersMoved later with
        ⟨otherMore, otherLater, below⟩
      refine ⟨otherFirst ++ otherMore, ?_, ?_⟩
      · rw [rewriteLevels_succ, otherEach]
        change (Draft.rewriteLevels levels otherHelpers >>= _) = _
        rw [otherLater]
        rfl
      · rw [PlainGrammar.reduceRules_append, PlainGrammar.reduceRules_append, List.map_append]
        exact here.append below

end Grammar

/-! ## Rules in another order -/

/-- The rules have the same name and the same productions, in whatever order. -/
def Rule.Rearranges (rule other : Rule) : Prop :=
  rule.name = other.name ∧ rule.productions.Perm other.productions

/-- The second grammar is the first one with the rules behind the root and the productions of each
rule in another order. -/
structure Grammar.Rearranges (left right : Grammar) : Prop where
  root : left.root? = right.root?
  rules : Exists fun middle =>
    List.Forall₂ Rule.Rearranges left.rules middle ∧ middle.Perm right.rules

/-- The values of a list are found at other positions of the rearranged list. -/
theorem exists_positions {α : Type} {front back : List α} (perm : front.Perm back) :
    Exists fun positions : Equiv.Perm Nat => forall index, back[positions index]? = front[index]? := by
  induction perm with
  | nil => exact ⟨Equiv.refl Nat, fun _ => rfl⟩
  | cons value _ inductionHypothesis =>
      rcases inductionHypothesis with ⟨positions, each⟩
      refine ⟨⟨fun index => index.casesOn 0 fun earlier => positions earlier + 1,
        fun index => index.casesOn 0 fun earlier => positions.symm earlier + 1, ?_, ?_⟩, ?_⟩
      · rintro (_ | index)
        · rfl
        · exact congrArg Nat.succ (positions.symm_apply_apply index)
      · rintro (_ | index)
        · rfl
        · exact congrArg Nat.succ (positions.apply_symm_apply index)
      · rintro (_ | index)
        · rfl
        · exact each index
  | swap first second rest =>
      refine ⟨Equiv.swap 0 1, ?_⟩
      rintro (_ | _ | index)
      · rfl
      · rfl
      · rw [Equiv.swap_apply_of_ne_of_ne (by omega) (by omega)]
        rfl
  | trans _ _ firstHypothesis secondHypothesis =>
      rcases firstHypothesis with ⟨first, firstEach⟩
      rcases secondHypothesis with ⟨second, secondEach⟩
      exact ⟨first.trans second, fun index => (secondEach _).trans (firstEach index)⟩

/-- With its positions, the rearranged list is the list with the other positions. -/
theorem perm_zipIdx {α : Type} {front back : List α} {positions : Equiv.Perm Nat}
    (each : forall index, back[positions index]? = front[index]?) :
    (front.zipIdx.map fun numbered => (numbered.1, positions numbered.2)).Perm back.zipIdx := by
  have distinct : forall values : List α, values.zipIdx.Nodup := fun values =>
    List.Nodup.of_map Prod.snd (List.nodup_zipIdx_map_snd values)
  refine (List.perm_ext_iff_of_nodup ((distinct front).map ?_) (distinct back)).mpr ?_
  · rintro ⟨first, one⟩ ⟨second, other⟩ same
    rw [Prod.mk.injEq] at same
    exact Prod.ext same.1 (positions.injective same.2)
  · rintro ⟨value, index⟩
    rw [List.mem_zipIdx_iff_getElem?, List.mem_map]
    constructor
    · rintro ⟨⟨found, position⟩, listed, same⟩
      rw [Prod.mk.injEq] at same
      rcases same with ⟨rfl, rfl⟩
      exact (each position).trans (List.mem_zipIdx_iff_getElem?.mp listed)
    · intro found
      refine ⟨(value, positions.symm index), List.mem_zipIdx_iff_getElem?.mpr ?_, ?_⟩
      · rw [← each, Equiv.apply_symm_apply]
        exact found
      · rw [Equiv.apply_symm_apply]

theorem perm_flatMap {α β γ : Type} {relates : α -> β -> Prop} {front : List α} {back : List β}
    {first : α -> List γ} {second : β -> List γ} (each : List.Forall₂ relates front back)
    (same : forall value other, value ∈ front -> relates value other ->
      (first value).Perm (second other)) : (front.flatMap first).Perm (back.flatMap second) := by
  induction each with
  | nil => exact .nil
  | cons related _ inductionHypothesis =>
      rw [List.flatMap_cons, List.flatMap_cons]
      exact (same _ _ List.mem_cons_self related).append
        (inductionHypothesis fun value other member => same value other (List.mem_cons_of_mem _ member))

namespace Grammar

open Draft PlacedProduction

variable {left right : Grammar}

theorem Rearranges.symm (rearranges : left.Rearranges right) : right.Rearranges left := by
  rcases rearranges.rules with ⟨middle, each, perm⟩
  have back : List.Forall₂ Rule.Rearranges middle left.rules :=
    each.flip.imp fun _ _ same => ⟨same.1.symm, same.2.symm⟩
  exact ⟨rearranges.root.symm, List.perm_comp_forall₂ perm.symm back⟩

/-- The productions of each rule have new places. -/
theorem Rearranges.places (rearranges : left.Rearranges right) :
    Exists fun places : String -> Equiv.Perm Nat => Exists fun middle =>
      List.Forall₂ (fun rule other : Rule => rule.name = other.name ∧
        rule.productions.Perm other.productions ∧ forall index,
          other.productions[places rule.name index]? = rule.productions[index]?)
        left.rules middle ∧ middle.Perm right.rules := by
  rcases rearranges.rules with ⟨middle, each, perm⟩
  -- One permutation does for all rules of a name, since there is only one of them on each side.
  have unique : forall {grammar : Grammar} {rule other : Rule}, rule ∈ grammar.rules ->
      other ∈ grammar.rules -> rule.name = other.name -> rule = other :=
    fun {grammar _ _} listed also same => List.inj_on_of_nodup_map grammar.distinct listed also same
  have chosen : forall name : String, Exists fun positions : Equiv.Perm Nat =>
      forall rule other, rule ∈ left.rules -> other ∈ right.rules -> rule.name = name ->
        rule.Rearranges other -> forall index,
          other.productions[positions index]? = rule.productions[index]? := by
    intro name
    by_cases some : Exists fun pair : Rule × Rule => pair.1 ∈ left.rules ∧ pair.2 ∈ right.rules ∧
        pair.1.name = name ∧ pair.1.Rearranges pair.2
    · rcases some with ⟨⟨rule, other⟩, listed, otherListed, named, same⟩
      rcases exists_positions same.2 with ⟨positions, found⟩
      refine ⟨positions, fun first second firstListed secondListed firstNamed alike => ?_⟩
      rw [unique firstListed listed (firstNamed.trans named.symm),
        unique secondListed otherListed
          (alike.1.symm.trans (firstNamed.trans (named.symm.trans same.1)))]
      exact found
    · exact ⟨Equiv.refl Nat, fun rule other listed otherListed named same =>
        (some ⟨(rule, other), listed, otherListed, named, same⟩).elim⟩
  choose places found using chosen
  refine ⟨places, middle, ?_, perm⟩
  have here := List.forall₂_iff_get.mp each
  refine List.forall₂_iff_get.mpr ⟨here.1, fun index inside otherInside => ?_⟩
  have same := here.2 index inside otherInside
  exact ⟨same.1, same.2, found _ _ _ (List.get_mem _ _)
    (perm.mem_iff.mp (List.get_mem _ _)) rfl same⟩

/-- A production of the author's stays the same under other names of helpers. -/
theorem Markless.rename_production (markless : left.Markless) (outward : left.EmitsOutward)
    {places : String -> Equiv.Perm Nat} {rule : Rule} (listed : rule ∈ left.rules)
    {production : Production} (member : production ∈ rule.productions) :
    production.rename (Draft.relocate places) = production := by
  have symbols : production.symbols.map (Symbol.rename (Draft.relocate places)) =
      production.symbols := by
    refine (List.map_congr_left fun symbol inside => ?_).trans (List.map_id _)
    exact markless.rename_of_writes ⟨rule, production, symbol, listed, member, inside, .refl symbol⟩
  have effect : production.emit.rename (Draft.relocate places) = production.emit := by
    rcases outward rule listed production member with none | report | ⟨identity, callback⟩
    · rw [none]
      rfl
    · rw [report]
      rfl
    · rw [callback]
      rfl
  unfold Production.rename
  rw [symbols, effect]

/-- The productions of the author's rules are found at their new places. -/
theorem Markless.moved (markless : left.Markless) (outward : left.EmitsOutward)
    {places : String -> Equiv.Perm Nat} {middle : List Rule}
    (each : List.Forall₂ (fun rule other : Rule => rule.name = other.name ∧
      rule.productions.Perm other.productions ∧ forall index,
        other.productions[places rule.name index]? = rule.productions[index]?) left.rules middle)
    (perm : middle.Perm right.rules) :
    ((ofEach left.drafts).map (PlacedProduction.relocate places)).Perm (ofEach right.drafts) := by
  have productionsOf : forall grammar : Grammar, ofEach grammar.drafts =
      grammar.rules.flatMap fun rule => rule.productions.zipIdx.map fun numbered =>
        ⟨rule.name, false, numbered.2, numbered.1⟩ := fun grammar => List.flatMap_map _ _ _
  rw [productionsOf, productionsOf, List.map_flatMap]
  refine List.Perm.trans (perm_flatMap each fun rule other listed same => ?_)
    (perm.flatMap_right _)
  rcases same with ⟨name, _, found⟩
  have kept : Draft.relocate places other.name = other.name :=
    relocate_of_not places (name ▸ not_isHelperName (markless.rules rule listed))
  have moved := (perm_zipIdx found).map fun numbered =>
    PlacedProduction.mk other.name false numbered.2 numbered.1
  rw [List.map_map] at moved
  rw [List.map_map]
  refine List.Perm.trans (List.Perm.of_eq (List.map_congr_left fun numbered inside => ?_)) moved
  rcases numbered with ⟨production, place⟩
  have member := List.mem_of_getElem? (List.mem_zipIdx_iff_getElem?.mp inside)
  simp only [Function.comp_apply, PlacedProduction.relocate, Bool.false_eq_true, if_false,
    markless.rename_production outward listed member, name, kept]

private theorem depth_eq {middle : List Rule}
    (each : List.Forall₂ (fun rule other : Rule => rule.productions.Perm other.productions)
      left.rules middle) (perm : middle.Perm right.rules) : left.depth = right.depth := by
  have depthOf : forall grammar : Grammar, grammar.depth = (grammar.rules.map fun rule =>
      Draft.depth ⟨rule.name, rule.productions, false⟩).foldl max 0 := by
    intro grammar
    unfold depth drafts
    rw [List.map_map]
    rfl
  rw [depthOf, depthOf, ← (perm.map _).foldl_eq 0]
  congr 1
  refine List.forall₂_eq_eq_eq ▸ List.forall₂_map_left_iff.mpr (List.forall₂_map_right_iff.mpr
    (each.imp fun rule other same => ?_))
  exact (same.map _).foldl_eq 0

/-- Grammars with the same productions under other names are renumberings of one another. -/
theorem renumbering_of_perm {plain other : PlainGrammar} {name : Equiv.Perm String}
    (ends : name "" = "") (root : other.root = name plain.root)
    (corresponds : (plain.reduceRules.map (ReduceRule.rename name)).Perm other.reduceRules) :
    Exists fun renumbering : PlainGrammar.Renumbering plain other => renumbering.name = name := by
  rcases exists_positions corresponds with ⟨positions, found⟩
  have there : forall index, (other.productions[positions index]?).map PlainGrammar.reduceRule =
      (plain.productions[index]?).map fun pair => (PlainGrammar.reduceRule pair).rename name := by
    intro index
    have here := found index
    unfold PlainGrammar.reduceRules at here
    rwa [List.getElem?_map, List.getElem?_map, List.getElem?_map, Option.map_map] at here
  refine ⟨⟨name, positions, ends, root, fun index => ?_, fun index pair known => ?_⟩, rfl⟩
  · have absent : other.productions[positions index]? = none ↔ plain.productions[index]? = none := by
      rw [← Option.map_eq_none_iff (f := PlainGrammar.reduceRule), there, Option.map_eq_none_iff]
    rw [List.getElem?_eq_none_iff, List.getElem?_eq_none_iff] at absent
    omega
  · have here := there index
    rw [known, Option.map_some] at here
    rcases Option.map_eq_some_iff.mp here with ⟨pair', known', same⟩
    refine ⟨pair', known', congrArg ReduceRule.nonterminal same, congrArg ReduceRule.helper same, ?_⟩
    have symbols := congrArg ReduceRule.symbols same
    have emit := congrArg ReduceRule.emit same
    have label := congrArg ReduceRule.label same
    exact PlainProduction.mk.injEq .. ▸ ⟨symbols, emit, label⟩

/-- Where the one grammar can be rewritten, so can the other, and their plain grammars correspond. -/
theorem Rearranges.toPlain (rearranges : left.Rearranges right) (markless : left.Markless)
    (outward : left.EmitsOutward) {plain : PlainGrammar} (made : left.toPlain = .ok plain) :
    Exists fun other => right.toPlain = .ok other ∧
      Exists fun renumbering : PlainGrammar.Renumbering plain other => Exists fun places =>
        renumbering.name = relocation places := by
  rcases rearranges.places with ⟨places, middle, each, perm⟩
  have depth := depth_eq (each.imp fun _ _ same => same.2.1) perm
  have length := each.length_eq.trans perm.length_eq
  have root := (toPlain_eq made).2.2
  have rootName := root_mem_names made
  unfold Grammar.toPlain at made
  split at made
  · cases made
  next notEmpty =>
    rcases of_bind_eq_ok made with ⟨rules, rewritten, same⟩
    cases same
    rcases markless.rewriteLevels (fun draft member => .listed draft member)
      (markless.moved outward each perm) rewritten with ⟨otherRules, otherRewritten, corresponds⟩
    have otherMade : right.toPlain = .ok ⟨otherRules⟩ := by
      have otherNotEmpty : ¬ right.isEmpty = true := by
        unfold isEmpty at notEmpty ⊢
        rw [List.isEmpty_iff_length_eq_zero] at notEmpty ⊢
        rwa [← length]
      unfold Grammar.toPlain
      rw [if_neg otherNotEmpty, ← depth, otherRewritten]
      rfl
    have otherRoot := (toPlain_eq otherMade).2.2
    rw [← rearranges.root, root, Option.some.injEq] at otherRoot
    have ends : relocation places "" = "" :=
      relocate_of_not places (not_isHelperName List.not_mem_nil)
    rcases renumbering_of_perm ends
      (otherRoot.symm.trans (relocate_of_not places (markless.names _ rootName)).symm)
      corresponds with ⟨renumbering, name⟩
    exact ⟨_, otherMade, renumbering, places, name⟩

end Grammar

end ShiftReduce
