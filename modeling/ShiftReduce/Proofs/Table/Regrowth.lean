import ShiftReduce.Proofs.Grammar.Admissible
import ShiftReduce.Proofs.Table.Foresight

namespace ShiftReduce

/-!
# What stands behind a repetition

Behind a repetition that can grow by an operator, a state can go into the operator or leave the
repetition.  If a production of nothing inside the operator is complete on a lookahead, the lookahead
comes from further inside, where something opens with it, or from behind the repetition.  In the second
case whatever is behind the repetition can be made of nothing before the lookahead, and this too begins
with something that is complete in the same state.  Two productions would then be complete on one
lookahead.  So in a grammar that has a table, something in the state opens with the lookahead.

Names of helpers say where they stand, and this is what keeps the inside of the operator apart from
what is behind the repetition.
-/

namespace Grammar

open Draft PlainGrammar

/-- Some production of `outer` begins with an operator whose helper is `inner`. -/
def Heads (grammar : Grammar) (outer inner : String) : Prop :=
  grammar.IsHelper inner ∧ Exists fun place => inner = helperName outer place 0

/-- The helper `inner` is found by going into the first operator again and again. -/
def Fronts (grammar : Grammar) : String -> String -> Prop :=
  Relation.ReflTransGen grammar.Heads

/-- The production makes a helper grow by a group whose first symbol is an operator. -/
structure Regrows (grammar : Grammar) (draft : Draft) (place : Nat) (production : Production) :
    Prop where
  drafted : Drafted grammar.drafts draft
  isHelper : draft.helper = true
  found : draft.productions[place]? = some production
  grows : production.symbols.head? = some (.name draft.name)
  operator : grammar.IsHelper (helperName draft.name place 1)

variable {grammar : Grammar} {plain : PlainGrammar} {draft : Draft} {place : Nat}
  {production : Production}

theorem Fronts.isHelper {outer inner : String} (fronts : grammar.Fronts outer inner)
    (isHelper : grammar.IsHelper outer) : grammar.IsHelper inner := by
  cases fronts with
  | refl => exact isHelper
  | tail _ heads => exact heads.1

theorem HelpersApart.ne_root (apart : grammar.HelpersApart) (made : grammar.toPlain = .ok plain)
    {name : String} (isHelper : grammar.IsHelper name) : name ≠ plain.root := by
  rintro rfl
  exact not_helper_of_mem_names apart made (root_mem_names made) isHelper

/-- The production as the automaton knows it. -/
def grownPair (draft : Draft) (place : Nat) (production : Production) :
    PlainRule × PlainProduction :=
  (draft.plainRule, plainProduction draft.name place production)

/-- The core has the dot right behind the repetition that grows. -/
def Behind (plain : PlainGrammar) (draft : Draft) (place : Nat) (production : Production)
    (core : Core) : Prop :=
  core.dot = 1 ∧ plain.productions[core.production]? = some (grownPair draft place production)

namespace Regrows

variable (regrows : grammar.Regrows draft place production) (apart : grammar.HelpersApart)
  (made : grammar.toPlain = .ok plain)

include regrows apart made

/-- A helper at the front of the operator stands only at the front of productions of such helpers,
and right behind the repetition. -/
theorem stands {name : String} (fronts : grammar.Fronts (helperName draft.name place 1) name)
    {core : Core} {pair : PlainRule × PlainProduction}
    (known : plain.productions[core.production]? = some pair) {rest : List String}
    (dotted : plain.fromDot core.production core.dot = name :: rest) :
    (core.dot = 0 ∧ grammar.Fronts (helperName draft.name place 1) pair.1.name) ∨
      Behind plain draft place production core := by
  rcases draft_of_plain made (List.mem_of_getElem? known) with
    ⟨other, otherPlace, otherProduction, drafted, found, rfl⟩
  rw [fromDot_eq known] at dotted
  have atDot : (plainNames other.name otherPlace 0 otherProduction.symbols)[core.dot]? = some name := by
    rw [← List.head?_drop]
    exact congrArg List.head? dotted
  rcases helper_at apart made drafted found atDot (fronts.isHelper regrows.operator) with
    ⟨_, here⟩ | ⟨front, own⟩
  · rcases fronts.cases_tail with same | ⟨outer, before, _, outerPlace, inner⟩
    · rcases helperName_injective (same.symm.trans here) with ⟨owners, rfl, dot⟩
      have sameDraft := apart.draft_unique made regrows.drafted drafted owners
      subst sameDraft
      rw [Option.some.inj (found.symm.trans regrows.found)] at known
      exact Or.inr ⟨dot.symm, known⟩
    · rcases helperName_injective (inner.symm.trans here) with ⟨owners, _, dot⟩
      have inOther : grammar.Fronts (helperName draft.name place 1) other.name := owners ▸ before
      exact Or.inl ⟨dot.symm, inOther⟩
  · have inOther : grammar.Fronts (helperName draft.name place 1) other.name := own ▸ fronts
    exact Or.inl ⟨front, inOther⟩

/-- What a production of nothing inside the operator is complete on opens something in the state, or
comes from behind the repetition. -/
theorem opens_or_behind {kernel : Core -> Prop} {core : Core} {lookahead : String}
    (carries : plain.Carries kernel core lookahead) (start : core.dot = 0)
    {pair : PlainRule × PlainProduction}
    (known : plain.productions[core.production]? = some pair)
    (fronts : grammar.Fronts (helperName draft.name place 1) pair.1.name)
    (nullable : plain.Nullable pair.2.symbols) :
    (Exists fun other => plain.InClosure kernel other ∧
      plain.Opens (plain.fromDot other.production other.dot) lookahead) ∨
    Exists fun other => Behind plain draft place production other ∧
      plain.Carries kernel other lookahead := by
  have isNullable : forall {pair : PlainRule × PlainProduction} {number : Nat},
      plain.productions[number]? = some pair -> plain.Nullable pair.2.symbols ->
      plain.Nullable [pair.1.name] := fun known nullable =>
    (PlainGrammar.Derives.production (List.mem_of_getElem? known)).trans nullable
  -- The lookahead is followed back to where it enters the chain of helpers.
  induction carries generalizing pair with
  | start number expands =>
      rcases expands with ⟨other, otherKnown, isRoot⟩
      cases Option.some.inj (otherKnown.symm.trans known)
      exact (apart.ne_root made (fronts.isHelper regrows.operator) isRoot).elim
  | first kernel other next rest number lookahead reached inside dotted expands opens =>
      rcases expands with ⟨same, sameKnown, rfl⟩
      cases Option.some.inj (sameKnown.symm.trans known)
      refine Or.inl ⟨other, inside, ?_⟩
      rw [dotted]
      exact .skip _ rest lookahead (isNullable known nullable) opens
  | pass kernel other next rest number lookahead above dotted expands vanishes inductionHypothesis =>
      rcases expands with ⟨same, sameKnown, rfl⟩
      cases Option.some.inj (sameKnown.symm.trans known)
      rcases known_of_dotted dotted with ⟨otherPair, otherKnown⟩
      rcases regrows.stands apart made fronts otherKnown dotted with ⟨front, otherFronts⟩ | behind
      · refine inductionHypothesis front otherKnown otherFronts ?_
        rw [fromDot_eq otherKnown, front, List.drop_zero] at dotted
        have both : plain.Derives ([pair.1.name] ++ rest) ([] ++ []) :=
          PlainGrammar.Derives.append (isNullable known nullable) vanishes
        rw [dotted]
        exact both
      · exact Or.inr ⟨other, behind, above⟩
  | move kernel other symbol rest lookahead above dotted => cases start

/-- What comes to the repetition comes from behind it, where it stands elsewhere, unless it opens
something there. -/
theorem opens_or_left {kernel : Core -> Prop} {core : Core} {lookahead : String}
    (carries : plain.Carries kernel core lookahead) (start : core.dot = 0)
    (known : plain.productions[core.production]? = some (grownPair draft place production)) :
    (Exists fun other => plain.InClosure (plain.Moved kernel draft.name) other ∧
      plain.Opens (plain.fromDot other.production other.dot) lookahead) ∨
    Exists fun other => Exists fun rest => plain.Carries kernel other lookahead ∧
      plain.fromDot other.production other.dot = draft.name :: rest ∧ plain.Nullable rest ∧
      ¬ Behind plain draft place production other.advance := by
  have isHelper : grammar.IsHelper draft.name := ⟨draft, regrows.drafted, regrows.isHelper, rfl⟩
  induction carries with
  | start number expands =>
      rcases expands with ⟨other, otherKnown, isRoot⟩
      cases Option.some.inj (otherKnown.symm.trans known)
      exact (apart.ne_root made isHelper isRoot).elim
  | first kernel other next rest number lookahead reached inside dotted expands opens =>
      rcases expands with ⟨same, sameKnown, rfl⟩
      cases Option.some.inj (sameKnown.symm.trans known)
      refine Or.inl ⟨other.advance, .kernel _ ⟨other, rest, inside, dotted, rfl⟩, ?_⟩
      have after : plain.fromDot other.advance.production other.advance.dot = rest :=
        fromDot_succ dotted
      rw [after]
      exact opens
  | pass kernel other next rest number lookahead above dotted expands vanishes inductionHypothesis =>
      rcases expands with ⟨same, sameKnown, rfl⟩
      cases Option.some.inj (sameKnown.symm.trans known)
      by_cases again : Behind plain draft place production other.advance
      · exact inductionHypothesis (Nat.succ.inj again.1) again.2
      · exact Or.inr ⟨other, rest, above, dotted, vanishes, again⟩
  | move kernel other symbol rest lookahead above dotted => cases start

/-- A core that can be completed without reading anything is complete, or has a production of nothing
in front of it that is complete on the same lookahead.  If that one belongs to a helper at the front of
the operator, so does what is behind the dot. -/
theorem silent_of_vanishing {symbols : List String} {trees : List (DerivationTree String)}
    {word : List String} (grows : plain.Grows id symbols trees word) (empty : word = [])
    {kernel : Core -> Prop} {core : Core} {lookahead name : String} {rest : List String}
    (carries : plain.Carries kernel core lookahead)
    (dotted : plain.fromDot core.production core.dot = symbols) (first : symbols = name :: rest) :
    Exists fun silent => Exists fun pair => plain.productions[silent]? = some pair ∧
      pair.2.symbols = [] ∧ plain.Carries kernel ⟨silent, 0⟩ lookahead ∧
      (grammar.Fronts (helperName draft.name place 1) pair.1.name ->
        grammar.Fronts (helperName draft.name place 1) name) := by
  induction grows generalizing core name rest with
  | nil => cases first
  | leaf => cases empty
  | node number pair children inner symbols trees word known below beside belowHypothesis =>
      rcases List.append_eq_nil_iff.mp empty with ⟨rfl, rfl⟩
      rw [List.cons.injEq] at first
      rcases first with ⟨rfl, rfl⟩
      have called : plain.Carries kernel ⟨number, 0⟩ lookahead :=
        .pass kernel core _ symbols number lookahead carries dotted ⟨pair, known, rfl⟩ beside.derives
      have right : plain.fromDot number 0 = pair.2.symbols := fromDot_eq known
      cases split : pair.2.symbols with
      | nil => exact ⟨number, pair, known, split, called, fun fronts => fronts⟩
      | cons next others =>
          rcases belowHypothesis rfl called right split with
            ⟨silent, other, otherKnown, nothing, comes, fronts⟩
          refine ⟨silent, other, otherKnown, nothing, comes, fun otherFronts => ?_⟩
          rw [split] at right
          have atFront : plain.fromDot (Core.mk number 0).production (Core.mk number 0).dot =
              next :: others := right
          rcases regrows.stands apart made (fronts otherFronts) known atFront with
            ⟨_, inFront⟩ | ⟨behind, _⟩
          · exact inFront
          · cases behind

omit apart made in
/-- The dot came behind the repetition by moving over it. -/
theorem before {kernel : Core -> Prop} {core : Core} {lookahead : String}
    (carries : plain.Carries kernel core lookahead) (behind : Behind plain draft place production core) :
    Exists fun source => Exists fun below => kernel = plain.Moved source draft.name ∧
      plain.Carries source below lookahead ∧ below.dot = 0 ∧
      plain.productions[below.production]? = some (grownPair draft place production) := by
  rcases behind with ⟨dot, known⟩
  cases carries with
  | start | first | pass => cases dot
  | move source below symbol rest _ above dotted =>
      have start : below.dot = 0 := Nat.succ.inj dot
      have belowKnown : plain.productions[below.production]? =
          some (grownPair draft place production) := known
      refine ⟨source, below, ?_, above, start, belowKnown⟩
      rw [fromDot_eq belowKnown, start, List.drop_zero] at dotted
      have first : (plainNames draft.name place 0 production.symbols)[0]? = some symbol := by
        rw [← List.head?_eq_getElem?]
        exact congrArg List.head? dotted
      rw [getElem?_plainNames, ← List.head?_eq_getElem?, regrows.grows] at first
      have same : draft.name = symbol := Option.some.inj first
      rw [same]

/-- So a production of nothing inside the operator is complete only on what opens something in the
state. -/
theorem opens {table : Table} (allots : Allots plain table plain.kernels) {state silent : Nat}
    (inside : state < table.states.size) {pair : PlainRule × PlainProduction}
    (known : plain.productions[silent]? = some pair) (nothing : pair.2.symbols = [])
    (fronts : grammar.Fronts (helperName draft.name place 1) pair.1.name) {lookahead : String}
    (carries : plain.Carries (plain.kernels state) ⟨silent, 0⟩ lookahead) :
    Exists fun core => plain.InClosure (plain.kernels state) core ∧
      plain.Opens (plain.fromDot core.production core.dot) lookahead := by
  have nullable : plain.Nullable pair.2.symbols := by
    rw [nothing]
    exact PlainGrammar.Derives.refl []
  rcases regrows.opens_or_behind apart made carries rfl known fronts nullable with
    found | ⟨core, behind, comes⟩
  · exact found
  rcases regrows.before comes behind with ⟨source, below, moved, above, start, belowKnown⟩
  rcases regrows.opens_or_left apart made above start belowKnown with
    ⟨other, listed, opens⟩ | ⟨other, rest, left, dotted, vanishes, elsewhere⟩
  · exact ⟨other, moved ▸ listed, opens⟩
  -- What is left would be complete on the same lookahead.
  have after : plain.Carries (plain.kernels state) other.advance lookahead :=
    moved ▸ .move source other draft.name rest lookahead left dotted
  have behindIt : plain.fromDot other.advance.production other.advance.dot = rest :=
    fromDot_succ dotted
  have complete : plain.Carries (plain.kernels state) ⟨silent, pair.2.symbols.length⟩ lookahead := by
    rw [nothing]
    exact carries
  cases rest with
  | nil =>
      rcases known_of_dotted dotted with ⟨otherPair, otherKnown⟩
      rw [fromDot_eq otherKnown] at dotted
      have lengths := congrArg List.length dotted
      rw [List.length_drop, List.length_singleton] at lengths
      have atEnd : other.advance = ⟨other.production, otherPair.2.symbols.length⟩ :=
        congrArg (Core.mk other.production) (by omega : other.dot + 1 = _)
      rw [atEnd] at after
      have same := allots.sole state _ silent otherPair pair lookahead inside otherKnown known
        after complete
      rw [same, known, Option.some.injEq] at otherKnown
      rw [← otherKnown, nothing, List.length_nil, Nat.zero_sub] at lengths
      cases lengths
  | cons name more =>
      rcases vanishes.grows with ⟨trees, grows⟩
      rcases regrows.silent_of_vanishing apart made grows rfl after behindIt rfl with
        ⟨another, otherPair, otherKnown, otherNothing, otherCarries, otherFronts⟩
      have otherComplete : plain.Carries (plain.kernels state)
          ⟨another, otherPair.2.symbols.length⟩ lookahead := by
        rw [otherNothing]
        exact otherCarries
      have same := allots.sole state another silent otherPair pair lookahead inside otherKnown known
        otherComplete complete
      rw [same, known, Option.some.injEq] at otherKnown
      subst otherKnown
      rcases known_of_dotted behindIt with ⟨morePair, moreKnown⟩
      rcases regrows.stands apart made (otherFronts fronts) moreKnown behindIt with
        ⟨impossible, _⟩ | behind
      · cases impossible
      · exact (elsewhere behind).elim

end Regrows

end Grammar

end ShiftReduce
