import Mathlib.Data.Finset.Card
import ShiftReduce.Proofs.Automaton.FirstSets

namespace ShiftReduce

/-!
# The closure of a set of items

Closing a set expands cores that wait in a list.  Expanding a core adds what the symbol behind its
dot calls for, and every core that this touches waits again.  So at any time a core of the set either
waits or has everything that it calls for, and once nothing waits the set is closed.  A touch makes
the set heavier, and the weight of a set over a given grammar is limited, so the list runs empty
before the computation is cut off.

That the result is the least closed set is stated through arbitrary properties of cores and of
lookaheads: a property that the kernel has, and that passes from a core to those that it calls for,
holds of the whole closure.
-/

namespace Analysis

variable (analysis : Analysis)

/-- Everything that a core with these lookaheads calls for is among the items. -/
def Expanded (items : ItemSet) (core : Core) (lookaheads : IdSet) : Prop :=
  forall next rest, analysis.fromDot core.production core.dot = next :: rest ->
    forall production, production ∈ analysis.productionsOf.getD next [] ->
      ⟨production, 0⟩ ∈ items.cores ∧
        forall value, value ∈ analysis.firstOfSequence rest lookaheads ->
          value ∈ items.lookaheads ⟨production, 0⟩

/-- Every core of the set has what it calls for. -/
def Closed (items : ItemSet) : Prop :=
  forall core, core ∈ items.cores -> analysis.Expanded items core (items.lookaheads core)

/-- One set has the cores of another and all their lookaheads. -/
structure Covers (larger smaller : ItemSet) : Prop where
  cores : forall core, core ∈ smaller.cores -> core ∈ larger.cores
  lookaheads : forall core value, value ∈ smaller.lookaheads core -> value ∈ larger.lookaheads core

theorem Covers.refl (items : ItemSet) : Covers items items :=
  ⟨fun _ member => member, fun _ _ member => member⟩

theorem Covers.trans {first second third : ItemSet} (left : Covers second first)
    (right : Covers third second) : Covers third first :=
  ⟨fun core member => right.cores core (left.cores core member),
    fun core value member => right.lookaheads core value (left.lookaheads core value member)⟩

variable {analysis} in
theorem Expanded.mono {items larger : ItemSet} {core : Core} {lookaheads : IdSet}
    (expanded : analysis.Expanded items core lookaheads) (covers : Covers larger items) :
    analysis.Expanded larger core lookaheads := by
  intro next rest dotted production listed
  have known := expanded next rest dotted production listed
  exact ⟨covers.cores _ known.1, fun value member => covers.lookaheads _ _ (known.2 value member)⟩

/-! ## Adding productions -/

/-- What has become of a set to which the productions in `productions` were added, and of the list
of cores that were touched. -/
structure Added (lookaheads : IdSet) (productions : List Nat) (old new : ItemSet × List Core) :
    Prop where
  ordered : ItemSet.Ordered new.1
  cores : forall core, core ∈ new.1.cores ↔
    core ∈ old.1.cores ∨ Exists fun production => production ∈ productions ∧ core = ⟨production, 0⟩
  lookaheads : forall core value, value ∈ new.1.lookaheads core ↔
    value ∈ old.1.lookaheads core ∨
      (Exists fun production => production ∈ productions ∧ core = ⟨production, 0⟩) ∧
        value ∈ lookaheads
  touched : forall core, core ∈ old.2 -> core ∈ new.2
  untouched : forall core, core ∉ new.2 -> core ∈ new.1.cores ->
    core ∈ old.1.cores ∧ new.1.lookaheads core = old.1.lookaheads core
  heavier : old.1.weight + new.2.length ≤ new.1.weight + old.2.length

/-- The step of `addProductions`. -/
private def addProduction (lookaheads : IdSet) (state : ItemSet × List Core) (production : Nat) :
    ItemSet × List Core :=
  ((state.1.add ⟨production, 0⟩ lookaheads).1,
    if (state.1.add ⟨production, 0⟩ lookaheads).2 then ⟨production, 0⟩ :: state.2 else state.2)

private theorem added_addProduction {lookaheads : IdSet} (sorted : IdSet.Sorted lookaheads)
    {state : ItemSet × List Core} (ordered : ItemSet.Ordered state.1) (production : Nat) :
    Added lookaheads [production] state (addProduction lookaheads state production) := by
  rcases state with ⟨items, touched⟩
  dsimp only at ordered
  refine ⟨ItemSet.ordered_add ordered _ sorted, ?_, ?_, ?_, ?_, ?_⟩
  · intro core
    simp only [addProduction, ItemSet.mem_cores_add, List.mem_singleton, exists_eq_left]
    exact or_comm
  · intro core value
    simp only [addProduction, ItemSet.mem_lookaheads_add ordered, List.mem_singleton, exists_eq_left]
  · intro core member
    simp only [addProduction]
    split
    · exact List.mem_cons_of_mem _ member
    · exact member
  · intro core untouched member
    simp only [addProduction] at untouched member ⊢
    cases changed : (items.add ⟨production, 0⟩ lookaheads).2 with
    | false =>
        rw [ItemSet.add_of_not_changed ordered sorted changed] at member ⊢
        exact ⟨member, rfl⟩
    | true =>
        rw [if_pos changed, List.mem_cons, not_or] at untouched
        refine ⟨((ItemSet.mem_cores_add _ _ _ _).mp member).resolve_left untouched.1, ?_⟩
        apply IdSet.eq_of_mem_iff
          (ItemSet.sorted_lookaheads (ItemSet.ordered_add ordered _ sorted) core)
          (ItemSet.sorted_lookaheads ordered core)
        intro value
        rw [ItemSet.mem_lookaheads_add ordered, or_iff_left]
        exact fun new => untouched.1 new.1
  · simp only [addProduction]
    cases changed : (items.add ⟨production, 0⟩ lookaheads).2 with
    | false =>
        have same : items.weight ≤ (items.add ⟨production, 0⟩ lookaheads).1.weight :=
          ItemSet.weight_le_add ordered sorted
        rw [if_neg Bool.false_ne_true]
        omega
    | true =>
        have more := ItemSet.weight_lt_add ordered sorted changed
        rw [if_pos rfl, List.length_cons]
        omega

private theorem Added.trans {lookaheads : IdSet} {front back : List Nat}
    {first second third : ItemSet × List Core} (left : Added lookaheads front first second)
    (right : Added lookaheads back second third) :
    Added lookaheads (front ++ back) first third := by
  have split : forall core : Core,
      (Exists fun production => production ∈ front ++ back ∧ core = ⟨production, 0⟩) ↔
        (Exists fun production => production ∈ front ∧ core = ⟨production, 0⟩) ∨
          Exists fun production => production ∈ back ∧ core = ⟨production, 0⟩ := by
    intro core
    simp only [List.mem_append, or_and_right, exists_or]
  refine ⟨right.ordered, ?_, ?_, ?_, ?_, ?_⟩
  · intro core
    rw [right.cores, left.cores, split, or_assoc]
  · intro core value
    rw [right.lookaheads, left.lookaheads, split, or_and_right, or_assoc]
  · intro core member
    exact right.touched core (left.touched core member)
  · intro core untouched member
    have later := right.untouched core untouched member
    have earlier := left.untouched core (fun found => untouched (right.touched core found)) later.1
    exact ⟨earlier.1, later.2.trans earlier.2⟩
  · have earlier := left.heavier
    have later := right.heavier
    omega

private theorem added_foldl {lookaheads : IdSet} (sorted : IdSet.Sorted lookaheads)
    (productions : List Nat) {state : ItemSet × List Core} (ordered : ItemSet.Ordered state.1) :
    Added lookaheads productions state (productions.foldl (addProduction lookaheads) state) := by
  induction productions generalizing state with
  | nil =>
      refine ⟨ordered, ?_, ?_, fun _ member => member, fun _ _ member => ⟨member, rfl⟩, Nat.le_refl _⟩
      · simp
      · simp
  | cons production rest inductionHypothesis =>
      have first := added_addProduction sorted ordered production
      exact first.trans (inductionHypothesis first.ordered)

theorem added_addProductions {lookaheads : IdSet} (sorted : IdSet.Sorted lookaheads)
    (productions : List Nat) {items : ItemSet} (ordered : ItemSet.Ordered items) :
    Added lookaheads productions (items, []) (addProductions lookaheads items productions) :=
  added_foldl sorted productions ordered

theorem Added.covers {lookaheads : IdSet} {productions : List Nat} {old new : ItemSet × List Core}
    (added : Added lookaheads productions old new) : Covers new.1 old.1 :=
  ⟨fun core member => (added.cores core).mpr (Or.inl member),
    fun core value member => (added.lookaheads core value).mpr (Or.inl member)⟩

/-! ## Expanding a core -/

/-- A property of cores and one of their lookaheads that pass from every core to those that it
calls for. -/
structure Inherited (present : Core -> Prop) (follows : Core -> Nat -> Prop) : Prop where
  called : forall core next rest production, present core ->
    analysis.fromDot core.production core.dot = next :: rest ->
    production ∈ analysis.productionsOf.getD next [] -> present ⟨production, 0⟩
  passed : forall core next rest production lookaheads value, present core ->
    (forall known, known ∈ lookaheads -> follows core known) ->
    analysis.fromDot core.production core.dot = next :: rest ->
    production ∈ analysis.productionsOf.getD next [] ->
    value ∈ analysis.firstOfSequence rest lookaheads -> follows ⟨production, 0⟩ value

/-- All items have the two properties. -/
structure Within (present : Core -> Prop) (follows : Core -> Nat -> Prop) (items : ItemSet) :
    Prop where
  cores : forall core, core ∈ items.cores -> present core
  lookaheads : forall core value, value ∈ items.lookaheads core -> follows core value

variable (grammar : PlainGrammar)

/-- What has become of a set in which a core was expanded. -/
structure Expansion (items : ItemSet) (core : Core) (result : ItemSet × List Core) : Prop where
  ordered : ItemSet.Ordered result.1
  covers : Covers result.1 items
  expanded : (ofGrammar grammar).Expanded result.1 core (items.lookaheads core)
  untouched : forall other, other ∉ result.2 -> other ∈ result.1.cores ->
    other ∈ items.cores ∧ result.1.lookaheads other = items.lookaheads other
  heavier : items.weight + result.2.length ≤ result.1.weight

theorem expansion_expandCore {items : ItemSet} (ordered : ItemSet.Ordered items) (core : Core) :
    Expansion grammar items core ((ofGrammar grammar).expandCore items core) := by
  unfold expandCore
  cases dotted : (ofGrammar grammar).fromDot core.production core.dot with
  | nil =>
      refine ⟨ordered, Covers.refl items, ?_, fun _ _ member => ⟨member, rfl⟩, Nat.le_refl _⟩
      intro next rest impossible
      rw [dotted] at impossible
      cases impossible
  | cons next rest =>
      have sorted := sorted_firstOfSequence grammar (ItemSet.sorted_lookaheads ordered core) rest
      have added := added_addProductions sorted
        ((ofGrammar grammar).productionsOf.getD next []) ordered
      refine ⟨added.ordered, added.covers, ?_, added.untouched, added.heavier⟩
      intro other others same production listed
      rw [dotted] at same
      cases same
      refine ⟨(added.cores _).mpr (Or.inr ⟨production, listed, rfl⟩), ?_⟩
      intro value member
      exact (added.lookaheads _ _).mpr (Or.inr ⟨⟨production, listed, rfl⟩, member⟩)

theorem within_expandCore {present : Core -> Prop} {follows : Core -> Nat -> Prop}
    (inherited : (ofGrammar grammar).Inherited present follows) {items : ItemSet}
    (ordered : ItemSet.Ordered items) (within : Within present follows items) {core : Core}
    (member : core ∈ items.cores) :
    Within present follows ((ofGrammar grammar).expandCore items core).1 := by
  unfold expandCore
  cases dotted : (ofGrammar grammar).fromDot core.production core.dot with
  | nil => exact within
  | cons next rest =>
      have sorted := sorted_firstOfSequence grammar (ItemSet.sorted_lookaheads ordered core) rest
      have added := added_addProductions sorted
        ((ofGrammar grammar).productionsOf.getD next []) ordered
      have here := within.cores core member
      constructor
      · intro other found
        rcases (added.cores other).mp found with known | ⟨production, listed, rfl⟩
        · exact within.cores other known
        · exact inherited.called core next rest production here dotted listed
      · intro other value found
        rcases (added.lookaheads other value).mp found with known | ⟨⟨production, listed, rfl⟩, new⟩
        · exact within.lookaheads other value known
        · exact inherited.passed core next rest production _ value here
            (within.lookaheads core) dotted listed new

/-! ## Expanding all that wait -/

/-- Every core either waits or has what it calls for, and only cores of the set wait. -/
structure Closing (work : List Core) (items : ItemSet) : Prop where
  ordered : ItemSet.Ordered items
  waiting : forall core, core ∈ work -> core ∈ items.cores
  settled : forall core, core ∈ items.cores -> core ∈ work ∨
    (ofGrammar grammar).Expanded items core (items.lookaheads core)

private theorem touched_expandCore (items : ItemSet) (core : Core) :
    forall other, other ∈ ((ofGrammar grammar).expandCore items core).2 ->
      other ∈ ((ofGrammar grammar).expandCore items core).1.cores := by
  have all : forall (lookaheads : IdSet) (productions : List Nat) (state : ItemSet × List Core),
      (forall other, other ∈ state.2 -> other ∈ state.1.cores) ->
      forall other, other ∈ (productions.foldl (addProduction lookaheads) state).2 ->
        other ∈ (productions.foldl (addProduction lookaheads) state).1.cores := by
    intro lookaheads productions
    induction productions with
    | nil => exact fun _ holds => holds
    | cons production rest inductionHypothesis =>
        intro state holds
        apply inductionHypothesis
        intro other member
        simp only [addProduction, ItemSet.mem_cores_add] at member ⊢
        split at member
        · exact (List.mem_cons.mp member).imp_right (holds other)
        · exact Or.inr (holds other member)
  unfold expandCore
  cases (ofGrammar grammar).fromDot core.production core.dot with
  | nil => exact fun _ impossible => by cases impossible
  | cons next rest => exact all _ _ (items, []) fun _ impossible => by cases impossible

theorem closing_expandCore {work : List Core} {items : ItemSet} {core : Core}
    (closing : Closing grammar (core :: work) items) :
    Closing grammar (((ofGrammar grammar).expandCore items core).2 ++ work)
      ((ofGrammar grammar).expandCore items core).1 := by
  have expansion := expansion_expandCore grammar closing.ordered core
  refine ⟨expansion.ordered, ?_, ?_⟩
  · intro other member
    rcases List.mem_append.mp member with touched | waits
    · exact touched_expandCore grammar items core other touched
    · exact expansion.covers.cores other (closing.waiting other (List.mem_cons_of_mem _ waits))
  · intro other member
    by_cases touched : other ∈ ((ofGrammar grammar).expandCore items core).2
    · exact Or.inl (List.mem_append_left _ touched)
    · rcases expansion.untouched other touched member with ⟨known, same⟩
      rw [same]
      rcases closing.settled other known with waits | done
      · rcases List.mem_cons.mp waits with here | later
        · rw [here]
          exact Or.inr expansion.expanded
        · exact Or.inl (List.mem_append_right _ later)
      · exact Or.inr (done.mono expansion.covers)

/-- Enough rounds close a set in which every core waits or has what it calls for. -/
theorem closed_closeWithin {present : Core -> Prop} {follows : Core -> Nat -> Prop}
    (inherited : (ofGrammar grammar).Inherited present follows) {limit : Nat}
    (limited : forall items, ItemSet.Ordered items -> Within present follows items ->
      items.weight ≤ limit)
    {bound : Nat} {work : List Core} {items : ItemSet} (closing : Closing grammar work items)
    (within : Within present follows items) (enough : work.length + limit ≤ bound + items.weight) :
    Closing grammar [] ((ofGrammar grammar).closeWithin bound work items) := by
  induction bound generalizing work items with
  | zero =>
      have small := limited items closing.ordered within
      have none : work = [] := List.eq_nil_of_length_eq_zero (by omega)
      rw [none] at closing
      exact closing
  | succ bound inductionHypothesis =>
      cases work with
      | nil => exact closing
      | cons core work =>
          have expansion := expansion_expandCore grammar closing.ordered core
          have heavier := expansion.heavier
          apply inductionHypothesis (closing_expandCore grammar closing)
            (within_expandCore grammar inherited closing.ordered within
              (closing.waiting core List.mem_cons_self))
          rw [List.length_cons] at enough
          rw [List.length_append]
          omega

theorem covers_closeWithin {bound : Nat} {work : List Core} {items : ItemSet}
    (closing : Closing grammar work items) :
    Covers ((ofGrammar grammar).closeWithin bound work items) items := by
  induction bound generalizing work items with
  | zero => exact Covers.refl items
  | succ bound inductionHypothesis =>
      cases work with
      | nil => exact Covers.refl items
      | cons core work =>
          exact (expansion_expandCore grammar closing.ordered core).covers.trans
            (inductionHypothesis (closing_expandCore grammar closing))

theorem within_closeWithin {present : Core -> Prop} {follows : Core -> Nat -> Prop}
    (inherited : (ofGrammar grammar).Inherited present follows) {bound : Nat} {work : List Core}
    {items : ItemSet} (closing : Closing grammar work items)
    (within : Within present follows items) :
    Within present follows ((ofGrammar grammar).closeWithin bound work items) := by
  induction bound generalizing work items with
  | zero => exact within
  | succ bound inductionHypothesis =>
      cases work with
      | nil => exact within
      | cons core work =>
          exact inductionHypothesis (closing_expandCore grammar closing)
            (within_expandCore grammar inherited closing.ordered within
              (closing.waiting core List.mem_cons_self))

/-! ## Closing a kernel -/

/-- Items in order whose lookaheads are symbols of the grammar. -/
structure Proper (items : ItemSet) : Prop where
  ordered : ItemSet.Ordered items
  inside : forall core value, value ∈ items.lookaheads core -> value < symbolCount grammar

theorem lt_of_mem_productionsOf {next production : Nat} (inside : next < symbolCount grammar)
    (listed : production ∈ (ofGrammar grammar).productionsOf.getD next []) :
    production < grammar.productions.length := by
  rcases (mem_productionsOf grammar inside).mp listed with ⟨pair, known, _⟩
  exact (List.getElem?_eq_some_iff.mp known).1

theorem next_inside {core : Core} {next : Nat} {rest : List Nat}
    (dotted : (ofGrammar grammar).fromDot core.production core.dot = next :: rest) :
    next < symbolCount grammar := by
  have member : next ∈ (ofGrammar grammar).fromDot core.production core.dot :=
    dotted ▸ List.mem_cons_self
  exact lt_of_mem_fromDot grammar member

/-- The lookaheads that a closure computes are symbols of the grammar. -/
theorem inherited_inside (kernel : ItemSet) :
    (ofGrammar grammar).Inherited
      (fun core => core ∈ kernel.cores ∨
        Exists fun production => production < grammar.productions.length ∧ core = ⟨production, 0⟩)
      (fun _ value => value < symbolCount grammar) := by
  constructor
  · intro core next rest production _ dotted listed
    have inside := lt_of_mem_productionsOf grammar (next_inside grammar dotted) listed
    exact Or.inr ⟨production, inside, rfl⟩
  · intro core next rest production lookaheads value _ tailInside _ _ member
    exact inside_firstOfSequence grammar tailInside rest value member

theorem within_kernel {kernel : ItemSet} (proper : Proper grammar kernel) :
    Within
      (fun core => core ∈ kernel.cores ∨
        Exists fun production => production < grammar.productions.length ∧ core = ⟨production, 0⟩)
      (fun _ value => value < symbolCount grammar) kernel :=
  ⟨fun _ member => Or.inl member, proper.inside⟩

theorem closing_kernel {kernel : ItemSet} (proper : Proper grammar kernel) :
    Closing grammar kernel.cores kernel :=
  ⟨proper.ordered, fun _ member => member, fun _ member => Or.inl member⟩

/-- There are only so many cores that a closure can hold, and so many lookaheads for each. -/
theorem weight_closure_le (kernel : ItemSet) {items : ItemSet}
    (ordered : ItemSet.Ordered items)
    (within : Within
      (fun core => core ∈ kernel.cores ∨
        Exists fun production => production < grammar.productions.length ∧ core = ⟨production, 0⟩)
      (fun _ value => value < symbolCount grammar) items) :
    items.weight ≤ (kernel.length + grammar.productions.length) * (symbolCount grammar + 1) := by
  let possible : Finset Core := kernel.cores.toFinset ∪
    (Finset.range grammar.productions.length).image fun production => ⟨production, 0⟩
  have cores : forall core, core ∈ items.cores -> core ∈ possible := by
    intro core member
    apply Finset.mem_union.mpr
    rcases within.cores core member with known | ⟨production, inside, rfl⟩
    · exact Or.inl (List.mem_toFinset.mpr known)
    · exact Or.inr (Finset.mem_image_of_mem _ (Finset.mem_range.mpr inside))
  have count : possible.card ≤ kernel.length + grammar.productions.length := by
    have first : kernel.cores.toFinset.card ≤ kernel.length := by
      have small := List.toFinset_card_le kernel.cores
      rwa [ItemSet.cores, List.length_map] at small
    have second : ((Finset.range grammar.productions.length).image
        fun production => (⟨production, 0⟩ : Core)).card ≤ grammar.productions.length := by
      have small := Finset.card_image_le (s := Finset.range grammar.productions.length)
        (f := fun production => (⟨production, 0⟩ : Core))
      rwa [Finset.card_range] at small
    have union := Finset.card_union_le kernel.cores.toFinset
      ((Finset.range grammar.productions.length).image fun production => (⟨production, 0⟩ : Core))
    exact Nat.le_trans union (Nat.add_le_add first second)
  have weight := ItemSet.weight_le ordered cores within.lookaheads
  exact Nat.le_trans weight (Nat.mul_le_mul_right _ count)

theorem closing_closure {kernel : ItemSet} (proper : Proper grammar kernel) :
    Closing grammar [] ((ofGrammar grammar).closure kernel) := by
  apply closed_closeWithin grammar (inherited_inside grammar kernel)
    (fun items ordered within => weight_closure_le grammar kernel ordered within)
    (closing_kernel grammar proper) (within_kernel grammar proper)
  have count : (ofGrammar grammar).vocabulary.productions.size = grammar.productions.length :=
    Vocabulary.size_productions grammar
  have symbols : (ofGrammar grammar).vocabulary.names.size = symbolCount grammar := rfl
  rw [closureBound, count, symbols, ItemSet.cores, List.length_map]
  have bound : (kernel.length + grammar.productions.length) * (symbolCount grammar + 2) =
      (kernel.length + grammar.productions.length) * (symbolCount grammar + 1) +
        (kernel.length + grammar.productions.length) := Nat.mul_succ _ _
  omega

/-- A closure has what all its cores call for. -/
theorem closed_closure {kernel : ItemSet} (proper : Proper grammar kernel) :
    (ofGrammar grammar).Closed ((ofGrammar grammar).closure kernel) := by
  intro core member
  have settled := (closing_closure grammar proper).settled core member
  exact settled.resolve_left List.not_mem_nil

/-- A closure has all items of its kernel. -/
theorem covers_closure {kernel : ItemSet} (proper : Proper grammar kernel) :
    Covers ((ofGrammar grammar).closure kernel) kernel :=
  covers_closeWithin grammar (closing_kernel grammar proper)

/-- A closure has nothing but what its kernel leads to. -/
theorem within_closure {kernel : ItemSet} (proper : Proper grammar kernel)
    {present : Core -> Prop} {follows : Core -> Nat -> Prop}
    (inherited : (ofGrammar grammar).Inherited present follows)
    (within : Within present follows kernel) :
    Within present follows ((ofGrammar grammar).closure kernel) :=
  within_closeWithin grammar inherited (closing_kernel grammar proper) within

theorem proper_closure {kernel : ItemSet} (proper : Proper grammar kernel) :
    Proper grammar ((ofGrammar grammar).closure kernel) :=
  ⟨(closing_closure grammar proper).ordered,
    (within_closure grammar proper (inherited_inside grammar kernel)
      (within_kernel grammar proper)).lookaheads⟩

/-- A closure gains no cores by lookaheads: its cores depend on those of the kernel alone. -/
theorem mem_cores_closure_of_subset {smaller larger : ItemSet} (smallerProper : Proper grammar smaller)
    (largerProper : Proper grammar larger)
    (subset : forall core, core ∈ smaller.cores -> core ∈ larger.cores) :
    forall core, core ∈ ((ofGrammar grammar).closure smaller).cores ->
      core ∈ ((ofGrammar grammar).closure larger).cores := by
  have inherited : (ofGrammar grammar).Inherited
      (fun core => core ∈ ((ofGrammar grammar).closure larger).cores) (fun _ _ => True) := by
    constructor
    · intro core next rest production member dotted listed
      exact (closed_closure grammar largerProper core member next rest dotted production listed).1
    · exact fun _ _ _ _ _ _ _ _ _ _ _ => trivial
  have within := within_closure grammar smallerProper inherited
    ⟨fun core member => (covers_closure grammar largerProper).cores core (subset core member),
      fun _ _ _ => trivial⟩
  exact within.cores

/-! ## Moving the dot -/

variable {analysis} in
theorem nextSymbol?_eq_some {core : Core} {symbol : Nat} :
    analysis.nextSymbol? core = some symbol ↔
      Exists fun rest => analysis.fromDot core.production core.dot = symbol :: rest := by
  unfold nextSymbol?
  cases analysis.fromDot core.production core.dot with
  | nil => simp
  | cons next rest => simp

theorem mem_nextSymbols {items : ItemSet} {symbol : Nat} :
    symbol ∈ analysis.nextSymbols items ↔
      Exists fun core => core ∈ items.cores ∧ analysis.nextSymbol? core = some symbol := by
  unfold nextSymbols
  rw [IdSet.mem_ofList, List.mem_filterMap]
  constructor
  · rintro ⟨⟨core, set⟩, listed, next⟩
    exact ⟨core, ItemSet.mem_cores.mpr ⟨set, listed⟩, next⟩
  · rintro ⟨core, member, next⟩
    exact ⟨_, ItemSet.mem_of_mem_cores member, next⟩

theorem mem_goto {items : ItemSet} {symbol : Nat} {item : Core × IdSet} :
    item ∈ analysis.goto items symbol ↔
      Exists fun source => (source, item.2) ∈ items ∧
        analysis.nextSymbol? source = some symbol ∧ item.1 = source.advance := by
  rcases item with ⟨core, set⟩
  unfold goto
  rw [List.mem_filterMap]
  constructor
  · rintro ⟨⟨source, known⟩, listed, moved⟩
    dsimp only at moved
    split at moved
    next next =>
      rw [Option.some.injEq, Prod.mk.injEq] at moved
      exact ⟨source, moved.2 ▸ listed, next, moved.1.symm⟩
    · cases moved
  · rintro ⟨source, listed, next, same⟩
    refine ⟨_, listed, ?_⟩
    dsimp only at same ⊢
    rw [if_pos next, same]

theorem mem_cores_goto {items : ItemSet} {symbol : Nat} {core : Core} :
    core ∈ (analysis.goto items symbol).cores ↔
      Exists fun source => source ∈ items.cores ∧
        analysis.nextSymbol? source = some symbol ∧ core = source.advance := by
  rw [ItemSet.mem_cores]
  constructor
  · rintro ⟨set, listed⟩
    rcases (mem_goto analysis).mp listed with ⟨source, known, next, same⟩
    exact ⟨source, ItemSet.mem_cores.mpr ⟨set, known⟩, next, same⟩
  · rintro ⟨source, member, next, same⟩
    exact ⟨_, (mem_goto analysis).mpr ⟨source, ItemSet.mem_of_mem_cores member, next, same⟩⟩

theorem advance_injective {left right : Core} (same : left.advance = right.advance) : left = right := by
  rcases left with ⟨production, dot⟩
  rcases right with ⟨otherProduction, otherDot⟩
  simp only [Core.advance, Core.mk.injEq, Nat.add_right_cancel_iff] at same
  rw [same.1, same.2]

private theorem before_advance {left right : Core} (precedes : left.before right = true) :
    left.advance.before right.advance = true := by
  rw [Core.before_iff] at precedes ⊢
  simp only [Core.advance]
  omega

theorem ordered_goto {items : ItemSet} (ordered : ItemSet.Ordered items) (symbol : Nat) :
    ItemSet.Ordered (analysis.goto items symbol) := by
  constructor
  · induction items with
    | nil => exact List.Pairwise.nil
    | cons head rest inductionHypothesis =>
        rcases head with ⟨core, known⟩
        rcases ItemSet.ordered_cons.mp ordered with ⟨first, _, others⟩
        have later := inductionHypothesis others
        unfold goto at later ⊢
        rw [List.filterMap_cons]
        split
        next => exact later
        next item moved =>
          dsimp only at moved
          split at moved
          next next =>
            cases moved
            refine List.pairwise_cons.mpr ⟨?_, later⟩
            intro other member
            rcases (mem_cores_goto analysis).mp member with ⟨source, listed, _, same⟩
            exact same ▸ before_advance (first source listed)
          next => cases moved
  · intro item member
    rcases (mem_goto analysis).mp member with ⟨source, listed, _⟩
    exact ordered.sets (source, item.2) listed

theorem mem_lookaheads_goto {items : ItemSet} (ordered : ItemSet.Ordered items) {symbol : Nat}
    {core : Core} {value : Nat} :
    value ∈ (analysis.goto items symbol).lookaheads core ↔
      Exists fun source => analysis.nextSymbol? source = some symbol ∧ core = source.advance ∧
        value ∈ items.lookaheads source := by
  constructor
  · intro member
    have present := ItemSet.mem_of_mem_cores (ItemSet.mem_cores_of_mem_lookaheads member)
    rcases (mem_goto analysis).mp present with ⟨source, listed, next, same⟩
    refine ⟨source, next, same, ?_⟩
    rw [ItemSet.lookaheads_of_mem ordered listed]
    exact member
  · rintro ⟨source, next, same, member⟩
    have listed := ItemSet.mem_of_mem_cores (ItemSet.mem_cores_of_mem_lookaheads member)
    have moved : (core, items.lookaheads source) ∈ analysis.goto items symbol :=
      (mem_goto analysis).mpr ⟨source, listed, next, same⟩
    rw [ItemSet.lookaheads_of_mem (ordered_goto analysis ordered symbol) moved]
    exact member

theorem proper_goto {items : ItemSet} (proper : Proper grammar items) (symbol : Nat) :
    Proper grammar ((ofGrammar grammar).goto items symbol) := by
  refine ⟨ordered_goto _ proper.ordered symbol, ?_⟩
  intro core value member
  rcases (mem_lookaheads_goto _ proper.ordered).mp member with ⟨source, _, _, known⟩
  exact proper.inside source value known

end Analysis

end ShiftReduce
