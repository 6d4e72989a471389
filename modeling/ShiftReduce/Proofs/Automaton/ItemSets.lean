import Mathlib.Algebra.Group.Action.Defs
import Mathlib.Algebra.Order.BigOperators.Group.List
import Mathlib.Algebra.Order.Ring.Nat
import Mathlib.Data.Finset.Card
import Mathlib.Data.List.Sort
import ShiftReduce.Automaton.Items

namespace ShiftReduce

/-!
# Sets of symbol numbers and sets of items

The automaton keeps its sets as ordered lists.  Two views make the order disappear.  A set of
numbers is known by its members, and a set of items by its cores and by the lookaheads of each core.
Adding items is described in these views alone, for all sets whose lists are in order.

Adding also answers whether anything changed.  That answer is exact: a set that did not change is
literally the same list, and a set that did change is heavier, where each core and each lookahead of
a core weighs one.  The second fact bounds every computation that goes on for as long as sets
change.
-/

namespace IdSet

/-- The members stand in strictly increasing order. -/
def Sorted (set : IdSet) : Prop := set.Pairwise (· < ·)

theorem mem_union (value : Nat) (left right : IdSet) :
    value ∈ left.union right ↔ value ∈ left ∨ value ∈ right := by
  fun_induction union left right with
  | case1 right => simp
  | case2 left _ => simp
  | case3 x xs y ys less inductionHypothesis =>
      simp only [List.mem_cons, inductionHypothesis]
      exact or_assoc.symm
  | case4 xs y ys _ inductionHypothesis =>
      simp only [List.mem_cons, inductionHypothesis]
      constructor
      · rintro (same | later | later)
        · exact Or.inl (Or.inl same)
        · exact Or.inl (Or.inr later)
        · exact Or.inr (Or.inr later)
      · rintro ((same | later) | (same | later))
        · exact Or.inl same
        · exact Or.inr (Or.inl later)
        · exact Or.inl same
        · exact Or.inr (Or.inr later)
  | case5 x xs y ys _ _ inductionHypothesis =>
      simp only [List.mem_cons, inductionHypothesis]
      exact or_left_comm

theorem sorted_union {left right : IdSet} (leftSorted : Sorted left) (rightSorted : Sorted right) :
    Sorted (left.union right) := by
  fun_induction union left right with
  | case1 right => exact rightSorted
  | case2 left _ => exact leftSorted
  | case3 x xs y ys less inductionHypothesis =>
      have parts := List.pairwise_cons.mp leftSorted
      have others := List.pairwise_cons.mp rightSorted
      refine List.pairwise_cons.mpr ⟨?_, inductionHypothesis parts.2 rightSorted⟩
      intro value member
      rcases (mem_union value xs (y :: ys)).mp member with later | later
      · exact parts.1 value later
      · rcases List.mem_cons.mp later with same | beyond
        · exact same ▸ less
        · exact Nat.lt_trans less (others.1 value beyond)
  | case4 xs y ys _ inductionHypothesis =>
      have parts := List.pairwise_cons.mp leftSorted
      have others := List.pairwise_cons.mp rightSorted
      refine List.pairwise_cons.mpr ⟨?_, inductionHypothesis parts.2 others.2⟩
      intro value member
      rcases (mem_union value xs ys).mp member with later | later
      · exact parts.1 value later
      · exact others.1 value later
  | case5 x xs y ys notLess different inductionHypothesis =>
      have parts := List.pairwise_cons.mp leftSorted
      have others := List.pairwise_cons.mp rightSorted
      have less : y < x := by omega
      refine List.pairwise_cons.mpr ⟨?_, inductionHypothesis leftSorted others.2⟩
      intro value member
      rcases (mem_union value (x :: xs) ys).mp member with later | later
      · rcases List.mem_cons.mp later with same | beyond
        · exact same ▸ less
        · exact Nat.lt_trans less (parts.1 value beyond)
      · exact others.1 value later

/-- Ordered sets with the same members are the same list. -/
theorem eq_of_mem_iff {left right : IdSet} (leftSorted : Sorted left) (rightSorted : Sorted right)
    (same : forall value, value ∈ left ↔ value ∈ right) : left = right :=
  List.Pairwise.eq_of_mem_iff leftSorted rightSorted (fun {value} => same value)

private theorem card_toFinset {set : IdSet} (sorted : Sorted set) :
    set.toFinset.card = set.length :=
  List.toFinset_card_of_nodup (sorted.imp Nat.ne_of_lt)

private theorem toFinset_subset_union (left right : IdSet) :
    left.toFinset ⊆ (left.union right).toFinset := by
  intro value member
  exact List.mem_toFinset.mpr ((mem_union value left right).mpr (Or.inl (List.mem_toFinset.mp member)))

theorem length_le_union {left right : IdSet} (leftSorted : Sorted left)
    (rightSorted : Sorted right) : left.length ≤ (left.union right).length := by
  rw [← card_toFinset leftSorted, ← card_toFinset (sorted_union leftSorted rightSorted)]
  exact Finset.card_le_card (toFinset_subset_union left right)

/-- A union that is no longer than its left side adds nothing to it. -/
theorem union_eq_left_of_length {left right : IdSet} (leftSorted : Sorted left)
    (rightSorted : Sorted right) (same : (left.union right).length = left.length) :
    left.union right = left := by
  have united := sorted_union leftSorted rightSorted
  have equal : left.toFinset = (left.union right).toFinset := by
    apply Finset.eq_of_subset_of_card_le (toFinset_subset_union left right)
    rw [card_toFinset leftSorted, card_toFinset united, same]
  apply eq_of_mem_iff united leftSorted
  intro value
  rw [← List.mem_toFinset, ← List.mem_toFinset, equal]

/-- A set of numbers below a bound has no more members than the bound. -/
theorem length_le_of_bounded {set : IdSet} {bound : Nat} (sorted : Sorted set)
    (bounded : forall value, value ∈ set -> value < bound) : set.length ≤ bound := by
  rw [← card_toFinset sorted, ← Finset.card_range bound]
  apply Finset.card_le_card
  intro value member
  exact Finset.mem_range.mpr (bounded value (List.mem_toFinset.mp member))

theorem mem_insert (value added : Nat) (set : IdSet) :
    value ∈ insert added set ↔ value = added ∨ value ∈ set := by
  induction set with
  | nil => simp [insert]
  | cons head rest inductionHypothesis =>
      simp only [insert]
      split
      · simp
      · split
        next _ same =>
          subst same
          simp
        next =>
          simp only [List.mem_cons, inductionHypothesis]
          exact or_left_comm

private theorem mem_foldl_insert (value : Nat) (values : List Nat) (set : IdSet) :
    value ∈ values.foldl (fun set added => insert added set) set ↔ value ∈ set ∨ value ∈ values := by
  induction values generalizing set with
  | nil => simp
  | cons head rest inductionHypothesis =>
      rw [List.foldl_cons, inductionHypothesis, mem_insert, List.mem_cons]
      constructor
      · rintro ((same | old) | later)
        · exact Or.inr (Or.inl same)
        · exact Or.inl old
        · exact Or.inr (Or.inr later)
      · rintro (old | same | later)
        · exact Or.inl (Or.inr old)
        · exact Or.inl (Or.inl same)
        · exact Or.inr later

theorem mem_ofList (value : Nat) (values : List Nat) : value ∈ ofList values ↔ value ∈ values := by
  unfold ofList
  rw [mem_foldl_insert]
  simp

end IdSet

namespace Core

theorem before_iff (left right : Core) :
    left.before right = true ↔
      left.production < right.production ∨
        left.production = right.production ∧ left.dot < right.dot := by
  simp [before]

theorem not_before_self (core : Core) : ¬ core.before core = true := by
  rw [before_iff]
  omega

theorem before_trans {first second third : Core} (left : first.before second = true)
    (right : second.before third = true) : first.before third = true := by
  rw [before_iff] at left right ⊢
  omega

theorem before_of_not_before {left right : Core} (different : left ≠ right)
    (notBefore : ¬ left.before right = true) : right.before left = true := by
  rw [before_iff] at notBefore ⊢
  have apart : left.production = right.production -> left.dot ≠ right.dot := by
    intro production dot
    cases left
    cases right
    exact different (by simp_all)
  omega

instance : Std.Irrefl fun left right : Core => left.before right = true := ⟨not_before_self⟩

instance : Std.Antisymm fun left right : Core => left.before right = true :=
  ⟨fun left _ forward backward => (not_before_self left (before_trans forward backward)).elim⟩

end Core

namespace ItemSet

/-- The cores stand in increasing order, and so do the lookaheads of each. -/
structure Ordered (items : ItemSet) : Prop where
  cores : items.cores.Pairwise fun left right => left.before right = true
  sets : forall item, item ∈ items -> IdSet.Sorted item.2

/-- The number of cores and of lookaheads of cores. -/
def weight (items : ItemSet) : Nat := (items.map fun item => item.2.length + 1).sum

theorem ordered_cons {head : Core} {known : IdSet} {rest : ItemSet} :
    Ordered ((head, known) :: rest) ↔
      (forall core, core ∈ cores rest -> head.before core = true) ∧ IdSet.Sorted known ∧
        Ordered rest := by
  constructor
  · intro ordered
    have parts := List.pairwise_cons.mp ordered.cores
    exact ⟨parts.1, ordered.sets _ List.mem_cons_self,
      parts.2, fun item member => ordered.sets item (List.mem_cons_of_mem _ member)⟩
  · rintro ⟨first, sorted, ordered⟩
    refine ⟨List.pairwise_cons.mpr ⟨first, ordered.cores⟩, ?_⟩
    intro item member
    rcases List.mem_cons.mp member with same | later
    · exact same ▸ sorted
    · exact ordered.sets item later

theorem nodup_cores {items : ItemSet} (ordered : Ordered items) : items.cores.Nodup := by
  refine ordered.cores.imp ?_
  intro left right earlier same
  exact Core.not_before_self right (same ▸ earlier)

theorem mem_cores {items : ItemSet} {core : Core} :
    core ∈ items.cores ↔ Exists fun set => (core, set) ∈ items := by
  simp [cores]

theorem lookaheads_cons (head core : Core) (known : IdSet) (rest : ItemSet) :
    lookaheads ((head, known) :: rest) core = if core = head then known else lookaheads rest core := by
  unfold lookaheads
  rw [List.lookup_cons]
  by_cases same : core = head
  · simp [same]
  · rw [if_neg same, beq_eq_false_iff_ne.mpr same]

theorem lookaheads_of_not_mem {items : ItemSet} {core : Core} (absent : core ∉ items.cores) :
    items.lookaheads core = [] := by
  induction items with
  | nil => rfl
  | cons item rest inductionHypothesis =>
      have parts := List.ne_and_not_mem_of_not_mem_cons absent
      rw [lookaheads_cons, if_neg parts.1]
      exact inductionHypothesis parts.2

theorem mem_cores_of_mem_lookaheads {items : ItemSet} {core : Core} {value : Nat}
    (member : value ∈ items.lookaheads core) : core ∈ items.cores := by
  by_contra absent
  rw [lookaheads_of_not_mem absent] at member
  exact List.not_mem_nil member

theorem lookaheads_of_mem {items : ItemSet} (ordered : Ordered items) {core : Core} {set : IdSet}
    (member : (core, set) ∈ items) : items.lookaheads core = set := by
  induction items with
  | nil => exact (List.not_mem_nil member).elim
  | cons item rest inductionHypothesis =>
      have parts := ordered_cons.mp ordered
      rw [lookaheads_cons]
      rcases List.mem_cons.mp member with same | later
      · rw [← same, if_pos rfl]
      · have different : core ≠ item.1 := by
          intro same
          exact Core.not_before_self core (same ▸ parts.1 core (mem_cores.mpr ⟨set, later⟩))
        rw [if_neg different]
        exact inductionHypothesis parts.2.2 later

theorem mem_of_mem_cores {items : ItemSet} {core : Core} (member : core ∈ items.cores) :
    (core, items.lookaheads core) ∈ items := by
  induction items with
  | nil => exact (List.not_mem_nil member).elim
  | cons item rest inductionHypothesis =>
      rw [lookaheads_cons]
      by_cases same : core = item.1
      · rw [if_pos same, same]
        exact List.mem_cons_self
      · rw [if_neg same]
        exact List.mem_cons_of_mem _ (inductionHypothesis ((List.mem_cons.mp member).resolve_left same))

theorem sorted_lookaheads {items : ItemSet} (ordered : Ordered items) (core : Core) :
    IdSet.Sorted (items.lookaheads core) := by
  by_cases member : core ∈ items.cores
  · exact ordered.sets _ (mem_of_mem_cores member)
  · rw [lookaheads_of_not_mem member]
    exact List.Pairwise.nil

/-! ## Adding one core -/

theorem mem_cores_add (items : ItemSet) (added core : Core) (set : IdSet) :
    core ∈ (items.add added set).1.cores ↔ core = added ∨ core ∈ items.cores := by
  induction items with
  | nil => simp [add, cores]
  | cons item rest inductionHypothesis =>
      rcases item with ⟨head, known⟩
      simp only [add]
      split
      next same =>
        subst same
        simp [cores]
      next =>
        split
        · simp [cores]
        next =>
          simp only [cores, List.map_cons, List.mem_cons] at inductionHypothesis ⊢
          rw [inductionHypothesis]
          exact or_left_comm

theorem ordered_add {items : ItemSet} (ordered : Ordered items) (added : Core) {set : IdSet}
    (sorted : IdSet.Sorted set) : Ordered (items.add added set).1 := by
  induction items with
  | nil => exact ordered_cons.mpr ⟨fun _ member => (List.not_mem_nil member).elim, sorted, ordered⟩
  | cons item rest inductionHypothesis =>
      rcases item with ⟨head, known⟩
      have parts := ordered_cons.mp ordered
      simp only [add]
      split
      · exact ordered_cons.mpr ⟨parts.1, IdSet.sorted_union parts.2.1 sorted, parts.2.2⟩
      next different =>
        split
        next earlier =>
          refine ordered_cons.mpr ⟨?_, sorted, ordered⟩
          intro core member
          rcases List.mem_cons.mp member with same | later
          · exact same ▸ earlier
          · exact Core.before_trans earlier (parts.1 core later)
        next notEarlier =>
          refine ordered_cons.mpr ⟨?_, parts.2.1, inductionHypothesis parts.2.2⟩
          intro core member
          rcases (mem_cores_add rest added core set).mp member with same | later
          · exact same ▸ Core.before_of_not_before different notEarlier
          · exact parts.1 core later

theorem mem_lookaheads_add {items : ItemSet} (ordered : Ordered items) (added core : Core)
    (set : IdSet) (value : Nat) :
    value ∈ (items.add added set).1.lookaheads core ↔
      value ∈ items.lookaheads core ∨ core = added ∧ value ∈ set := by
  induction items with
  | nil =>
      simp only [add, lookaheads_cons]
      by_cases same : core = added
      · simp [same, lookaheads]
      · simp [same, lookaheads]
  | cons item rest inductionHypothesis =>
      rcases item with ⟨head, known⟩
      have parts := ordered_cons.mp ordered
      simp only [add]
      split
      next same =>
        subst same
        rw [lookaheads_cons, lookaheads_cons]
        by_cases here : core = added
        · rw [if_pos here, if_pos here, IdSet.mem_union]
          simp [here]
        · simp [here]
      next different =>
        split
        next earlier =>
          have absent : added ∉ cores ((head, known) :: rest) := by
            intro member
            rcases List.mem_cons.mp member with same | later
            · exact different same
            · exact Core.not_before_self added (Core.before_trans earlier (parts.1 added later))
          rw [lookaheads_cons]
          by_cases here : core = added
          · rw [if_pos here, here, lookaheads_of_not_mem absent]
            simp
          · simp [here]
        next =>
          rw [lookaheads_cons, lookaheads_cons]
          by_cases here : core = head
          · have apart : core ≠ added := fun same => different (same.symm.trans here)
            simp [here, Ne.symm different]
          · rw [if_neg here, if_neg here]
            exact inductionHypothesis parts.2.2

/-- An addition that answers that nothing changed has changed nothing. -/
theorem add_of_not_changed {items : ItemSet} (ordered : Ordered items) {added : Core} {set : IdSet}
    (sorted : IdSet.Sorted set) (unchanged : (items.add added set).2 = false) :
    (items.add added set).1 = items := by
  induction items with
  | nil => simp [add] at unchanged
  | cons item rest inductionHypothesis =>
      rcases item with ⟨head, known⟩
      have parts := ordered_cons.mp ordered
      simp only [add] at unchanged ⊢
      split at unchanged
      next same =>
        have equal : (known.union set).length = known.length := by simpa using unchanged
        rw [if_pos same, IdSet.union_eq_left_of_length parts.2.1 sorted equal]
      next different =>
        split at unchanged
        · simp at unchanged
        next notEarlier =>
          rw [if_neg different, if_neg notEarlier]
          exact congrArg _ (inductionHypothesis parts.2.2 unchanged)

theorem weight_cons (item : Core × IdSet) (rest : ItemSet) :
    weight (item :: rest) = item.2.length + 1 + weight rest := by
  simp [weight]

theorem weight_lt_add {items : ItemSet} (ordered : Ordered items) {added : Core} {set : IdSet}
    (sorted : IdSet.Sorted set) (changed : (items.add added set).2 = true) :
    weight items < weight (items.add added set).1 := by
  induction items with
  | nil => simp [add, weight]
  | cons item rest inductionHypothesis =>
      rcases item with ⟨head, known⟩
      have parts := ordered_cons.mp ordered
      simp only [add] at changed ⊢
      split at changed
      next same =>
        have longer : (known.union set).length ≠ known.length := by simpa using changed
        have grown := IdSet.length_le_union parts.2.1 sorted
        rw [if_pos same, weight_cons, weight_cons]
        dsimp only
        omega
      next different =>
        split at changed
        next earlier =>
          rw [if_neg different, if_pos earlier, weight_cons (added, set)]
          omega
        next notEarlier =>
          have later := inductionHypothesis parts.2.2 changed
          rw [if_neg different, if_neg notEarlier, weight_cons, weight_cons]
          dsimp only
          omega

theorem weight_le_add {items : ItemSet} (ordered : Ordered items) {added : Core} {set : IdSet}
    (sorted : IdSet.Sorted set) : weight items ≤ weight (items.add added set).1 := by
  cases changed : (items.add added set).2 with
  | false => rw [add_of_not_changed ordered sorted changed]
  | true => exact Nat.le_of_lt (weight_lt_add ordered sorted changed)

/-- Cores out of a finite set and lookaheads below a bound limit the weight. -/
theorem weight_le {items : ItemSet} (ordered : Ordered items) {possible : Finset Core} {bound : Nat}
    (cores : forall core, core ∈ items.cores -> core ∈ possible)
    (bounded : forall core value, value ∈ items.lookaheads core -> value < bound) :
    weight items ≤ possible.card * (bound + 1) := by
  have small : forall length, length ∈ items.map (fun item => item.2.length + 1) ->
      length ≤ bound + 1 := by
    intro length member
    rcases List.mem_map.mp member with ⟨item, listed, equal⟩
    have known : items.lookaheads item.1 = item.2 := lookaheads_of_mem ordered listed
    have below := IdSet.length_le_of_bounded (ordered.sets item listed)
      (fun value inside => bounded item.1 value (known ▸ inside))
    omega
  have total := List.sum_le_card_nsmul _ _ small
  have distinct := nodup_cores ordered
  have count : items.length ≤ possible.card := by
    have listed := List.toFinset_card_of_nodup distinct
    have within : items.cores.toFinset ⊆ possible :=
      fun core member => cores core (List.mem_toFinset.mp member)
    have fewer := Finset.card_le_card within
    rw [listed] at fewer
    simpa [ItemSet.cores] using fewer
  rw [List.length_map, smul_eq_mul] at total
  exact Nat.le_trans total (Nat.mul_le_mul_right _ count)

/-! ## Adding all items of a set -/

/-- What holds of a set and its answer after some items have been added to a start. -/
private structure AddedTo (start : ItemSet) (result : ItemSet × Bool) : Prop where
  ordered : Ordered result.1
  unchanged : result.2 = false -> result.1 = start
  heavier : weight start ≤ weight result.1
  changed : result.2 = true -> weight start < weight result.1

private def addItem (result : ItemSet × Bool) (item : Core × IdSet) : ItemSet × Bool :=
  ((result.1.add item.1 item.2).1, result.2 || (result.1.add item.1 item.2).2)

private theorem addAll_eq (items new : ItemSet) :
    items.addAll new = new.foldl addItem (items, false) := rfl

private theorem addedTo_addItem {start : ItemSet} {result : ItemSet × Bool} {item : Core × IdSet}
    (added : AddedTo start result) (sorted : IdSet.Sorted item.2) :
    AddedTo start (addItem result item) := by
  have more : weight result.1 ≤ weight (result.1.add item.1 item.2).1 :=
    weight_le_add added.ordered sorted
  have heavier := added.heavier
  refine ⟨ordered_add added.ordered item.1 sorted, ?_, Nat.le_trans heavier more, ?_⟩
  · intro unchanged
    have parts := Bool.or_eq_false_iff.mp unchanged
    rw [addItem, add_of_not_changed added.ordered sorted parts.2]
    exact added.unchanged parts.1
  · intro changed
    rcases Bool.or_eq_true_iff.mp changed with before | now
    · exact Nat.lt_of_lt_of_le (added.changed before) more
    · exact Nat.lt_of_le_of_lt heavier (weight_lt_add added.ordered sorted now)

private theorem addedTo_foldl {start : ItemSet} (new : ItemSet) {result : ItemSet × Bool}
    (added : AddedTo start result) (sorted : forall item, item ∈ new -> IdSet.Sorted item.2) :
    AddedTo start (new.foldl addItem result) := by
  induction new generalizing result with
  | nil => exact added
  | cons item rest inductionHypothesis =>
      exact inductionHypothesis (addedTo_addItem added (sorted item List.mem_cons_self))
        fun later member => sorted later (List.mem_cons_of_mem _ member)

private theorem addedTo_addAll {items new : ItemSet} (ordered : Ordered items)
    (newOrdered : Ordered new) : AddedTo items (items.addAll new) := by
  rw [addAll_eq]
  refine addedTo_foldl new ⟨ordered, fun _ => rfl, Nat.le_refl _, ?_⟩ newOrdered.sets
  intro impossible
  exact Bool.noConfusion impossible

theorem ordered_addAll {items new : ItemSet} (ordered : Ordered items) (newOrdered : Ordered new) :
    Ordered (items.addAll new).1 :=
  (addedTo_addAll ordered newOrdered).ordered

theorem addAll_of_not_changed {items new : ItemSet} (ordered : Ordered items)
    (newOrdered : Ordered new) (unchanged : (items.addAll new).2 = false) :
    (items.addAll new).1 = items :=
  (addedTo_addAll ordered newOrdered).unchanged unchanged

theorem weight_lt_addAll {items new : ItemSet} (ordered : Ordered items)
    (newOrdered : Ordered new) (changed : (items.addAll new).2 = true) :
    weight items < weight (items.addAll new).1 :=
  (addedTo_addAll ordered newOrdered).changed changed

private theorem mem_cores_foldl (new : ItemSet) (result : ItemSet × Bool) (core : Core) :
    core ∈ (new.foldl addItem result).1.cores ↔ core ∈ result.1.cores ∨ core ∈ new.cores := by
  induction new generalizing result with
  | nil => simp [cores]
  | cons item rest inductionHypothesis =>
      rw [List.foldl_cons, inductionHypothesis, addItem, mem_cores_add]
      simp only [cores, List.map_cons, List.mem_cons]
      constructor
      · rintro ((same | old) | later)
        · exact Or.inr (Or.inl same)
        · exact Or.inl old
        · exact Or.inr (Or.inr later)
      · rintro (old | same | later)
        · exact Or.inl (Or.inr old)
        · exact Or.inl (Or.inl same)
        · exact Or.inr later

theorem mem_cores_addAll (items new : ItemSet) (core : Core) :
    core ∈ (items.addAll new).1.cores ↔ core ∈ items.cores ∨ core ∈ new.cores :=
  mem_cores_foldl new (items, false) core

private theorem mem_lookaheads_foldl {new : ItemSet} (newOrdered : Ordered new)
    {result : ItemSet × Bool} (ordered : Ordered result.1) (core : Core) (value : Nat) :
    value ∈ (new.foldl addItem result).1.lookaheads core ↔
      value ∈ result.1.lookaheads core ∨ value ∈ new.lookaheads core := by
  induction new generalizing result with
  | nil => simp [lookaheads]
  | cons item rest inductionHypothesis =>
      rcases item with ⟨head, known⟩
      have parts := ordered_cons.mp newOrdered
      have grown : Ordered (addItem result (head, known)).1 := ordered_add ordered head parts.2.1
      rw [List.foldl_cons, inductionHypothesis parts.2.2 grown, addItem,
        mem_lookaheads_add ordered, lookaheads_cons]
      by_cases same : core = head
      · have absent : core ∉ cores rest :=
          fun member => Core.not_before_self core (same ▸ parts.1 core member)
        rw [if_pos same, lookaheads_of_not_mem absent]
        simp [same]
      · simp [same]

theorem mem_lookaheads_addAll {items new : ItemSet} (ordered : Ordered items)
    (newOrdered : Ordered new) (core : Core) (value : Nat) :
    value ∈ (items.addAll new).1.lookaheads core ↔
      value ∈ items.lookaheads core ∨ value ∈ new.lookaheads core :=
  mem_lookaheads_foldl newOrdered ordered core value

/-- Ordered sets with the same cores list them alike. -/
theorem cores_eq_of_mem_iff {left right : ItemSet} (leftOrdered : Ordered left)
    (rightOrdered : Ordered right)
    (same : forall core, core ∈ left.cores ↔ core ∈ right.cores) : left.cores = right.cores :=
  List.Pairwise.eq_of_mem_iff leftOrdered.cores rightOrdered.cores (fun {core} => same core)

end ItemSet

end ShiftReduce
