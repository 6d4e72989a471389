import Mathlib.Logic.Function.Iterate
import ShiftReduce.Proofs.Automaton.Construction

namespace ShiftReduce

/-!
# The worklists of the construction

The construction of an automaton works off two lists.  While a set of items is closed, cores wait in a
list to be expanded, and each core that gains something waits again.  While states are looked at, states
wait in a queue, and each state whose kernel gains a lookahead waits again.  Neither list has an order
that would let one see that it runs empty: rules may call themselves, go round in a circle, vanish or
derive nothing, and a state may lead to itself.

For closures the order is left open.  Any core that waits may be expanded next, and the cores that it
touches may be put anywhere.  Every touch makes the set heavier, and the weight of a closure has a limit,
so all orders come to an end, within the number of rounds that a closure is given.  They all end with
the same set, the least closed one.

The queue of states is taken apart into moments: in each of them one kernel is absorbed or one state is
taken from the queue.  What is absorbed is added to what is there, so from moment to moment kernels only
grow, and the closures of their states with them.  At some moment nothing is left to do, and the states
are those of the automaton.
-/

namespace ItemSet

private theorem eq_map_lookaheads {items : ItemSet} (ordered : Ordered items) :
    items = items.cores.map fun core => (core, items.lookaheads core) := by
  conv_lhs => rw [← List.map_id items]
  rw [cores, List.map_map]
  refine List.map_congr_left fun item member => ?_
  exact Prod.ext rfl (lookaheads_of_mem ordered member).symm

end ItemSet

namespace Analysis

/-- Two sets in order that have each other's items are the same. -/
theorem Covers.antisymm {left right : ItemSet} (leftOrdered : ItemSet.Ordered left)
    (rightOrdered : ItemSet.Ordered right) (forward : Covers left right)
    (backward : Covers right left) : left = right := by
  have cores : left.cores = right.cores :=
    ItemSet.cores_eq_of_mem_iff leftOrdered rightOrdered fun core =>
      ⟨backward.cores core, forward.cores core⟩
  have lookaheads : left.lookaheads = right.lookaheads := by
    funext core
    exact IdSet.eq_of_mem_iff (ItemSet.sorted_lookaheads leftOrdered core)
      (ItemSet.sorted_lookaheads rightOrdered core) fun value =>
        ⟨backward.lookaheads core value, forward.lookaheads core value⟩
  rw [ItemSet.eq_map_lookaheads leftOrdered, ItemSet.eq_map_lookaheads rightOrdered, cores,
    lookaheads]

/-! ## Closing in any order -/

/-- A closure that is under way: the cores that wait, and the items so far. -/
structure PartialClosure where
  work : List Core
  items : ItemSet

/-- The closure before anything is expanded. -/
def PartialClosure.start (kernel : ItemSet) : PartialClosure := ⟨kernel.cores, kernel⟩

/-- One of the cores that wait is expanded, and those that it touches wait again.  Which core it is and
in which order the others are kept is left open. -/
inductive Expands (analysis : Analysis) : PartialClosure -> PartialClosure -> Prop where
  | expand (old : PartialClosure) (core : Core) (rest work : List Core)
      (taken : old.work.Perm (core :: rest))
      (kept : work.Perm ((analysis.expandCore old.items core).2 ++ rest)) :
      Expands analysis old ⟨work, (analysis.expandCore old.items core).1⟩

/-- A number of cores are expanded, one after the other. -/
inductive ExpandsMany (analysis : Analysis) : Nat -> PartialClosure -> PartialClosure -> Prop where
  | none (closure : PartialClosure) : ExpandsMany analysis 0 closure closure
  | more (count : Nat) (first second third : PartialClosure)
      (before : ExpandsMany analysis count first second) (last : analysis.Expands second third) :
      ExpandsMany analysis (count + 1) first third

variable {grammar : PlainGrammar}

theorem Closing.perm {work others : List Core} {items : ItemSet}
    (closing : Closing grammar work items) (same : others.Perm work) :
    Closing grammar others items :=
  ⟨closing.ordered, fun core member => closing.waiting core (same.mem_iff.mp member),
    fun core member => (closing.settled core member).imp_left same.mem_iff.mpr⟩

/-- What has become of a closure in which any number of cores were expanded. -/
structure Progress (grammar : PlainGrammar) (present : Core -> Prop) (follows : Core -> Nat -> Prop)
    (count : Nat) (old new : PartialClosure) : Prop where
  closing : Closing grammar new.work new.items
  within : Within present follows new.items
  covers : Covers new.items old.items
  paid : old.items.weight + count + new.work.length ≤ new.items.weight + old.work.length

theorem ExpandsMany.progress {present : Core -> Prop} {follows : Core -> Nat -> Prop}
    (inherited : (ofGrammar grammar).Inherited present follows) {count : Nat}
    {old new : PartialClosure} (expands : (ofGrammar grammar).ExpandsMany count old new)
    (closing : Closing grammar old.work old.items) (within : Within present follows old.items) :
    Progress grammar present follows count old new := by
  induction expands with
  | none => exact ⟨closing, within, Covers.refl _, Nat.le_refl _⟩
  | more count old middle new _ last inductionHypothesis =>
      have before := inductionHypothesis closing within
      cases last with
      | expand core rest work taken kept =>
          have ready := before.closing.perm taken.symm
          have expansion := expansion_expandCore grammar ready.ordered core
          refine ⟨(closing_expandCore grammar ready).perm kept,
            within_expandCore grammar inherited ready.ordered before.within
              (ready.waiting core List.mem_cons_self),
            before.covers.trans expansion.covers, ?_⟩
          have paid := before.paid
          have heavier := expansion.heavier
          have takenLength := taken.length_eq
          have keptLength := kept.length_eq
          rw [List.length_cons] at takenLength
          rw [List.length_append] at keptLength
          dsimp only
          omega

/-- A core that waits can be expanded. -/
theorem exists_expands {closure : PartialClosure} (waits : closure.work ≠ []) :
    Exists fun next => (ofGrammar grammar).Expands closure next := by
  rcases closure with ⟨work, items⟩
  cases work with
  | nil => exact (waits rfl).elim
  | cons core rest => exact ⟨_, .expand _ core rest _ (.refl _) (.refl _)⟩

/-- What a closed set has, it passes on to itself. -/
theorem inherited_of_closed {items : ItemSet} (closed : (ofGrammar grammar).Closed items) :
    (ofGrammar grammar).Inherited (fun core => core ∈ items.cores)
      (fun core value => value ∈ items.lookaheads core) := by
  refine ⟨fun core next rest production member dotted listed =>
    (closed core member next rest dotted production listed).1, ?_⟩
  intro core next rest production lookaheads value member known dotted listed found
  apply (closed core member next rest dotted production listed).2
  rw [firstOfSequence, mem_firstOf] at found ⊢
  exact found.imp_right fun tail => ⟨tail.1, known value tail.2⟩

/-- Larger kernels have larger closures. -/
theorem Covers.closure {larger smaller : ItemSet} (largerProper : Proper grammar larger)
    (smallerProper : Proper grammar smaller) (covers : Covers larger smaller) :
    Covers ((ofGrammar grammar).closure larger) ((ofGrammar grammar).closure smaller) := by
  have closed := inherited_of_closed (closed_closure grammar largerProper)
  have whole := covers.trans (covers_closure grammar largerProper)
  have within := within_closure grammar smallerProper closed ⟨whole.cores, whole.lookaheads⟩
  exact ⟨within.cores, within.lookaheads⟩

variable {kernel : ItemSet} {count : Nat} {closing : PartialClosure}

/-- No order of expansions is longer than a closure is given rounds. -/
theorem ExpandsMany.count_le (proper : Proper grammar kernel)
    (expands : (ofGrammar grammar).ExpandsMany count (.start kernel) closing) :
    count ≤ (ofGrammar grammar).closureBound kernel := by
  have progress := expands.progress (inherited_inside grammar kernel) (closing_kernel grammar proper)
    (within_kernel grammar proper)
  have limited := weight_closure_le grammar kernel progress.closing.ordered progress.within
  have paid := progress.paid
  have waiting : (PartialClosure.start kernel).work.length = kernel.length := List.length_map _
  have productions : (ofGrammar grammar).vocabulary.productions.size = grammar.productions.length :=
    Vocabulary.size_productions grammar
  have symbols : (ofGrammar grammar).vocabulary.names.size = symbolCount grammar := rfl
  have bound : (kernel.length + grammar.productions.length) * (symbolCount grammar + 2) =
      (kernel.length + grammar.productions.length) * (symbolCount grammar + 1) +
        (kernel.length + grammar.productions.length) := Nat.mul_succ _ _
  rw [closureBound, productions, symbols]
  omega

/-- All orders of expansions end with the same set. -/
theorem ExpandsMany.items_eq (proper : Proper grammar kernel)
    (expands : (ofGrammar grammar).ExpandsMany count (.start kernel) closing)
    (done : closing.work = []) : closing.items = (ofGrammar grammar).closure kernel := by
  have whole := covers_closure grammar proper
  have progress := expands.progress (inherited_of_closed (closed_closure grammar proper))
    (closing_kernel grammar proper) ⟨whole.cores, whole.lookaheads⟩
  have closed : (ofGrammar grammar).Closed closing.items := fun core member =>
    (progress.closing.settled core member).resolve_left (done ▸ List.not_mem_nil)
  have within := within_closure grammar proper (inherited_of_closed closed)
    ⟨progress.covers.cores, progress.covers.lookaheads⟩
  exact Covers.antisymm progress.closing.ordered (proper_closure grammar proper).ordered
    ⟨within.cores, within.lookaheads⟩ ⟨progress.within.cores, progress.within.lookaheads⟩

/-- Some order of expansions ends, since none can go on for ever. -/
theorem exists_closure (proper : Proper grammar kernel) :
    Exists fun count => (ofGrammar grammar).ExpandsMany count (.start kernel)
      ⟨[], (ofGrammar grammar).closure kernel⟩ := by
  have ends : forall left count closing,
      (ofGrammar grammar).ExpandsMany count (.start kernel) closing ->
        (ofGrammar grammar).closureBound kernel < count + left ->
          Exists fun more => Exists fun final =>
            (ofGrammar grammar).ExpandsMany more (.start kernel) final ∧ final.work = [] := by
    intro left
    induction left with
    | zero =>
        intro count closing expands enough
        have few := expands.count_le proper
        omega
    | succ left inductionHypothesis =>
        intro count closing expands enough
        by_cases done : closing.work = []
        · exact ⟨count, closing, expands, done⟩
        · rcases exists_expands done with ⟨next, last⟩
          exact inductionHypothesis (count + 1) next (.more count _ closing next expands last)
            (by omega)
  rcases ends ((ofGrammar grammar).closureBound kernel + 1) 0 _ (.none _) (by omega) with
    ⟨count, ⟨work, items⟩, expands, rfl⟩
  have same : items = _ := expands.items_eq proper rfl
  exact ⟨count, same ▸ expands⟩

end Analysis

namespace Construction

open Analysis

/-! ## Moments -/

/-- A construction while the state `source` is looked at.  The kernels that the state leads to and
that have not been absorbed yet are pending. -/
structure Moment where
  construction : Construction
  source : Nat
  pending : List (Nat × ItemSet)

namespace Moment

/-- The next moment: a pending kernel has been absorbed, or if there is none the state in front of the
queue has been taken.  A moment at which nothing is left to do stays. -/
def next (analysis : Analysis) (moment : Moment) : Moment :=
  match moment.pending with
  | (symbol, kernel) :: pending =>
    ⟨moment.construction.absorb moment.source symbol kernel, moment.source, pending⟩
  | [] =>
    match moment.construction.queue with
    | [] => moment
    | source :: queue =>
      match moment.construction.states[source]? with
      | none => ⟨{ moment.construction with queue }, source, []⟩
      | some state =>
        ⟨{ moment.construction with queue }, source,
          analysis.gotos (analysis.closure state.kernel)⟩

/-- Nothing is left to do. -/
def Done (moment : Moment) : Prop :=
  moment.pending = [] ∧ moment.construction.queue = []

variable (analysis : Analysis)

private theorem iterate_pending (source : Nat) (pending : List (Nat × ItemSet))
    (construction : Construction) :
    (next analysis)^[pending.length] ⟨construction, source, pending⟩ =
      ⟨pending.foldl (fun construction (symbol, kernel) =>
        construction.absorb source symbol kernel) construction, source, []⟩ := by
  induction pending generalizing construction with
  | nil => rfl
  | cons head rest inductionHypothesis =>
      rw [List.length_cons, Function.iterate_succ_apply]
      exact inductionHypothesis _

/-- A round of the construction takes a number of moments. -/
theorem exists_step (construction : Construction) (source : Nat) :
    Exists fun count => Exists fun other => (next analysis)^[count] ⟨construction, source, []⟩ =
      ⟨construction.step analysis, other, []⟩ := by
  rcases construction with ⟨states, queue⟩
  cases queue with
  | nil => exact ⟨0, source, rfl⟩
  | cons first queue =>
      cases known : states[first]? with
      | none =>
          refine ⟨1, first, ?_⟩
          simp only [Function.iterate_one, next, step, known]
      | some state =>
          refine ⟨(analysis.gotos (analysis.closure state.kernel)).length + 1, first, ?_⟩
          rw [Function.iterate_succ_apply]
          simp only [next, step, known]
          exact iterate_pending analysis first _ _

theorem exists_finish (bound : Nat) (construction : Construction) (source : Nat) :
    Exists fun count => Exists fun other => (next analysis)^[count] ⟨construction, source, []⟩ =
      ⟨construction.finish analysis bound, other, []⟩ := by
  induction bound generalizing construction source with
  | zero => exact ⟨0, source, rfl⟩
  | succ bound inductionHypothesis =>
      unfold finish
      split
      · exact ⟨0, source, rfl⟩
      · rcases exists_step analysis construction source with ⟨few, middle, first⟩
        rcases inductionHypothesis (construction.step analysis) middle with ⟨more, last, others⟩
        refine ⟨more + few, last, ?_⟩
        rw [Function.iterate_add_apply, first, others]

end Moment

variable (grammar : PlainGrammar)

/-- What a kernel leads to by a list of symbols. -/
def targets (kernel : ItemSet) (symbols : List Nat) : List (Nat × ItemSet) :=
  symbols.map fun symbol =>
    (symbol, (ofGrammar grammar).goto ((ofGrammar grammar).closure kernel) symbol)

/-- Between two looks the states that do not wait pass their lookaheads on.  During a look what has
not been absorbed is pending. -/
inductive Underway : Moment -> Prop where
  | between (construction : Construction) (source : Nat) (settling : Settling grammar construction) :
      Underway ⟨construction, source, []⟩
  | during (construction : Construction) (source symbol : Nat) (kernel : ItemSet)
      (done symbols : List Nat) (looking : Looking grammar source kernel done construction)
      (all : forall other, other ∈ (ofGrammar grammar).nextSymbols
        ((ofGrammar grammar).closure kernel) ↔ other ∈ done ∨ other ∈ symbol :: symbols) :
      Underway ⟨construction, source, targets grammar kernel (symbol :: symbols)⟩

/-- The states are there still, and their kernels have not lost anything. -/
structure Grows (old new : Construction) : Prop where
  size : old.states.size ≤ new.states.size
  kernels : forall state, state < old.states.size ->
    Covers (new.kernelOf state) (old.kernelOf state)

theorem Grows.trans {first second third : Construction} (left : Grows first second)
    (right : Grows second third) : Grows first third :=
  ⟨Nat.le_trans left.size right.size, fun state inside => (left.kernels state inside).trans
    (right.kernels state (Nat.lt_of_lt_of_le inside left.size))⟩

theorem Grows.of_states {old new : Construction} (same : new.states = old.states) :
    Grows old new := by
  refine ⟨Nat.le_of_eq (congrArg Array.size same).symm, fun state _ => ?_⟩
  unfold kernelOf
  rw [same]
  exact Covers.refl _

variable {grammar} {moment : Moment}

theorem Underway.consistent (underway : Underway grammar moment) :
    Consistent grammar moment.construction := by
  cases underway with
  | between construction source settling => exact settling.consistent
  | during construction source symbol kernel done symbols looking _ => exact looking.consistent

/-- A look goes on with the symbols that are left, and is over if there are none. -/
private theorem underway_of_looking {source : Nat} {kernel : ItemSet} {done symbols : List Nat}
    {construction : Construction} (looking : Looking grammar source kernel done construction)
    (all : forall other, other ∈ (ofGrammar grammar).nextSymbols
      ((ofGrammar grammar).closure kernel) ↔ other ∈ done ∨ other ∈ symbols) :
    Underway grammar ⟨construction, source, targets grammar kernel symbols⟩ := by
  cases symbols with
  | nil =>
      exact .between construction source (looking.settling fun symbol member =>
        ((all symbol).mp member).resolve_right List.not_mem_nil)
  | cons symbol symbols => exact .during construction source symbol kernel done symbols looking all

/-- From moment to moment the construction stays sound, and nothing gets lost. -/
theorem Underway.next (underway : Underway grammar moment) :
    Underway grammar (moment.next (ofGrammar grammar)) ∧
      Grows moment.construction (moment.next (ofGrammar grammar)).construction := by
  cases underway with
  | between construction source settling =>
      rcases construction with ⟨states, queue⟩
      cases queue with
      | nil => exact ⟨.between _ source settling, .of_states rfl⟩
      | cons first queue =>
          have inside : first < states.size :=
            settling.consistent.waiting first List.mem_cons_self
          have taken : Moment.next (ofGrammar grammar) ⟨⟨states, first :: queue⟩, source, []⟩ =
              ⟨⟨states, queue⟩, first, targets grammar states[first].kernel
                ((ofGrammar grammar).nextSymbols
                  ((ofGrammar grammar).closure states[first].kernel))⟩ := by
            simp only [Moment.next, Array.getElem?_eq_getElem inside]
            rfl
          rw [taken]
          refine ⟨underway_of_looking (settling.looking inside) fun other => ?_, .of_states rfl⟩
          exact ⟨Or.inr, fun member => member.resolve_left List.not_mem_nil⟩
  | during construction source symbol kernel done symbols looking all =>
      have here := (all symbol).mpr (Or.inr List.mem_cons_self)
      refine ⟨underway_of_looking (looking.absorb here) fun other => ?_, ?_⟩
      · rw [all, List.mem_cons, List.mem_cons]
        exact or_left_comm.trans or_assoc.symm
      · have absorbs := looking.absorbs here
        exact ⟨absorbs.size, absorbs.covers⟩

variable (grammar)

/-- The construction of the grammar's states after a number of moments. -/
def momentAt (count : Nat) : Moment :=
  (Moment.next (ofGrammar grammar))^[count] ⟨initial grammar, 0, []⟩

theorem momentAt_succ (count : Nat) :
    momentAt grammar (count + 1) = (momentAt grammar count).next (ofGrammar grammar) :=
  Function.iterate_succ_apply' _ _ _

theorem underway_momentAt (count : Nat) : Underway grammar (momentAt grammar count) := by
  induction count with
  | zero => exact .between _ 0 (settling_initial grammar)
  | succ count inductionHypothesis =>
      rw [momentAt_succ]
      exact inductionHypothesis.next.1

theorem grows_momentAt {earlier later : Nat} (inOrder : earlier ≤ later) :
    Grows (momentAt grammar earlier).construction (momentAt grammar later).construction := by
  induction later, inOrder using Nat.le_induction with
  | base => exact .of_states rfl
  | succ later _ inductionHypothesis =>
      rw [momentAt_succ]
      exact inductionHypothesis.trans (underway_momentAt grammar later).next.2

/-- The construction ends for every grammar, and so do all closures on the way, in whatever order
their cores are expanded.  Meanwhile no state gets lost, and kernels and closures only grow. -/
theorem worklists_end :
    (Exists fun count => (momentAt grammar count).Done ∧
      (momentAt grammar count).construction.states = (Automaton.ofGrammar grammar).states) ∧
    (forall earlier later state, earlier ≤ later ->
      state < (momentAt grammar earlier).construction.states.size ->
        let old := (momentAt grammar earlier).construction.kernelOf state
        let new := (momentAt grammar later).construction.kernelOf state
        state < (momentAt grammar later).construction.states.size ∧ Covers new old ∧
          Covers ((ofGrammar grammar).closure new) ((ofGrammar grammar).closure old)) ∧
    forall count state, state < (momentAt grammar count).construction.states.size ->
      let kernel := (momentAt grammar count).construction.kernelOf state
      (Exists fun steps => (ofGrammar grammar).ExpandsMany steps (.start kernel)
        ⟨[], (ofGrammar grammar).closure kernel⟩) ∧
      forall steps closing, (ofGrammar grammar).ExpandsMany steps (.start kernel) closing ->
        steps ≤ (ofGrammar grammar).closureBound kernel ∧ Covers closing.items kernel ∧
          (closing.work = [] -> closing.items = (ofGrammar grammar).closure kernel) := by
  have proper : forall count state, state < (momentAt grammar count).construction.states.size ->
      Proper grammar ((momentAt grammar count).construction.kernelOf state) :=
    fun count state inside =>
      ((underway_momentAt grammar count).consistent.sound state inside).proper
  refine ⟨?_, ?_, ?_⟩
  · rcases Moment.exists_finish (ofGrammar grammar)
      (Automaton.constructionBound (ofGrammar grammar)) (initial grammar) 0 with
      ⟨count, other, finishes⟩
    refine ⟨count, ?_, ?_⟩
    · rw [momentAt, finishes]
      exact ⟨rfl, (settling_finished grammar).2⟩
    · rw [momentAt, finishes]
      rfl
  · intro earlier later state inOrder inside
    have grows := grows_momentAt grammar inOrder
    have stays := Nat.lt_of_lt_of_le inside grows.size
    exact ⟨stays, grows.kernels state inside, (grows.kernels state inside).closure
      (proper later state stays) (proper earlier state inside)⟩
  · intro count state inside
    have sound := proper count state inside
    refine ⟨exists_closure sound, fun steps closing expands => ⟨expands.count_le sound, ?_,
      expands.items_eq sound⟩⟩
    exact (expands.progress (inherited_inside grammar _) (closing_kernel grammar sound)
      (within_kernel grammar sound)).covers

end Construction
end ShiftReduce
