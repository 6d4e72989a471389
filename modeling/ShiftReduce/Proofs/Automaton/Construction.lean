import Mathlib.Data.Finset.Powerset
import ShiftReduce.Automaton.Build
import ShiftReduce.Proofs.Automaton.Canonical

namespace ShiftReduce

/-!
# Construction of the states

Construction takes a state from the queue, closes its kernel and absorbs the kernels that it leads
to.  What absorbing one kernel does is described once: states keep their cores and only gain
lookaheads, a state that gains any is in the queue afterwards, and one transition is set.

Two invariants follow.  The states are sound: their kernels are reached by strings of symbols, their
lookaheads are brought there by the rules, and their transitions lead where the canonical rules do.
And every state that is not in the queue passes all its lookaheads on.  Both hold while a state is
looked at, where that state counts as passing on what has been absorbed so far.  A state that leads
to itself may gain lookaheads on the way; then it is in the queue again, and nothing is claimed
about it.

Every entry in the queue is paid for by a new state, a new core or a new lookahead, of which there
is a limited number.  Therefore the queue is empty in the end.
-/

namespace Construction

/-! ## Kernels and transitions by number -/

/-- The kernel of a state; none if there is no such state. -/
def kernelOf (construction : Construction) (state : Nat) : ItemSet :=
  (construction.states[state]?.map State.kernel).getD []

/-- The transitions of a state; none if there is no such state. -/
def transitionsOf (construction : Construction) (state : Nat) : List (Nat × Nat) :=
  (construction.states[state]?.map State.transitions).getD []

/-- The number of states, of the cores of their kernels and of the lookaheads of these cores. -/
def load (construction : Construction) : Nat :=
  totalSize (fun state => state.kernel.weight + 1) construction.states

variable {construction : Construction}

theorem kernelOf_of_getElem? {index : Nat} {state : State}
    (found : construction.states[index]? = some state) :
    construction.kernelOf index = state.kernel := by
  rw [kernelOf, found]
  rfl

theorem find?_eq_some {cores : List Core} {target : Nat}
    (found : construction.find? cores = some target) :
    target < construction.states.size ∧ (construction.kernelOf target).cores = cores := by
  rcases Array.findIdx?_eq_some_iff_getElem.mp found with ⟨inside, same, _⟩
  refine ⟨inside, ?_⟩
  rw [kernelOf_of_getElem? (Array.getElem?_eq_getElem inside)]
  exact beq_iff_eq.mp same

theorem find?_eq_none {cores : List Core} (missing : construction.find? cores = none) {state : Nat}
    (inside : state < construction.states.size) : (construction.kernelOf state).cores ≠ cores := by
  have different := Array.findIdx?_eq_none_iff.mp missing _ (Array.getElem_mem inside)
  rw [kernelOf_of_getElem? (Array.getElem?_eq_getElem inside)]
  exact beq_eq_false_iff_ne.mp different

/-! ## Connecting two states -/

@[simp]
theorem size_connect (source symbol target : Nat) :
    (construction.connect source symbol target).states.size = construction.states.size :=
  Array.size_modify

@[simp]
theorem queue_connect (source symbol target : Nat) :
    (construction.connect source symbol target).queue = construction.queue := rfl

@[simp]
theorem kernelOf_connect (source symbol target state : Nat) :
    (construction.connect source symbol target).kernelOf state = construction.kernelOf state := by
  unfold kernelOf connect
  rw [Array.getElem?_modify]
  by_cases same : source = state
  · rw [if_pos same, Option.map_map]
    rfl
  · rw [if_neg same]

theorem mem_transitionsOf_connect {source symbol target : Nat}
    (inside : source < construction.states.size) (state other next : Nat) :
    (other, next) ∈ (construction.connect source symbol target).transitionsOf state ↔
      (state = source ∧ other = symbol ∧ next = target) ∨
        ¬ (state = source ∧ other = symbol) ∧ (other, next) ∈ construction.transitionsOf state := by
  unfold transitionsOf connect
  rw [Array.getElem?_modify]
  by_cases same : source = state
  · subst same
    rw [if_pos rfl, Array.getElem?_eq_getElem inside]
    simp only [Option.map_some, Option.getD_some, List.mem_append, List.mem_filter,
      List.mem_singleton, Prod.mk.injEq, bne_iff_ne, ne_eq, true_and]
    rw [or_comm, and_comm (a := _ ∈ _)]
  · rw [if_neg same]
    simp only [Ne.symm same, false_and, false_or, not_false_eq_true, true_and]

@[simp]
theorem load_connect (source symbol target : Nat) :
    (construction.connect source symbol target).load = construction.load := by
  unfold load connect totalSize
  congr 1
  apply List.ext_getElem?
  intro index
  rw [List.getElem?_map, List.getElem?_map, Array.getElem?_toList, Array.getElem?_toList,
    Array.getElem?_modify]
  split
  · rw [Option.map_map]
    rfl
  · rfl

/-! ## Taking over lookaheads -/

/-- What has become of the states after one of them took over the lookaheads of a kernel. -/
structure Spreads (target : Nat) (kernel : ItemSet) (old new : Construction) : Prop where
  size : new.states.size = old.states.size
  kernel : new.kernelOf target = ((old.kernelOf target).addAll kernel).1
  others : forall state, state ≠ target -> new.kernelOf state = old.kernelOf state
  transitions : forall state, new.transitionsOf state = old.transitionsOf state
  queued : forall state, state ∈ old.queue -> state ∈ new.queue
  inside : forall state, state ∈ new.queue -> state ∈ old.queue ∨ state = target
  grown : new.kernelOf target = old.kernelOf target ∨ target ∈ new.queue
  load : old.load + new.queue.length ≤ new.load + old.queue.length

theorem mem_enqueue (construction : Construction) (state other : Nat) :
    other ∈ (construction.enqueue state).queue ↔ other ∈ construction.queue ∨ other = state := by
  unfold enqueue
  split
  next waits =>
    constructor
    · exact Or.inl
    · rintro (member | rfl)
      · exact member
      · exact waits
  next => simp

@[simp]
theorem states_enqueue (construction : Construction) (state : Nat) :
    (construction.enqueue state).states = construction.states := by
  unfold enqueue
  split <;> rfl

theorem length_enqueue_le (construction : Construction) (state : Nat) :
    (construction.enqueue state).queue.length ≤ construction.queue.length + 1 := by
  unfold enqueue
  split
  · exact Nat.le_succ _
  · simp

private theorem spreads_written {target : Nat} {kernel : ItemSet} {state written : State}
    (known : construction.states[target]? = some state)
    (kernelWritten : written.kernel = (state.kernel.addAll kernel).1)
    (transitionsWritten : written.transitions = state.transitions)
    (heavier : state.kernel.weight < written.kernel.weight) :
    Spreads target kernel construction
      (enqueue { construction with states := construction.states.setIfInBounds target written }
        target) := by
  have inside := (Array.getElem?_eq_some_iff.mp known).1
  have here : (construction.states.setIfInBounds target written)[target]? = some written :=
    Array.getElem?_setIfInBounds_self_of_lt inside
  refine ⟨?_, ?_, ?_, ?_, ?_, ?_, ?_, ?_⟩
  · rw [states_enqueue, Array.size_setIfInBounds]
  · rw [kernelOf_of_getElem? known, kernelOf, states_enqueue, here]
    exact kernelWritten
  · intro other different
    unfold kernelOf
    rw [states_enqueue, Array.getElem?_setIfInBounds_ne (Ne.symm different)]
  · intro other
    unfold transitionsOf
    rw [states_enqueue]
    by_cases same : other = target
    · rw [same, here, known]
      exact transitionsWritten
    · rw [Array.getElem?_setIfInBounds_ne (Ne.symm same)]
  · exact fun other member => (mem_enqueue _ _ _).mpr (Or.inl member)
  · intro other member
    have found := (mem_enqueue _ _ _).mp member
    exact found
  · exact Or.inr ((mem_enqueue _ _ _).mpr (Or.inr rfl))
  · have longer := length_enqueue_le
      { construction with states := construction.states.setIfInBounds target written } target
    have entry : construction.states.getD target default = state := by
      rw [Array.getD_eq_getD_getElem?, known]
      rfl
    have larger := setIfInBounds_same_or_larger (fun state : State => state.kernel.weight + 1)
      construction.states target default written
      (Or.inr (by rw [entry]; exact Nat.succ_lt_succ heavier))
    have more := larger.resolve_left fun same => by
      rw [same, known] at here
      rw [Option.some.inj here] at heavier
      exact Nat.lt_irrefl _ heavier
    unfold load
    rw [states_enqueue]
    dsimp only at longer ⊢
    omega

theorem spreads_spread {target : Nat} {kernel : ItemSet}
    (inside : target < construction.states.size)
    (ordered : ItemSet.Ordered (construction.kernelOf target))
    (kernelOrdered : ItemSet.Ordered kernel) :
    Spreads target kernel construction (construction.spread target kernel) := by
  have known := Array.getElem?_eq_getElem inside
  rw [kernelOf_of_getElem? known] at ordered
  unfold spread
  rw [known]
  dsimp only
  cases grew : (construction.states[target].kernel.addAll kernel).2 with
  | false =>
      have same := ItemSet.addAll_of_not_changed ordered kernelOrdered grew
      rw [if_neg Bool.false_ne_true]
      refine ⟨rfl, ?_, fun _ _ => rfl, fun _ => rfl, fun _ member => member,
        fun _ member => Or.inl member, Or.inl rfl, Nat.le_refl _⟩
      rw [kernelOf_of_getElem? known, same]
  | true =>
      rw [if_pos rfl]
      exact spreads_written known rfl rfl (ItemSet.weight_lt_addAll ordered kernelOrdered grew)

/-! ## Absorbing a kernel -/

/-- What has become of the states after a kernel that `symbol` leads to from `source` was
absorbed. -/
structure Absorbs (source symbol : Nat) (kernel : ItemSet) (old new : Construction) : Prop where
  size : old.states.size ≤ new.states.size
  cores : forall state, state < old.states.size ->
    (new.kernelOf state).cores = (old.kernelOf state).cores
  covers : forall state, state < old.states.size ->
    Analysis.Covers (new.kernelOf state) (old.kernelOf state)
  unchanged : forall state, state < new.states.size -> state ∉ new.queue ->
    state < old.states.size ∧ new.kernelOf state = old.kernelOf state
  queued : forall state, state ∈ old.queue -> state ∈ new.queue
  inside : forall state, state ∈ new.queue -> state ∈ old.queue ∨ state < new.states.size
  target : Exists fun target => target < new.states.size ∧
    (new.kernelOf target).cores = kernel.cores ∧
    Analysis.Covers (new.kernelOf target) kernel ∧
    forall state other next, (other, next) ∈ new.transitionsOf state ↔
      (state = source ∧ other = symbol ∧ next = target) ∨
        ¬ (state = source ∧ other = symbol) ∧ (other, next) ∈ old.transitionsOf state
  found : forall state, state < new.states.size ->
    state < old.states.size ∨ (new.kernelOf state).cores = kernel.cores
  fresh : forall state, old.states.size ≤ state -> state < new.states.size ->
    forall other, other < old.states.size -> (old.kernelOf other).cores ≠ kernel.cores
  single : new.states.size ≤ old.states.size + 1
  ordered : forall state, state < new.states.size -> ItemSet.Ordered (new.kernelOf state)
  origin : forall state core value, state < new.states.size ->
    value ∈ (new.kernelOf state).lookaheads core ->
    (state < old.states.size ∧ value ∈ (old.kernelOf state).lookaheads core) ∨
      (new.kernelOf state).cores = kernel.cores ∧ value ∈ kernel.lookaheads core
  load : old.load + new.queue.length ≤ new.load + old.queue.length

private theorem cores_addAll {items new : ItemSet} (ordered : ItemSet.Ordered items)
    (newOrdered : ItemSet.Ordered new) (same : items.cores = new.cores) :
    (items.addAll new).1.cores = items.cores := by
  apply ItemSet.cores_eq_of_mem_iff (ItemSet.ordered_addAll ordered newOrdered) ordered
  intro core
  rw [ItemSet.mem_cores_addAll, ← same, or_self]

theorem Spreads.cores {target : Nat} {kernel : ItemSet} {old new : Construction}
    (spreads : Spreads target kernel old new) (ordered : ItemSet.Ordered (old.kernelOf target))
    (kernelOrdered : ItemSet.Ordered kernel)
    (same : ItemSet.cores (old.kernelOf target) = kernel.cores) (state : Nat) :
    (new.kernelOf state).cores = (old.kernelOf state).cores := by
  by_cases here : state = target
  · rw [here, spreads.kernel, cores_addAll ordered kernelOrdered same]
  · rw [spreads.others state here]

theorem Spreads.mem_lookaheads {target : Nat} {kernel : ItemSet} {old new : Construction}
    (spreads : Spreads target kernel old new) (ordered : ItemSet.Ordered (old.kernelOf target))
    (kernelOrdered : ItemSet.Ordered kernel) (state : Nat) (core : Core) (value : Nat) :
    value ∈ (new.kernelOf state).lookaheads core ↔
      value ∈ (old.kernelOf state).lookaheads core ∨
        state = target ∧ value ∈ kernel.lookaheads core := by
  by_cases here : state = target
  · rw [here, spreads.kernel, ItemSet.mem_lookaheads_addAll ordered kernelOrdered]
    simp only [true_and]
  · rw [spreads.others state here]
    simp only [here, false_and, or_false]

private theorem absorbs_known {source symbol target : Nat} {kernel : ItemSet}
    (sourceInside : source < construction.states.size)
    (ordered : forall state, state < construction.states.size ->
      ItemSet.Ordered (construction.kernelOf state))
    (kernelOrdered : ItemSet.Ordered kernel)
    (found : construction.find? kernel.cores = some target) :
    Absorbs source symbol kernel construction
      ((construction.spread target kernel).connect source symbol target) := by
  rcases find?_eq_some found with ⟨inside, same⟩
  have targetOrdered := ordered target inside
  have spreads := spreads_spread inside targetOrdered kernelOrdered
  have cores := spreads.cores targetOrdered kernelOrdered same
  have lookaheads := spreads.mem_lookaheads targetOrdered kernelOrdered
  have sourceKept : source < (construction.spread target kernel).states.size := by
    rw [spreads.size]
    exact sourceInside
  refine ⟨?_, ?_, ?_, ?_, ?_, ?_, ⟨target, ?_, ?_, ⟨?_, ?_⟩, ?_⟩, ?_, ?_, ?_, ?_, ?_, ?_⟩ <;>
    try simp only [size_connect, queue_connect, kernelOf_connect, load_connect, spreads.size, cores,
      same]
  · exact Nat.le_refl _
  · exact fun _ _ => trivial
  · intro state _
    exact ⟨fun core member => cores state ▸ member,
      fun core value member => (lookaheads state core value).mpr (Or.inl member)⟩
  · intro state stateInside notQueued
    refine ⟨stateInside, ?_⟩
    by_cases here : state = target
    · rw [here] at notQueued ⊢
      exact spreads.grown.resolve_right notQueued
    · exact spreads.others state here
  · exact spreads.queued
  · intro state member
    rcases spreads.inside state member with waits | rfl
    · exact Or.inl waits
    · exact Or.inr inside
  · exact inside
  · exact fun core member => member
  · exact fun core value member => (lookaheads target core value).mpr (Or.inr ⟨rfl, member⟩)
  · intro state other next
    rw [mem_transitionsOf_connect sourceKept, spreads.transitions]
  · exact fun state stateInside => Or.inl stateInside
  · intro state beyond stateInside
    exact (Nat.not_lt_of_le beyond stateInside).elim
  · exact Nat.le_succ _
  · intro state stateInside
    by_cases here : state = target
    · rw [here, spreads.kernel]
      exact ItemSet.ordered_addAll targetOrdered kernelOrdered
    · rw [spreads.others state here]
      exact ordered state stateInside
  · intro state core value stateInside member
    rcases (lookaheads state core value).mp member with known | ⟨rfl, new⟩
    · exact Or.inl ⟨stateInside, known⟩
    · exact Or.inr ⟨same, new⟩
  · exact spreads.load

/-- A new state at the end, which waits in the queue. -/
private def pushed (construction : Construction) (kernel : ItemSet) : Construction :=
  ⟨construction.states.push ⟨kernel, []⟩, construction.queue ++ [construction.states.size]⟩

private theorem size_pushed (kernel : ItemSet) :
    (construction.pushed kernel).states.size = construction.states.size + 1 :=
  Array.size_push _

private theorem kernelOf_pushed_old (kernel : ItemSet) {state : Nat}
    (inside : state < construction.states.size) :
    (construction.pushed kernel).kernelOf state = construction.kernelOf state := by
  unfold kernelOf pushed
  rw [Array.getElem?_push_lt inside, Array.getElem?_eq_getElem inside]

private theorem kernelOf_pushed_new (kernel : ItemSet) :
    (construction.pushed kernel).kernelOf construction.states.size = kernel := by
  unfold kernelOf pushed
  rw [Array.getElem?_push_size]
  rfl

private theorem transitionsOf_pushed (kernel : ItemSet) (state : Nat) :
    (construction.pushed kernel).transitionsOf state = construction.transitionsOf state := by
  unfold transitionsOf pushed
  rw [Array.getElem?_push]
  split
  next same =>
    rw [same, Array.getElem?_eq_none (Nat.le_refl _)]
    rfl
  · rfl

private theorem load_pushed (kernel : ItemSet) :
    construction.load + 1 ≤ (construction.pushed kernel).load := by
  unfold load totalSize pushed
  rw [Array.toList_push, List.map_append, List.sum_append, List.map_singleton, List.sum_singleton]
  omega

private theorem absorbs_new {source symbol : Nat} {kernel : ItemSet}
    (sourceInside : source < construction.states.size)
    (ordered : forall state, state < construction.states.size ->
      ItemSet.Ordered (construction.kernelOf state))
    (kernelOrdered : ItemSet.Ordered kernel)
    (missing : construction.find? kernel.cores = none) :
    Absorbs source symbol kernel construction
      ((construction.pushed kernel).connect source symbol construction.states.size) := by
  have place : forall state, state < construction.states.size + 1 ->
      state < construction.states.size ∨ state = construction.states.size :=
    fun state stateInside => Nat.lt_or_eq_of_le (Nat.le_of_lt_succ stateInside)
  have sourceKept : source < (construction.pushed kernel).states.size := by
    rw [size_pushed]
    exact Nat.lt_succ_of_lt sourceInside
  refine ⟨?_, ?_, ?_, ?_, ?_, ?_, ⟨construction.states.size, ?_, ?_, ⟨?_, ?_⟩, ?_⟩, ?_, ?_, ?_, ?_,
      ?_, ?_⟩ <;>
    try simp only [size_connect, queue_connect, kernelOf_connect, load_connect, size_pushed,
      kernelOf_pushed_new]
  · exact Nat.le_succ _
  · intro state stateInside
    rw [kernelOf_pushed_old kernel stateInside]
  · intro state stateInside
    rw [kernelOf_pushed_old kernel stateInside]
    exact Analysis.Covers.refl _
  · intro state stateInside notQueued
    rcases place state stateInside with known | new
    · exact ⟨known, kernelOf_pushed_old kernel known⟩
    · exact (notQueued (List.mem_append_right _ (List.mem_singleton.mpr new))).elim
  · exact fun state member => List.mem_append_left _ member
  · intro state member
    rcases List.mem_append.mp member with known | new
    · exact Or.inl known
    · exact Or.inr (List.mem_singleton.mp new ▸ Nat.lt_succ_self _)
  · exact Nat.lt_succ_self _
  · exact fun core member => member
  · exact fun core value member => member
  · intro state other next
    rw [mem_transitionsOf_connect sourceKept, transitionsOf_pushed]
  · intro state stateInside
    rcases place state stateInside with known | rfl
    · exact Or.inl known
    · rw [kernelOf_pushed_new]
      exact Or.inr rfl
  · exact fun _ _ _ other otherInside => find?_eq_none missing otherInside
  · exact Nat.le_refl _
  · intro state stateInside
    rcases place state stateInside with known | rfl
    · rw [kernelOf_pushed_old kernel known]
      exact ordered state known
    · rw [kernelOf_pushed_new]
      exact kernelOrdered
  · intro state core value stateInside member
    rcases place state stateInside with known | rfl
    · rw [kernelOf_pushed_old kernel known] at member
      exact Or.inl ⟨known, member⟩
    · rw [kernelOf_pushed_new] at member ⊢
      exact Or.inr ⟨rfl, member⟩
  · have more := @load_pushed construction kernel
    rw [pushed, List.length_append, List.length_singleton]
    rw [pushed] at more
    omega

/-- Absorbing a kernel changes no more than that. -/
theorem absorbs_absorb {source symbol : Nat} {kernel : ItemSet}
    (sourceInside : source < construction.states.size)
    (ordered : forall state, state < construction.states.size ->
      ItemSet.Ordered (construction.kernelOf state))
    (kernelOrdered : ItemSet.Ordered kernel) :
    Absorbs source symbol kernel construction (construction.absorb source symbol kernel) := by
  unfold absorb
  cases found : construction.find? kernel.cores with
  | some target => exact absorbs_known sourceInside ordered kernelOrdered found
  | none => exact absorbs_new sourceInside ordered kernelOrdered found

/-! ## Sound kernels -/

/-- Every place that a dot can have in a production. -/
def possibleCores (analysis : Analysis) : List Core :=
  analysis.vocabulary.productions.toList.zipIdx.flatMap fun entry =>
    (List.range (entry.1.right.length + 1)).map fun dot => ⟨entry.2, dot⟩

private theorem foldl_add {α : Type} (size : α -> Nat) (values : List α) (start : Nat) :
    values.foldl (fun count value => count + size value + 1) start =
      start + (values.map fun value => size value + 1).sum := by
  induction values generalizing start with
  | nil => rfl
  | cons head rest inductionHypothesis =>
      rw [List.foldl_cons, inductionHypothesis, List.map_cons, List.sum_cons]
      omega

theorem length_possibleCores (analysis : Analysis) :
    (possibleCores analysis).length = Automaton.coreCount analysis := by
  unfold possibleCores Automaton.coreCount
  rw [← Array.foldl_toList, foldl_add, List.length_flatMap, Nat.zero_add]
  congr 1
  conv_rhs => rw [← List.zipIdx_map_fst 0 analysis.vocabulary.productions.toList, List.map_map]
  apply List.map_congr_left
  intro entry _
  rw [List.length_map, List.length_range]
  rfl

theorem mem_possibleCores {analysis : Analysis} {core : Core} :
    core ∈ possibleCores analysis ↔
      Exists fun numbered => analysis.vocabulary.productions[core.production]? = some numbered ∧
        core.dot ≤ numbered.right.length := by
  unfold possibleCores
  rw [List.mem_flatMap]
  constructor
  · rintro ⟨⟨numbered, index⟩, listed, member⟩
    rcases List.mem_map.mp member with ⟨dot, inside, rfl⟩
    have found := List.mem_zipIdx_iff_getElem?.mp listed
    rw [Array.getElem?_toList] at found
    exact ⟨numbered, found, Nat.le_of_lt_succ (List.mem_range.mp inside)⟩
  · rintro ⟨numbered, found, small⟩
    refine ⟨(numbered, core.production), ?_, ?_⟩
    · rw [List.mem_zipIdx_iff_getElem?, Array.getElem?_toList]
      exact found
    · exact List.mem_map.mpr ⟨core.dot, List.mem_range.mpr (Nat.lt_succ_of_le small), rfl⟩

open Analysis

variable (grammar : PlainGrammar)

/-- A kernel that some string reaches, with no lookaheads but those that the rules bring there. -/
structure Sound (kernel : ItemSet) : Prop where
  proper : Proper grammar kernel
  placed : forall core, core ∈ kernel.cores -> core ∈ possibleCores (ofGrammar grammar)
  reached : Exists fun path => grammar.Reaches path (coresOf kernel)
  carried : forall core value, value ∈ kernel.lookaheads core ->
    grammar.Carries (coresOf kernel) core (symbolName grammar value)

variable {grammar}

/-- The closure of a sound kernel has no lookaheads but those that the rules bring there. -/
theorem Sound.carried_closure {kernel : ItemSet} (sound : Sound grammar kernel) :
    forall core value, value ∈ ((ofGrammar grammar).closure kernel).lookaheads core ->
      grammar.Carries (coresOf kernel) core (symbolName grammar value) := by
  have inherited : (ofGrammar grammar).Inherited (grammar.InClosure (coresOf kernel))
      (fun core value => grammar.Carries (coresOf kernel) core (symbolName grammar value)) := by
    constructor
    · intro core next rest production above numbered listed
      have expands := (mem_productionsOf_iff grammar (next_inside grammar numbered)).mp listed
      exact .called core _ _ production above (dotted_of_numbered grammar numbered) expands
    · intro core next rest production lookaheads value above follows numbered listed member
      have expands := (mem_productionsOf_iff grammar (next_inside grammar numbered)).mp listed
      have dotted := dotted_of_numbered grammar numbered
      rcases (mem_firstOf_rest grammar numbered lookaheads value).mp member with opens | passes
      · exact .first _ core _ _ production _ sound.reached above dotted expands opens.2
      · exact .pass _ core _ _ production _ (follows value passes.2) dotted expands passes.1
  have within := within_closure grammar sound.proper inherited
    ⟨fun core member => .kernel core member, sound.carried⟩
  exact within.lookaheads

private theorem coresOf_goto {kernel : ItemSet} (sound : Sound grammar kernel) {id : Nat}
    (inside : id < symbolCount grammar) :
    coresOf ((ofGrammar grammar).goto ((ofGrammar grammar).closure kernel) id) =
      grammar.Moved (coresOf kernel) (symbolName grammar id) := by
  funext core
  exact propext (mem_cores_goto_closure grammar sound.proper inside core)

/-- What a sound kernel leads to is sound. -/
theorem Sound.goto {kernel : ItemSet} (sound : Sound grammar kernel)
    {id : Nat} (next : id ∈ (ofGrammar grammar).nextSymbols ((ofGrammar grammar).closure kernel)) :
    Sound grammar ((ofGrammar grammar).goto ((ofGrammar grammar).closure kernel) id) := by
  rcases (mem_nextSymbols _).mp next with ⟨core, member, atDot⟩
  have inside := nextSymbol?_inside grammar atDot
  have closed := (mem_cores_closure grammar sound.proper core).mp member
  rcases (nextSymbol?_iff grammar inside).mp atDot with ⟨rest, dotted⟩
  have moves : forall path, grammar.Reaches path (coresOf kernel) ->
      grammar.Reaches (symbolName grammar id :: path)
        (coresOf ((ofGrammar grammar).goto ((ofGrammar grammar).closure kernel) id)) := by
    intro path reaches
    rw [coresOf_goto sound inside]
    exact .move path _ core _ rest reaches closed dotted
  refine ⟨proper_goto grammar (proper_closure grammar sound.proper) id, ?_, ?_, ?_⟩
  · intro moved listed
    rcases (mem_cores_goto _).mp listed with ⟨source, _, atSource, rfl⟩
    rcases nextSymbol?_eq_some.mp atSource with ⟨ids, numbered⟩
    rw [mem_possibleCores]
    unfold Analysis.fromDot at numbered
    cases found : (ofGrammar grammar).vocabulary.productions[source.production]? with
    | none =>
        rw [found] at numbered
        cases numbered
    | some production =>
        rw [found] at numbered
        have longer := congrArg List.length numbered
        rw [List.length_drop, List.length_cons] at longer
        exact ⟨production, found, by simp only [Core.advance]; omega⟩
  · rcases sound.reached with ⟨path, reaches⟩
    exact ⟨_, moves path reaches⟩
  · intro moved value listed
    have ordered := (proper_closure grammar sound.proper).ordered
    rcases (mem_lookaheads_goto _ ordered).mp listed with ⟨source, atSource, rfl, known⟩
    rcases (nextSymbol?_iff grammar inside).mp atSource with ⟨others, sourceDotted⟩
    rw [coresOf_goto sound inside]
    exact .move _ source _ others _ (sound.carried_closure source value known) sourceDotted

/-- A kernel with the cores of a sound one, whose lookaheads are those of sound ones with the same
cores, is sound. -/
theorem Sound.of_same_cores {kernel other : ItemSet} (sound : Sound grammar kernel)
    (same : other.cores = kernel.cores) (ordered : ItemSet.Ordered other)
    (origin : forall core value, value ∈ other.lookaheads core -> Exists fun source =>
      Sound grammar source ∧ source.cores = other.cores ∧ value ∈ source.lookaheads core) :
    Sound grammar other := by
  have equal : forall source : ItemSet, source.cores = other.cores ->
      coresOf source = coresOf other := by
    intro source sameCores
    unfold coresOf
    rw [sameCores]
  refine ⟨⟨ordered, ?_⟩, ?_, ?_, ?_⟩
  · intro core value member
    rcases origin core value member with ⟨source, sourceSound, _, known⟩
    exact sourceSound.proper.inside core value known
  · intro core member
    exact sound.placed core (same ▸ member)
  · rw [← equal kernel same.symm]
    exact sound.reached
  · intro core value member
    rcases origin core value member with ⟨source, sourceSound, sameCores, known⟩
    rw [← equal source sameCores]
    exact sourceSound.carried core value known

/-- Kernels with the same cores lead to kernels with the same cores. -/
theorem cores_goto_congr {left right : ItemSet} (leftProper : Proper grammar left)
    (rightProper : Proper grammar right) (same : left.cores = right.cores) (id : Nat) :
    ((ofGrammar grammar).goto ((ofGrammar grammar).closure left) id).cores =
      ((ofGrammar grammar).goto ((ofGrammar grammar).closure right) id).cores := by
  have closed : ((ofGrammar grammar).closure left).cores =
      ((ofGrammar grammar).closure right).cores := by
    apply ItemSet.cores_eq_of_mem_iff (proper_closure grammar leftProper).ordered
      (proper_closure grammar rightProper).ordered
    intro core
    constructor
    · exact mem_cores_closure_of_subset grammar leftProper rightProper
        (fun _ member => same ▸ member) core
    · exact mem_cores_closure_of_subset grammar rightProper leftProper
        (fun _ member => same ▸ member) core
  apply ItemSet.cores_eq_of_mem_iff
    (ordered_goto _ (proper_closure grammar leftProper).ordered id)
    (ordered_goto _ (proper_closure grammar rightProper).ordered id)
  intro core
  rw [mem_cores_goto, mem_cores_goto, closed]

theorem mem_nextSymbols_congr {left right : ItemSet} (leftProper : Proper grammar left)
    (rightProper : Proper grammar right) (same : left.cores = right.cores) {id : Nat}
    (member : id ∈ (ofGrammar grammar).nextSymbols ((ofGrammar grammar).closure left)) :
    id ∈ (ofGrammar grammar).nextSymbols ((ofGrammar grammar).closure right) := by
  rw [mem_nextSymbols] at member ⊢
  rcases member with ⟨core, listed, next⟩
  exact ⟨core, mem_cores_closure_of_subset grammar leftProper rightProper
    (fun _ found => same ▸ found) core listed, next⟩

/-! ## Sound states -/

variable (grammar)

/-- The kernel that a parse of the grammar starts from. -/
def startItems : ItemSet :=
  (ofGrammar grammar).startKernel
    (((ofGrammar grammar).vocabulary.id? grammar.root).getD Vocabulary.endId)

/-- All states are sound and differ in their cores, and their transitions lead where the canonical
rules do. -/
structure Consistent (construction : Construction) : Prop where
  waiting : forall state, state ∈ construction.queue -> state < construction.states.size
  distinct : forall left right, left < construction.states.size ->
    right < construction.states.size ->
    (construction.kernelOf left).cores = (construction.kernelOf right).cores -> left = right
  sound : forall state, state < construction.states.size -> Sound grammar (construction.kernelOf state)
  leads : forall state symbol target, (symbol, target) ∈ construction.transitionsOf state ->
    state < construction.states.size ∧ target < construction.states.size ∧
    symbol ∈ (ofGrammar grammar).nextSymbols
      ((ofGrammar grammar).closure (construction.kernelOf state)) ∧
    (construction.kernelOf target).cores =
      ((ofGrammar grammar).goto ((ofGrammar grammar).closure (construction.kernelOf state))
        symbol).cores
  startInside : 0 < construction.states.size
  startCores : (construction.kernelOf 0).cores = (startItems grammar).cores
  startCovers : Covers (construction.kernelOf 0) (startItems grammar)

/-- The state passes its lookaheads on by each of these symbols. -/
def Passes (construction : Construction) (symbols : List Nat) (state : Nat) : Prop :=
  forall symbol, symbol ∈ symbols -> Exists fun target =>
    (symbol, target) ∈ construction.transitionsOf state ∧
      Covers (construction.kernelOf target)
        ((ofGrammar grammar).goto ((ofGrammar grammar).closure (construction.kernelOf state)) symbol)

/-- The state passes all its lookaheads on. -/
def PassesAll (construction : Construction) (state : Nat) : Prop :=
  Passes grammar construction
    ((ofGrammar grammar).nextSymbols ((ofGrammar grammar).closure (construction.kernelOf state))) state

variable {grammar}

theorem Consistent.absorb {source symbol : Nat} {kernel : ItemSet} {new : Construction}
    (consistent : Consistent grammar construction)
    (absorbs : Absorbs source symbol kernel construction new)
    (sourceInside : source < construction.states.size) (kernelSound : Sound grammar kernel)
    (next : symbol ∈ (ofGrammar grammar).nextSymbols
      ((ofGrammar grammar).closure (construction.kernelOf source)))
    (leadsTo : kernel.cores = ((ofGrammar grammar).goto
      ((ofGrammar grammar).closure (construction.kernelOf source)) symbol).cores) :
    Consistent grammar new := by
  have sound : forall state, state < new.states.size -> Sound grammar (new.kernelOf state) := by
    intro state inside
    have origin : forall core value, value ∈ (new.kernelOf state).lookaheads core ->
        Exists fun source => Sound grammar source ∧ source.cores = (new.kernelOf state).cores ∧
          value ∈ source.lookaheads core := by
      intro core value member
      rcases absorbs.origin state core value inside member with ⟨known, old⟩ | ⟨same, passed⟩
      · exact ⟨_, consistent.sound state known, (absorbs.cores state known).symm, old⟩
      · exact ⟨kernel, kernelSound, same.symm, passed⟩
    rcases absorbs.found state inside with known | same
    · exact (consistent.sound state known).of_same_cores (absorbs.cores state known)
        (absorbs.ordered state inside) origin
    · exact kernelSound.of_same_cores same (absorbs.ordered state inside) origin
  refine ⟨?_, ?_, sound, ?_, ?_, ?_, ?_⟩
  · intro state member
    rcases absorbs.inside state member with known | inside
    · exact Nat.lt_of_lt_of_le (consistent.waiting state known) absorbs.size
    · exact inside
  · have apart : forall old fresh, old < construction.states.size ->
        construction.states.size ≤ fresh -> fresh < new.states.size ->
        (new.kernelOf old).cores ≠ (new.kernelOf fresh).cores := by
      intro old fresh known beyond inside same
      rw [absorbs.cores old known,
        (absorbs.found fresh inside).resolve_left (Nat.not_lt_of_le beyond)] at same
      exact absorbs.fresh fresh beyond inside old known same
    intro left right leftInside rightInside same
    rcases Nat.lt_or_ge left construction.states.size with leftKnown | leftFresh
    · rcases Nat.lt_or_ge right construction.states.size with rightKnown | rightFresh
      · rw [absorbs.cores left leftKnown, absorbs.cores right rightKnown] at same
        exact consistent.distinct left right leftKnown rightKnown same
      · exact (apart left right leftKnown rightFresh rightInside same).elim
    · rcases Nat.lt_or_ge right construction.states.size with rightKnown | rightFresh
      · exact (apart right left rightKnown leftFresh leftInside same.symm).elim
      · have single := absorbs.single
        omega
  · intro state other following member
    rcases absorbs.target with ⟨target, targetInside, targetCores, _, transitions⟩
    rcases (transitions state other following).mp member with ⟨rfl, rfl, rfl⟩ | ⟨_, old⟩
    · have same := absorbs.cores state sourceInside
      have proper := (consistent.sound state sourceInside).proper
      have inside := Nat.lt_of_lt_of_le sourceInside absorbs.size
      refine ⟨inside, targetInside,
        mem_nextSymbols_congr proper (sound state inside).proper same.symm next, ?_⟩
      rw [targetCores, leadsTo]
      exact cores_goto_congr proper (sound state inside).proper same.symm other
    · rcases consistent.leads state other following old with ⟨known, followingKnown, after, cores⟩
      have same := absorbs.cores state known
      have proper := (consistent.sound state known).proper
      have inside := Nat.lt_of_lt_of_le known absorbs.size
      refine ⟨inside, Nat.lt_of_lt_of_le followingKnown absorbs.size,
        mem_nextSymbols_congr proper (sound state inside).proper same.symm after, ?_⟩
      rw [absorbs.cores following followingKnown, cores]
      exact cores_goto_congr proper (sound state inside).proper same.symm other
  · exact Nat.lt_of_lt_of_le consistent.startInside absorbs.size
  · rw [absorbs.cores 0 consistent.startInside]
    exact consistent.startCores
  · exact consistent.startCovers.trans (absorbs.covers 0 consistent.startInside)

/-- A state that keeps its kernel goes on passing its lookaheads. -/
theorem Passes.absorb {source symbol state : Nat} {symbols : List Nat} {kernel : ItemSet}
    {new : Construction} (passes : Passes grammar construction symbols state)
    (consistent : Consistent grammar construction)
    (absorbs : Absorbs source symbol kernel construction new)
    (same : new.kernelOf state = construction.kernelOf state)
    (covers : state = source -> Covers kernel ((ofGrammar grammar).goto
      ((ofGrammar grammar).closure (construction.kernelOf state)) symbol)) :
    Passes grammar new symbols state := by
  intro other listed
  rw [same]
  rcases absorbs.target with ⟨target, _, _, targetCovers, transitions⟩
  by_cases here : state = source ∧ other = symbol
  · refine ⟨target, (transitions _ _ _).mpr (Or.inl ⟨here.1, here.2, rfl⟩), ?_⟩
    rw [here.2]
    exact (covers here.1).trans targetCovers
  · rcases passes other listed with ⟨following, member, known⟩
    have inside := (consistent.leads state other following member).2.1
    exact ⟨following, (transitions _ _ _).mpr (Or.inr ⟨here, member⟩),
      known.trans (absorbs.covers following inside)⟩

/-! ## Looking at a state -/

variable (grammar)

/-- The state `source` had the given kernel when it was taken from the queue, and what it leads to
by the symbols in `done` has been absorbed since. -/
structure Looking (source : Nat) (kernel : ItemSet) (done : List Nat)
    (construction : Construction) : Prop where
  consistent : Consistent grammar construction
  sourceInside : source < construction.states.size
  sourceCores : (construction.kernelOf source).cores = kernel.cores
  kernelSound : Sound grammar kernel
  others : forall state, state < construction.states.size -> state ∉ construction.queue ->
    state ≠ source -> PassesAll grammar construction state
  source : source ∉ construction.queue ->
    construction.kernelOf source = kernel ∧ Passes grammar construction done source

variable {grammar}

private theorem ordered_of_consistent (consistent : Consistent grammar construction) :
    forall state, state < construction.states.size ->
      ItemSet.Ordered (construction.kernelOf state) :=
  fun state inside => (consistent.sound state inside).proper.ordered

/-- What has become of the states after the next kernel was absorbed. -/
theorem Looking.absorbs {source : Nat} {kernel : ItemSet} {done : List Nat}
    (looking : Looking grammar source kernel done construction) {symbol : Nat}
    (next : symbol ∈ (ofGrammar grammar).nextSymbols ((ofGrammar grammar).closure kernel)) :
    Absorbs source symbol ((ofGrammar grammar).goto ((ofGrammar grammar).closure kernel) symbol)
      construction (construction.absorb source symbol
        ((ofGrammar grammar).goto ((ofGrammar grammar).closure kernel) symbol)) :=
  absorbs_absorb looking.sourceInside (ordered_of_consistent looking.consistent)
    (looking.kernelSound.goto next).proper.ordered

theorem Looking.absorb {source : Nat} {kernel : ItemSet} {done : List Nat}
    (looking : Looking grammar source kernel done construction) {symbol : Nat}
    (next : symbol ∈ (ofGrammar grammar).nextSymbols ((ofGrammar grammar).closure kernel)) :
    Looking grammar source kernel (symbol :: done) (construction.absorb source symbol
      ((ofGrammar grammar).goto ((ofGrammar grammar).closure kernel) symbol)) := by
  have consistent := looking.consistent
  have sourceSound := consistent.sound source looking.sourceInside
  have gotoSound := looking.kernelSound.goto next
  have absorbs := looking.absorbs next
  have nextHere := mem_nextSymbols_congr looking.kernelSound.proper sourceSound.proper
    looking.sourceCores.symm next
  have leadsTo := cores_goto_congr looking.kernelSound.proper sourceSound.proper
    looking.sourceCores.symm symbol
  refine ⟨consistent.absorb absorbs looking.sourceInside gotoSound nextHere leadsTo,
    Nat.lt_of_lt_of_le looking.sourceInside absorbs.size, ?_, looking.kernelSound, ?_, ?_⟩
  · rw [absorbs.cores source looking.sourceInside, looking.sourceCores]
  · intro state inside notQueued different
    rcases absorbs.unchanged state inside notQueued with ⟨known, same⟩
    have before := looking.others state known
      (fun waits => notQueued (absorbs.queued state waits)) different
    unfold PassesAll
    rw [same]
    exact before.absorb consistent absorbs same fun here => (different here).elim
  · intro notQueued
    have inside := Nat.lt_of_lt_of_le looking.sourceInside absorbs.size
    rcases absorbs.unchanged source inside notQueued with ⟨_, same⟩
    rcases looking.source (fun waits => notQueued (absorbs.queued source waits)) with
      ⟨kept, passes⟩
    have covers : Covers ((ofGrammar grammar).goto ((ofGrammar grammar).closure kernel) symbol)
        ((ofGrammar grammar).goto ((ofGrammar grammar).closure (construction.kernelOf source))
          symbol) := by
      rw [kept]
      exact Covers.refl _
    have old := passes.absorb consistent absorbs same fun _ => covers
    refine ⟨same.trans kept, ?_⟩
    intro other listed
    rcases List.mem_cons.mp listed with rfl | earlier
    · rcases absorbs.target with ⟨target, _, _, targetCovers, transitions⟩
      rw [same]
      exact ⟨target, (transitions _ _ _).mpr (Or.inl ⟨rfl, rfl, rfl⟩), covers.trans targetCovers⟩
    · exact old other earlier

private theorem Looking.foldl {source : Nat} {kernel : ItemSet}
    (symbols : List Nat) {done : List Nat}
    (looking : Looking grammar source kernel done construction)
    (next : forall symbol, symbol ∈ symbols ->
      symbol ∈ (ofGrammar grammar).nextSymbols ((ofGrammar grammar).closure kernel)) :
    Looking grammar source kernel (symbols.reverse ++ done)
        (symbols.foldl (fun construction symbol => construction.absorb source symbol
          ((ofGrammar grammar).goto ((ofGrammar grammar).closure kernel) symbol)) construction) ∧
      construction.load + (symbols.foldl (fun construction symbol =>
          construction.absorb source symbol
            ((ofGrammar grammar).goto ((ofGrammar grammar).closure kernel) symbol))
          construction).queue.length ≤
        (symbols.foldl (fun construction symbol => construction.absorb source symbol
          ((ofGrammar grammar).goto ((ofGrammar grammar).closure kernel) symbol))
          construction).load + construction.queue.length := by
  induction symbols generalizing construction done with
  | nil => exact ⟨looking, Nat.le_refl _⟩
  | cons symbol rest inductionHypothesis =>
      have here := next symbol List.mem_cons_self
      have first := looking.absorb here
      have others := inductionHypothesis first fun later member =>
        next later (List.mem_cons_of_mem _ member)
      refine ⟨?_, ?_⟩
      · rw [List.reverse_cons, List.append_assoc]
        exact others.1
      · have load := (looking.absorbs here).load
        have more := others.2
        rw [List.foldl_cons]
        omega

variable (grammar)

/-- All states are sound, and those that do not wait pass all their lookaheads on. -/
structure Settling (construction : Construction) : Prop where
  consistent : Consistent grammar construction
  passes : forall state, state < construction.states.size -> state ∉ construction.queue ->
    PassesAll grammar construction state

variable {grammar}

/-- The state in front of the queue is taken, and nothing that it leads to is absorbed yet. -/
theorem Settling.looking {states : Array State} {source : Nat} {queue : List Nat}
    (settling : Settling grammar ⟨states, source :: queue⟩) (inside : source < states.size) :
    Looking grammar source states[source].kernel [] ⟨states, queue⟩ := by
  have consistent := settling.consistent
  have kernel : kernelOf ⟨states, source :: queue⟩ source = states[source].kernel :=
    kernelOf_of_getElem? (Array.getElem?_eq_getElem inside)
  have taken : Consistent grammar ⟨states, queue⟩ :=
    ⟨fun state member => consistent.waiting state (List.mem_cons_of_mem _ member),
      consistent.distinct, consistent.sound, consistent.leads, consistent.startInside,
      consistent.startCores, consistent.startCovers⟩
  refine ⟨taken, inside, congrArg ItemSet.cores kernel, kernel ▸ consistent.sound source inside,
    ?_, ?_⟩
  · intro state known notQueued different
    exact settling.passes state known fun member =>
      notQueued ((List.mem_cons.mp member).resolve_left different)
  · exact fun _ => ⟨kernel, fun _ impossible => by cases impossible⟩

/-- Once everything that a state leads to is absorbed, all states that do not wait pass their
lookaheads on. -/
theorem Looking.settling {source : Nat} {kernel : ItemSet} {done : List Nat}
    (looking : Looking grammar source kernel done construction)
    (all : forall symbol,
      symbol ∈ (ofGrammar grammar).nextSymbols ((ofGrammar grammar).closure kernel) ->
        symbol ∈ done) : Settling grammar construction := by
  refine ⟨looking.consistent, fun state known notQueued => ?_⟩
  by_cases same : state = source
  · rw [same] at notQueued ⊢
    rcases looking.source notQueued with ⟨kept, passes⟩
    unfold PassesAll
    rw [kept]
    exact fun symbol member => passes symbol (all symbol member)
  · exact looking.others state known notQueued same

/-- Looking at a state means to absorb what it leads to, one kernel after the other. -/
theorem step_eq_foldl {states : Array State} {source : Nat} {queue : List Nat}
    (inside : source < states.size) :
    Construction.step (ofGrammar grammar) ⟨states, source :: queue⟩ =
      ((ofGrammar grammar).nextSymbols
        ((ofGrammar grammar).closure states[source].kernel)).foldl
        (fun construction symbol => construction.absorb source symbol
          ((ofGrammar grammar).goto ((ofGrammar grammar).closure states[source].kernel) symbol))
        ⟨states, queue⟩ := by
  unfold Construction.step gotos
  dsimp only
  rw [Array.getElem?_eq_getElem inside]
  dsimp only
  rw [List.foldl_map]

/-- Looking at the state in front of the queue pays for what it adds to the queue. -/
theorem Settling.step (settling : Settling grammar construction)
    (waits : construction.queue ≠ []) :
    Settling grammar (construction.step (ofGrammar grammar)) ∧
      construction.load + (construction.step (ofGrammar grammar)).queue.length + 1 ≤
        (construction.step (ofGrammar grammar)).load + construction.queue.length := by
  rcases construction with ⟨states, queue⟩
  cases queue with
  | nil => exact (waits rfl).elim
  | cons source queue =>
      have inside : source < states.size :=
        settling.consistent.waiting source List.mem_cons_self
      rcases (settling.looking inside).foldl
        ((ofGrammar grammar).nextSymbols ((ofGrammar grammar).closure states[source].kernel))
        fun _ member => member with ⟨looked, paid⟩
      rw [step_eq_foldl inside]
      refine ⟨looked.settling fun symbol member =>
        List.mem_append_left _ (List.mem_reverse.mpr member), ?_⟩
      have same : load (⟨states, source :: queue⟩ : Construction) =
          Construction.load ⟨states, queue⟩ := rfl
      rw [List.length_cons]
      dsimp only at paid
      omega

/-! ## The queue runs empty -/

/-- Kernels that differ in their cores differ as sets of possible cores. -/
private theorem size_le (consistent : Consistent grammar construction) :
    construction.states.size ≤ 2 ^ Automaton.coreCount (ofGrammar grammar) := by
  have maps : forall state, state ∈ Finset.range construction.states.size ->
      (construction.kernelOf state).cores.toFinset ∈
        (possibleCores (ofGrammar grammar)).toFinset.powerset := by
    intro state member
    rw [Finset.mem_powerset]
    intro core listed
    have inside := Finset.mem_range.mp member
    exact List.mem_toFinset.mpr
      ((consistent.sound state inside).placed core (List.mem_toFinset.mp listed))
  have injective : Set.InjOn (fun state => (construction.kernelOf state).cores.toFinset)
      (Finset.range construction.states.size : Set Nat) := by
    intro left leftMember right rightMember same
    have leftInside := Finset.mem_range.mp (Finset.mem_coe.mp leftMember)
    have rightInside := Finset.mem_range.mp (Finset.mem_coe.mp rightMember)
    apply consistent.distinct left right leftInside rightInside
    apply ItemSet.cores_eq_of_mem_iff (ordered_of_consistent consistent left leftInside)
      (ordered_of_consistent consistent right rightInside)
    intro core
    rw [← List.mem_toFinset, ← List.mem_toFinset]
    exact iff_of_eq (congrArg (core ∈ ·) same)
  have count := Finset.card_le_card_of_injOn _ maps injective
  rw [Finset.card_range, Finset.card_powerset] at count
  have possible := List.toFinset_card_le (possibleCores (ofGrammar grammar))
  rw [length_possibleCores] at possible
  exact Nat.le_trans count (Nat.pow_le_pow_right (by decide) possible)

private theorem load_le (consistent : Consistent grammar construction) :
    construction.load ≤ 2 ^ Automaton.coreCount (ofGrammar grammar) *
      (Automaton.coreCount (ofGrammar grammar) * (symbolCount grammar + 1) + 1) := by
  have each : forall state, state ∈ construction.states.toList ->
      state.kernel.weight + 1 ≤
        Automaton.coreCount (ofGrammar grammar) * (symbolCount grammar + 1) + 1 := by
    intro state listed
    rcases List.getElem?_of_mem listed with ⟨index, found⟩
    rw [Array.getElem?_toList] at found
    have sound := consistent.sound index (Array.getElem?_eq_some_iff.mp found).1
    rw [kernelOf_of_getElem? found] at sound
    have weight := ItemSet.weight_le sound.proper.ordered
      (fun core member => List.mem_toFinset.mpr (sound.placed core member)) sound.proper.inside
    have possible := List.toFinset_card_le (possibleCores (ofGrammar grammar))
    rw [length_possibleCores] at possible
    exact Nat.succ_le_succ (Nat.le_trans weight (Nat.mul_le_mul_right _ possible))
  have total := totalSize_le each
  exact Nat.le_trans total (Nat.mul_le_mul_right _ (size_le consistent))

/-- Enough rounds empty the queue. -/
theorem Settling.finish {bound : Nat}
    (settling : Settling grammar construction)
    (enough : construction.queue.length +
        2 ^ Automaton.coreCount (ofGrammar grammar) *
          (Automaton.coreCount (ofGrammar grammar) * (symbolCount grammar + 1) + 1) ≤
      bound + construction.load) :
    Settling grammar (construction.finish (ofGrammar grammar) bound) ∧
      (construction.finish (ofGrammar grammar) bound).queue = [] := by
  induction bound generalizing construction with
  | zero =>
      have small := load_le settling.consistent
      have empty : construction.queue = [] := List.eq_nil_of_length_eq_zero (by omega)
      exact ⟨settling, empty⟩
  | succ bound inductionHypothesis =>
      unfold Construction.finish
      by_cases empty : construction.queue = []
      · rw [if_pos (List.isEmpty_iff.mpr empty)]
        exact ⟨settling, empty⟩
      · rw [if_neg (fun isEmpty => empty (List.isEmpty_iff.mp isEmpty))]
        rcases settling.step empty with ⟨next, paid⟩
        exact inductionHypothesis next (by omega)

/-! ## The finished construction -/

variable (grammar)

/-- The construction of the grammar's states before the first of them is looked at. -/
def initial : Construction := ⟨#[⟨startItems grammar, []⟩], [0]⟩

/-- The construction of the grammar's states when it is finished. -/
def finished : Construction :=
  (initial grammar).finish (ofGrammar grammar) (Automaton.constructionBound (ofGrammar grammar))

/-- The number of the root; that of the end of the input if the root has none. -/
def rootId : Nat := ((ofGrammar grammar).vocabulary.id? grammar.root).getD Vocabulary.endId

theorem rootId_inside : rootId grammar < symbolCount grammar := by
  unfold rootId
  cases found : (ofGrammar grammar).vocabulary.id? grammar.root with
  | some id => exact (Array.getElem?_eq_some_iff.mp (Vocabulary.id?_eq_some found)).1
  | none => exact (Array.getElem?_eq_some_iff.mp (Vocabulary.endName grammar)).1

/-- The productions of the root's number are those of the root. -/
theorem expands_rootId (production : Nat) :
    grammar.Expands (symbolName grammar (rootId grammar)) production ↔
      grammar.Expands grammar.root production := by
  rcases Vocabulary.root_numbered grammar with ⟨id, found⟩
  have isRoot : rootId grammar = id := by
    rw [rootId]
    exact congrArg (Option.getD · Vocabulary.endId) found
  have name : symbolName grammar id = grammar.root :=
    Vocabulary.name_of_getElem? (Vocabulary.id?_eq_some found)
  rw [isRoot, name]

theorem mem_startItems {item : Core × IdSet} :
    item ∈ startItems grammar ↔ grammar.StartCore item.1 ∧ item.2 = [Vocabulary.endId] := by
  change item ∈ ((ofGrammar grammar).productionsOf.getD (rootId grammar) []).map _ ↔ _
  rw [List.mem_map]
  constructor
  · rintro ⟨production, listed, rfl⟩
    have expands := (mem_productionsOf_iff grammar (rootId_inside grammar)).mp listed
    exact ⟨⟨rfl, (expands_rootId grammar production).mp expands⟩, rfl⟩
  · rcases item with ⟨⟨production, dot⟩, set⟩
    rintro ⟨⟨atFront, expands⟩, ends⟩
    have listed := (mem_productionsOf_iff grammar (rootId_inside grammar)).mpr
      ((expands_rootId grammar production).mpr expands)
    dsimp only at atFront ends
    exact ⟨production, listed, by rw [atFront, ends]⟩

theorem coresOf_startItems :
    coresOf (startItems grammar) = grammar.StartCore := by
  funext core
  apply propext
  unfold coresOf
  rw [ItemSet.mem_cores]
  constructor
  · rintro ⟨set, listed⟩
    exact ((mem_startItems grammar).mp listed).1
  · intro isStart
    exact ⟨_, (mem_startItems grammar).mpr ⟨isStart, rfl⟩⟩

private theorem ordered_startItems : ItemSet.Ordered (startItems grammar) := by
  constructor
  · change ((((ofGrammar grammar).productionsOf.getD (rootId grammar) []).map
      fun production => ((⟨production, 0⟩ : Core), [Vocabulary.endId])).map (·.1)).Pairwise _
    rw [getD_productionsOf grammar (rootId_inside grammar), List.map_map, List.pairwise_map]
    unfold Vocabulary.productionsOf
    apply List.Pairwise.filter
    refine List.pairwise_lt_range.imp ?_
    intro left right less
    exact (Core.before_iff _ _).mpr (Or.inl less)
  · intro item listed
    rcases List.mem_map.mp listed with ⟨production, _, rfl⟩
    exact List.pairwise_singleton _ _

theorem mem_lookaheads_startItems (core : Core) (value : Nat) :
    value ∈ (startItems grammar).lookaheads core ↔
      grammar.StartCore core ∧ value = Vocabulary.endId := by
  constructor
  · intro member
    have listed := ItemSet.mem_of_mem_cores (ItemSet.mem_cores_of_mem_lookaheads member)
    rcases (mem_startItems grammar).mp listed with ⟨isStart, set⟩
    dsimp only at isStart set
    rw [set] at member
    exact ⟨isStart, List.mem_singleton.mp member⟩
  · rintro ⟨isStart, rfl⟩
    have listed : (core, [Vocabulary.endId]) ∈ startItems grammar :=
      (mem_startItems grammar).mpr ⟨isStart, rfl⟩
    rw [ItemSet.lookaheads_of_mem (ordered_startItems grammar) listed]
    exact List.mem_singleton_self _

theorem sound_startItems : Sound grammar (startItems grammar) := by
  have reaches : grammar.Reaches [] (coresOf (startItems grammar)) := by
    rw [coresOf_startItems grammar]
    exact .start
  have endName : symbolName grammar Vocabulary.endId = "" :=
    Vocabulary.name_of_getElem? (Vocabulary.endName grammar)
  refine ⟨⟨ordered_startItems grammar, ?_⟩, ?_, ⟨[], reaches⟩, ?_⟩
  · intro core value member
    rcases (mem_lookaheads_startItems grammar core value).mp member with ⟨_, rfl⟩
    exact (Array.getElem?_eq_some_iff.mp (Vocabulary.endName grammar)).1
  · intro core member
    have isStart : coresOf (startItems grammar) core := member
    rw [coresOf_startItems grammar] at isStart
    rcases isStart with ⟨atFront, pair, known, _⟩
    rcases Vocabulary.production_exists grammar known with ⟨numbered, found⟩
    exact mem_possibleCores.mpr ⟨numbered, found, atFront ▸ Nat.zero_le _⟩
  · intro core value member
    rcases (mem_lookaheads_startItems grammar core value).mp member with
      ⟨⟨atFront, expands⟩, rfl⟩
    rw [endName, coresOf_startItems grammar]
    rcases core with ⟨production, dot⟩
    dsimp only at atFront expands
    rw [atFront]
    exact .start production expands

theorem settling_initial : Settling grammar (initial grammar) := by
  have only : forall state, state < (initial grammar).states.size -> state = 0 :=
    fun state inside => Nat.lt_one_iff.mp inside
  have kernel : (initial grammar).kernelOf 0 = startItems grammar := rfl
  refine ⟨⟨?_, ?_, ?_, ?_, Nat.zero_lt_one, rfl, Covers.refl _⟩, ?_⟩
  · intro state member
    exact List.mem_singleton.mp member ▸ Nat.zero_lt_one
  · intro left right leftInside rightInside _
    rw [only left leftInside, only right rightInside]
  · intro state inside
    rw [only state inside, kernel]
    exact sound_startItems grammar
  · intro state symbol target member
    cases state with
    | zero => cases member
    | succ state => cases member
  · intro state inside notQueued
    exact (notQueued (List.mem_singleton.mpr (only state inside))).elim

/-- The finished states are sound, and each passes all its lookaheads on. -/
theorem settling_finished :
    Settling grammar (finished grammar) ∧ (finished grammar).queue = [] := by
  apply (settling_initial grammar).finish
  have one : 1 ≤ 2 ^ Automaton.coreCount (ofGrammar grammar) := Nat.one_le_two_pow
  have bound : Automaton.constructionBound (ofGrammar grammar) =
      2 ^ Automaton.coreCount (ofGrammar grammar) *
          (Automaton.coreCount (ofGrammar grammar) * (symbolCount grammar + 1) + 1) +
        2 ^ Automaton.coreCount (ofGrammar grammar) := by
    rw [← Nat.mul_succ]
    rfl
  have queue : (initial grammar).queue.length = 1 := rfl
  rw [bound, queue]
  omega

end Construction

end ShiftReduce
