import ShiftReduce.Proofs.Automaton.Construction

namespace ShiftReduce

/-!
# The automaton is the LALR(1) automaton

The states of an automaton stand for sets of cores, its transitions for moves of the dot, and the
lookaheads of a core in a state for all that the canonical rules attach to it along the strings
which lead to that state.  The structure below says this about an arbitrary automaton, and the theorem
says that the automaton of a grammar has it.

A lookahead that is missing would be found by following the rules from the start: the start state
has the end of the input, closures lose nothing, and every state passes its lookaheads on.  An
invented one would have to come from a kernel, and kernels hold only what the rules bring there.  The
string along which they do so leads to the state itself, since states differ in their cores.
-/

namespace Automaton

variable (automaton : Automaton)

/-- A transition from one state to another by the symbol of that name. -/
def LeadsTo (source : Nat) (symbol : String) (target : Nat) : Prop :=
  Exists fun state => Exists fun id => automaton.states[source]? = some state ∧
    automaton.analysis.vocabulary.names[id]? = some symbol ∧ (id, target) ∈ state.transitions

/-- The transitions lead from the start to the state by a string of symbols, the latest first. -/
inductive Path : List String -> Nat -> Prop where
  | start : Path [] 0
  | move (path : List String) (source : Nat) (symbol : String) (target : Nat)
      (before : Path path source) (leads : automaton.LeadsTo source symbol target) :
      Path (symbol :: path) target

/-- The core has the lookahead of that name in the closed state. -/
def HasLookahead (index : Nat) (core : Core) (lookahead : String) : Prop :=
  Exists fun state => Exists fun id => automaton.states[index]? = some state ∧
    automaton.analysis.vocabulary.names[id]? = some lookahead ∧
    id ∈ (automaton.items state).lookaheads core

/-- The automaton is the LALR(1) automaton of a grammar. -/
structure IsLalr (grammar : PlainGrammar) : Prop where
  start : Exists fun state : State => automaton.states[0]? = some state ∧
    Analysis.coresOf state.kernel = grammar.StartCore
  reached : forall (kernel : Core -> Prop), (Exists fun path => grammar.Reaches path kernel) ↔
    Exists fun index : Nat => Exists fun state : State =>
      automaton.states[index]? = some state ∧ Analysis.coresOf state.kernel = kernel
  distinct : forall (left right : Nat) (first second : State),
    automaton.states[left]? = some first -> automaton.states[right]? = some second ->
    Analysis.coresOf first.kernel = Analysis.coresOf second.kernel -> left = right
  items : forall (index : Nat) (state : State), automaton.states[index]? = some state ->
    forall core, core ∈ (automaton.items state).cores ↔
      grammar.InClosure (Analysis.coresOf state.kernel) core
  moves : forall (index : Nat) (state : State) (symbol : String),
    automaton.states[index]? = some state ->
    ((Exists fun target => automaton.LeadsTo index symbol target) ↔
      Exists fun core => Exists fun rest =>
        grammar.InClosure (Analysis.coresOf state.kernel) core ∧
          grammar.fromDot core.production core.dot = symbol :: rest)
  targets : forall (index : Nat) (state : State) (symbol : String) (target : Nat),
    automaton.states[index]? = some state -> automaton.LeadsTo index symbol target ->
    Exists fun following : State => automaton.states[target]? = some following ∧
      Analysis.coresOf following.kernel = grammar.Moved (Analysis.coresOf state.kernel) symbol
  named : forall (index : Nat) (state : State) (core : Core) (id : Nat),
    automaton.states[index]? = some state -> id ∈ (automaton.items state).lookaheads core ->
    Exists fun lookahead => automaton.analysis.vocabulary.names[id]? = some lookahead
  lookaheads : forall (index : Nat) (core : Core) (lookahead : String),
    automaton.HasLookahead index core lookahead ↔
      Exists fun path => automaton.Path path index ∧ grammar.Attaches path core lookahead

end Automaton

namespace Construction

open Analysis

variable (grammar : PlainGrammar)

/-! ## The finished states -/

theorem sound_finished {index : Nat}
    (inside : index < (finished grammar).states.size) :
    Sound grammar ((finished grammar).kernelOf index) :=
  (settling_finished grammar).1.consistent.sound index inside

theorem passesAll_finished {index : Nat}
    (inside : index < (finished grammar).states.size) :
    PassesAll grammar (finished grammar) index := by
  have settled := settling_finished grammar
  exact settled.1.passes index inside (settled.2 ▸ List.not_mem_nil)

theorem distinct_finished {left right : Nat}
    (leftInside : left < (finished grammar).states.size)
    (rightInside : right < (finished grammar).states.size)
    (same : coresOf ((finished grammar).kernelOf left) =
      coresOf ((finished grammar).kernelOf right)) : left = right := by
  apply (settling_finished grammar).1.consistent.distinct left right leftInside rightInside
  apply ItemSet.cores_eq_of_mem_iff (sound_finished grammar leftInside).proper.ordered
    (sound_finished grammar rightInside).proper.ordered
  intro core
  exact iff_of_eq (congrFun same core)

/-- A transition of a finished state. -/
theorem transition_finished {index symbol target : Nat}
    (member : (symbol, target) ∈ (finished grammar).transitionsOf index) :
    index < (finished grammar).states.size ∧ target < (finished grammar).states.size ∧
      (Exists fun core => Exists fun rest =>
        grammar.InClosure (coresOf ((finished grammar).kernelOf index)) core ∧
          grammar.fromDot core.production core.dot = symbolName grammar symbol :: rest) ∧
      coresOf ((finished grammar).kernelOf target) =
        grammar.Moved (coresOf ((finished grammar).kernelOf index)) (symbolName grammar symbol) := by
  rcases (settling_finished grammar).1.consistent.leads index symbol target member with
    ⟨inside, targetInside, next, cores⟩
  have sound := sound_finished grammar inside
  rcases (mem_nextSymbols _).mp next with ⟨core, listed, atDot⟩
  have symbolInside := nextSymbol?_inside grammar atDot
  rcases (nextSymbol?_iff grammar symbolInside).mp atDot with ⟨rest, dotted⟩
  refine ⟨inside, targetInside,
    ⟨core, rest, (mem_cores_closure grammar sound.proper core).mp listed, dotted⟩, ?_⟩
  funext moved
  apply propext
  unfold coresOf
  rw [cores]
  exact mem_cores_goto_closure grammar sound.proper symbolInside moved

/-- A symbol behind a dot has a transition, which takes all lookaheads along. -/
theorem transition_exists {index : Nat}
    (inside : index < (finished grammar).states.size) {core : Core} {symbol : String}
    {rest : List String}
    (member : grammar.InClosure (coresOf ((finished grammar).kernelOf index)) core)
    (dotted : grammar.fromDot core.production core.dot = symbol :: rest) :
    Exists fun id => Exists fun target => symbolName grammar id = symbol ∧
      id < symbolCount grammar ∧ (id, target) ∈ (finished grammar).transitionsOf index ∧
      Covers ((finished grammar).kernelOf target)
        ((ofGrammar grammar).goto
          ((ofGrammar grammar).closure ((finished grammar).kernelOf index)) id) := by
  have sound := sound_finished grammar inside
  rcases numbered_of_dotted grammar dotted with ⟨id, ids, numbered, idInside, name, _⟩
  have listed := (mem_cores_closure grammar sound.proper core).mpr member
  have next := (mem_nextSymbols (ofGrammar grammar)).mpr
    ⟨core, listed, nextSymbol?_eq_some.mpr ⟨ids, numbered⟩⟩
  rcases passesAll_finished grammar inside id next with ⟨target, transition, covers⟩
  exact ⟨id, target, name, idInside, transition, covers⟩

/-! ## Strings and states -/

theorem leadsTo_iff {index target : Nat} {symbol : String} :
    (Automaton.ofGrammar grammar).LeadsTo index symbol target ↔
      Exists fun id => (Vocabulary.ofGrammar grammar).names[id]? = some symbol ∧
        (id, target) ∈ (finished grammar).transitionsOf index := by
  constructor
  · rintro ⟨state, id, found, name, member⟩
    have known : (finished grammar).states[index]? = some state := found
    refine ⟨id, name, ?_⟩
    rw [transitionsOf, known]
    exact member
  · rintro ⟨id, name, member⟩
    unfold transitionsOf at member
    cases found : (finished grammar).states[index]? with
    | none =>
        rw [found] at member
        cases member
    | some state =>
        rw [found] at member
        exact ⟨state, id, found, name, member⟩

theorem startKernel_finished :
    coresOf ((finished grammar).kernelOf 0) = grammar.StartCore := by
  rw [← coresOf_startItems grammar]
  unfold coresOf
  rw [(settling_finished grammar).1.consistent.startCores]

/-- A string that leads to a state reaches the cores of its kernel. -/
theorem reaches_of_path {path : List String} {index : Nat}
    (leads : (Automaton.ofGrammar grammar).Path path index) :
    index < (finished grammar).states.size ∧
      grammar.Reaches path (coresOf ((finished grammar).kernelOf index)) := by
  induction leads with
  | start =>
      rw [startKernel_finished grammar]
      exact ⟨(settling_finished grammar).1.consistent.startInside, .start⟩
  | move path source symbol target _ leads inductionHypothesis =>
      rcases (leadsTo_iff grammar).mp leads with ⟨id, name, member⟩
      rcases transition_finished grammar member with
        ⟨_, targetInside, ⟨core, rest, listed, dotted⟩, cores⟩
      have same : symbolName grammar id = symbol := Vocabulary.name_of_getElem? name
      rw [cores]
      rw [same] at dotted ⊢
      exact ⟨targetInside, .move path _ core symbol rest inductionHypothesis.2 listed dotted⟩

/-- A set that a string reaches is the kernel of a state that the string leads to. -/
theorem path_of_reaches {path : List String} {kernel : Core -> Prop}
    (reaches : grammar.Reaches path kernel) :
    Exists fun index => (Automaton.ofGrammar grammar).Path path index ∧
      index < (finished grammar).states.size ∧
      coresOf ((finished grammar).kernelOf index) = kernel := by
  induction reaches with
  | start =>
      exact ⟨0, .start, (settling_finished grammar).1.consistent.startInside,
        startKernel_finished grammar⟩
  | move path kernel core symbol rest _ listed dotted inductionHypothesis =>
      rcases inductionHypothesis with ⟨source, before, inside, cores⟩
      rw [← cores] at listed
      rcases transition_exists grammar inside listed dotted with
        ⟨id, target, name, idInside, member, _⟩
      rcases transition_finished grammar member with ⟨_, targetInside, _, targetCores⟩
      have known := Vocabulary.getElem?_names idInside
      refine ⟨target, .move path source symbol target before ?_, targetInside, ?_⟩
      · exact (leadsTo_iff grammar).mpr ⟨id, name ▸ known, member⟩
      · rw [targetCores, cores, name]

/-! ## Lookaheads -/

/-- What the rules bring to a core of a set is in the state with that kernel. -/
theorem lookahead_of_carries {kernel : Core -> Prop} {core : Core} {lookahead : String}
    (carries : grammar.Carries kernel core lookahead) {index : Nat}
    (inside : index < (finished grammar).states.size)
    (same : coresOf ((finished grammar).kernelOf index) = kernel) :
    Exists fun id => id < symbolCount grammar ∧ symbolName grammar id = lookahead ∧
      id ∈ ((ofGrammar grammar).closure ((finished grammar).kernelOf index)).lookaheads core := by
  induction carries generalizing index with
  | start production expands =>
      have settled := (settling_finished grammar).1.consistent
      have here := distinct_finished grammar inside settled.startInside
        (same.trans (startKernel_finished grammar).symm)
      have known := (mem_lookaheads_startItems grammar ⟨production, 0⟩
        Vocabulary.endId).mpr ⟨⟨rfl, expands⟩, rfl⟩
      have endName := Vocabulary.endName grammar
      rw [here]
      exact ⟨Vocabulary.endId, (Array.getElem?_eq_some_iff.mp endName).1,
        Vocabulary.name_of_getElem? endName,
        (covers_closure grammar (sound_finished grammar settled.startInside).proper).lookaheads _ _
          (settled.startCovers.lookaheads _ _ known)⟩
  | first kernel core next rest production lookahead reached listed dotted expands opens =>
      have sound := sound_finished grammar inside
      rw [← same] at listed
      rcases numbered_of_dotted grammar dotted with ⟨id, ids, numbered, idInside, rfl, rfl⟩
      have expanded := closed_closure grammar sound.proper core
        ((mem_cores_closure grammar sound.proper core).mpr listed) id ids numbered production
        ((mem_productionsOf_iff grammar idInside).mpr expands)
      rcases opens.begins.2 with ⟨others, derives⟩
      have known := numbered_of_derives grammar derives (fun name member => by
        rcases List.mem_map.mp member with ⟨later, laterListed, laterName⟩
        exact ⟨later, lt_of_mem_fromDot grammar (numbered ▸ List.mem_cons_of_mem _ laterListed),
          laterName⟩) lookahead List.mem_cons_self
      rcases known with ⟨value, valueInside, valueName⟩
      refine ⟨value, valueInside, valueName, expanded.2 value ?_⟩
      rw [mem_firstOf_rest grammar numbered]
      exact Or.inl ⟨valueInside, valueName ▸ opens⟩
  | pass kernel core next rest production lookahead _ dotted expands nullable
      inductionHypothesis =>
      have sound := sound_finished grammar inside
      rcases inductionHypothesis inside same with ⟨value, valueInside, valueName, member⟩
      rcases numbered_of_dotted grammar dotted with ⟨id, ids, numbered, idInside, rfl, rfl⟩
      have expanded := closed_closure grammar sound.proper core
        (ItemSet.mem_cores_of_mem_lookaheads member) id ids numbered production
        ((mem_productionsOf_iff grammar idInside).mpr expands)
      refine ⟨value, valueInside, valueName, expanded.2 value ?_⟩
      rw [mem_firstOf_rest grammar numbered]
      exact Or.inr ⟨nullable, member⟩
  | move kernel core symbol rest lookahead carries dotted inductionHypothesis =>
      -- The set before the move belongs to a state as well, which passes its lookaheads on.
      rcases carries.inside with ⟨⟨path, reaches⟩, listed⟩
      rcases path_of_reaches grammar reaches with ⟨source, _, sourceInside, sourceCores⟩
      rcases inductionHypothesis sourceInside sourceCores with
        ⟨value, valueInside, valueName, member⟩
      have sound := sound_finished grammar sourceInside
      rw [← sourceCores] at listed
      rcases transition_exists grammar sourceInside listed dotted with
        ⟨id, target, name, idInside, known, covers⟩
      rcases transition_finished grammar known with ⟨_, targetInside, _, cores⟩
      have here : index = target := by
        apply distinct_finished grammar inside targetInside
        rw [cores, sourceCores, name, same]
      rw [here]
      refine ⟨value, valueInside, valueName, ?_⟩
      apply (covers_closure grammar (sound_finished grammar targetInside).proper).lookaheads
      apply covers.lookaheads
      rw [mem_lookaheads_goto _ (proper_closure grammar sound.proper).ordered]
      exact ⟨core, (nextSymbol?_iff grammar idInside).mpr ⟨rest, name ▸ dotted⟩, rfl, member⟩

/-- What the canonical rules attach along a string is in the state that the string leads to. -/
theorem lookahead_of_attaches (named : grammar.Named) {path : List String} {core : Core}
    {lookahead : String} (attaches : grammar.Attaches path core lookahead) {index : Nat}
    (leads : (Automaton.ofGrammar grammar).Path path index) :
    Exists fun id => id < symbolCount grammar ∧ symbolName grammar id = lookahead ∧
      id ∈ ((ofGrammar grammar).closure ((finished grammar).kernelOf index)).lookaheads core := by
  rcases reaches_of_path grammar leads with ⟨inside, reaches⟩
  exact lookahead_of_carries grammar (attaches.carries named reaches) inside rfl

end Construction

namespace Automaton

open Analysis Construction

variable {grammar : PlainGrammar}

private theorem kernelOf_eq {index : Nat} {state : State}
    (found : (Automaton.ofGrammar grammar).states[index]? = some state) :
    index < (finished grammar).states.size ∧ (finished grammar).kernelOf index = state.kernel :=
  ⟨(Array.getElem?_eq_some_iff.mp found).1, kernelOf_of_getElem? found⟩

private theorem state_exists {index : Nat} (inside : index < (finished grammar).states.size) :
    Exists fun state : State => (Automaton.ofGrammar grammar).states[index]? = some state ∧
      (finished grammar).kernelOf index = state.kernel := by
  have found := Array.getElem?_eq_getElem inside
  exact ⟨_, found, kernelOf_of_getElem? found⟩

/-- The lookaheads of a state are those that the rules bring to its kernel. -/
theorem hasLookahead_iff_carries (index : Nat) (core : Core) (lookahead : String) :
    (Automaton.ofGrammar grammar).HasLookahead index core lookahead ↔
      index < (finished grammar).states.size ∧
        grammar.Carries (coresOf ((finished grammar).kernelOf index)) core lookahead := by
  constructor
  · rintro ⟨state, id, found, name, member⟩
    rcases kernelOf_eq found with ⟨inside, same⟩
    have listed : id ∈ ((Analysis.ofGrammar grammar).closure
        ((finished grammar).kernelOf index)).lookaheads core := same ▸ member
    have sameName : symbolName grammar id = lookahead := Vocabulary.name_of_getElem? name
    exact ⟨inside, sameName ▸ (sound_finished grammar inside).carried_closure core id listed⟩
  · rintro ⟨inside, carries⟩
    rcases state_exists inside with ⟨state, found, same⟩
    rcases lookahead_of_carries grammar carries inside rfl with ⟨id, idInside, name, member⟩
    rw [same] at member
    exact ⟨state, id, found, name ▸ Vocabulary.getElem?_names idInside, member⟩

private theorem hasLookahead_iff (named : grammar.Named) (index : Nat) (core : Core)
    (lookahead : String) :
    (Automaton.ofGrammar grammar).HasLookahead index core lookahead ↔
      Exists fun path => (Automaton.ofGrammar grammar).Path path index ∧
        grammar.Attaches path core lookahead := by
  rw [hasLookahead_iff_carries]
  constructor
  · rintro ⟨inside, carries⟩
    rcases carries.attaches with ⟨path, reaches, attaches⟩
    rcases path_of_reaches grammar reaches with ⟨other, leads, otherInside, cores⟩
    have here := distinct_finished grammar otherInside inside cores
    exact ⟨path, here ▸ leads, attaches⟩
  · rintro ⟨path, leads, attaches⟩
    rcases reaches_of_path grammar leads with ⟨inside, reaches⟩
    exact ⟨inside, attaches.carries named reaches⟩

/-- The automaton that is built for a grammar without empty names is its LALR(1) automaton. -/
theorem isLalr_ofGrammar (grammar : PlainGrammar) (named : grammar.Named) :
    (Automaton.ofGrammar grammar).IsLalr grammar := by
  refine ⟨?_, ?_, ?_, ?_, ?_, ?_, ?_, hasLookahead_iff named⟩
  · have inside := (settling_finished grammar).1.consistent.startInside
    rcases state_exists inside with ⟨state, found, same⟩
    exact ⟨state, found, same ▸ startKernel_finished grammar⟩
  · intro kernel
    constructor
    · rintro ⟨path, reaches⟩
      rcases path_of_reaches grammar reaches with ⟨index, _, inside, cores⟩
      rcases state_exists inside with ⟨state, found, same⟩
      exact ⟨index, state, found, same ▸ cores⟩
    · rintro ⟨index, state, found, cores⟩
      rcases kernelOf_eq found with ⟨inside, same⟩
      rw [← cores, ← same]
      exact (sound_finished grammar inside).reached
  · intro left right first second leftFound rightFound cores
    rcases kernelOf_eq leftFound with ⟨leftInside, leftSame⟩
    rcases kernelOf_eq rightFound with ⟨rightInside, rightSame⟩
    rw [← leftSame, ← rightSame] at cores
    exact distinct_finished grammar leftInside rightInside cores
  · intro index state found core
    rcases kernelOf_eq found with ⟨inside, same⟩
    have sound := sound_finished grammar inside
    rw [same] at sound
    exact mem_cores_closure grammar sound.proper core
  · intro index state symbol found
    rcases kernelOf_eq found with ⟨inside, same⟩
    rw [← same]
    constructor
    · rintro ⟨target, leads⟩
      rcases (leadsTo_iff grammar).mp leads with ⟨id, name, member⟩
      have transition := transition_finished grammar member
      rw [← Vocabulary.name_of_getElem? name]
      exact transition.2.2.1
    · rintro ⟨core, rest, listed, dotted⟩
      rcases transition_exists grammar inside listed dotted with
        ⟨id, target, name, idInside, member, _⟩
      have known := Vocabulary.getElem?_names idInside
      exact ⟨target, (leadsTo_iff grammar).mpr ⟨id, name ▸ known, member⟩⟩
  · intro index state symbol target found leads
    rcases kernelOf_eq found with ⟨_, same⟩
    rcases (leadsTo_iff grammar).mp leads with ⟨id, name, member⟩
    rcases transition_finished grammar member with ⟨_, targetInside, _, cores⟩
    rcases state_exists targetInside with ⟨following, followingFound, followingSame⟩
    refine ⟨following, followingFound, ?_⟩
    rw [← followingSame, cores, ← same, ← Vocabulary.name_of_getElem? name]
    rfl
  · intro index state core id found member
    rcases kernelOf_eq found with ⟨inside, same⟩
    have sound := sound_finished grammar inside
    rw [same] at sound
    exact ⟨_, Vocabulary.getElem?_names ((proper_closure grammar sound.proper).inside core id member)⟩

/-- One or more items. -/
def itemList : PlainGrammar :=
  ⟨[⟨"list", [⟨["list", "item"], .report, none⟩, ⟨["item"], .report, none⟩], false⟩]⟩

theorem isLalr_itemList :
    itemList.Named ∧ (Automaton.ofGrammar itemList).IsLalr itemList :=
  ⟨by decide, isLalr_ofGrammar itemList (by decide)⟩

end Automaton

end ShiftReduce
