import Mathlib.Combinatorics.Enumerative.DoubleCounting
import Mathlib.Logic.Equiv.Defs
import ShiftReduce.Proofs.Automaton.Lalr
import ShiftReduce.Proofs.Grammar.Renaming

namespace ShiftReduce

/-!
# Grammars that differ in numbers and names

Two plain grammars can have the same productions in another order and under other names.  A
renumbering is the correspondence between them: a permutation of names that keeps the name of the
end of the input, and a permutation of the numbers of productions.  It can be read in both
directions, so everything below is shown in one of them only.

What a grammar derives, and the sets of cores that its strings lead to, depend on the numbers and
names of productions in no other way than by standing for them.  They are carried along, one case
for each way to obtain them.  States correspond if their sets of cores do.  Since a state is found
for every set that some string leads to, and no set belongs to two states, corresponding grammars
have automata of the same size.
-/

namespace PlainGrammar

/-- The second production is the first one under other names, in a rule of the same kind. -/
structure Counterpart (name : String -> String) (pair other : PlainRule × PlainProduction) :
    Prop where
  owner : other.1.name = name pair.1.name
  helper : other.1.helper = pair.1.helper
  production : other.2 = pair.2.rename name

/-- The productions of the second grammar are those of the first in another order and under other
names. -/
structure Renumbering (left right : PlainGrammar) where
  name : Equiv.Perm String
  production : Equiv.Perm Nat
  ends : name "" = ""
  root : right.root = name left.root
  inside : forall index,
    production index < right.productions.length ↔ index < left.productions.length
  counterpart : forall (index : Nat) (pair : PlainRule × PlainProduction),
    left.productions[index]? = some pair -> Exists fun other =>
      right.productions[production index]? = some other ∧ Counterpart name pair other

namespace Renumbering

variable {left right : PlainGrammar}

/-- The renumbering read from right to left. -/
def symm (renumbering : Renumbering left right) : Renumbering right left where
  name := renumbering.name.symm
  production := renumbering.production.symm
  ends := by rw [Equiv.symm_apply_eq, renumbering.ends]
  root := by rw [renumbering.root, Equiv.symm_apply_apply]
  inside index := by
    have inside := renumbering.inside (renumbering.production.symm index)
    rw [Equiv.apply_symm_apply] at inside
    exact inside.symm
  counterpart index other known := by
    have inside := (renumbering.inside (renumbering.production.symm index)).mp (by
      rw [Equiv.apply_symm_apply]
      exact (List.getElem?_eq_some_iff.mp known).1)
    rcases renumbering.counterpart _ _ (List.getElem?_eq_getElem inside) with
      ⟨found, there, counterpart⟩
    rw [Equiv.apply_symm_apply, known] at there
    cases there
    refine ⟨_, List.getElem?_eq_getElem inside, ?_, counterpart.helper.symm, ?_⟩
    · rw [counterpart.owner, Equiv.symm_apply_apply]
    · have back : renumbering.name.symm ∘ renumbering.name = id :=
        funext renumbering.name.symm_apply_apply
      rw [counterpart.production, PlainProduction.rename_rename, back, PlainProduction.rename_id]

variable (renumbering : Renumbering left right)

@[simp] theorem symm_name_name (name : String) :
    renumbering.symm.name (renumbering.name name) = name :=
  renumbering.name.symm_apply_apply name

@[simp] theorem symm_production_production (production : Nat) :
    renumbering.symm.production (renumbering.production production) = production :=
  renumbering.production.symm_apply_apply production

/-! ## Derivations -/

theorem listed {pair : PlainRule × PlainProduction} (member : pair ∈ left.productions) :
    Exists fun other => other ∈ right.productions ∧ Counterpart renumbering.name pair other := by
  rcases List.mem_iff_getElem?.mp member with ⟨index, known⟩
  rcases renumbering.counterpart index pair known with ⟨other, there, counterpart⟩
  exact ⟨other, List.mem_of_getElem? there, counterpart⟩

theorem symbols_of_counterpart {name : String -> String} {pair other : PlainRule × PlainProduction}
    (counterpart : Counterpart name pair other) : other.2.symbols = pair.2.symbols.map name := by
  rw [counterpart.production]
  rfl

private theorem isNonterminal_of_left {name : String} (isNonterminal : left.IsNonterminal name) :
    right.IsNonterminal (renumbering.name name) := by
  rcases isNonterminal with ⟨pair, member, rfl⟩
  rcases renumbering.listed member with ⟨other, there, counterpart⟩
  exact ⟨other, there, counterpart.owner⟩

theorem isNonterminal_iff {name : String} :
    right.IsNonterminal (renumbering.name name) ↔ left.IsNonterminal name := by
  refine ⟨fun isNonterminal => ?_, renumbering.isNonterminal_of_left⟩
  have back := renumbering.symm.isNonterminal_of_left isNonterminal
  rwa [symm_name_name] at back

theorem derives {source target : List String} (derives : left.Derives source target) :
    right.Derives (source.map renumbering.name) (target.map renumbering.name) := by
  induction derives with
  | refl => exact Derives.refl _
  | tail _ step inductionHypothesis =>
      rcases step with ⟨before, after, pair, member⟩
      rcases renumbering.listed member with ⟨other, there, counterpart⟩
      have step := Rewrites.replace (before.map renumbering.name) (after.map renumbering.name)
        other there
      rw [counterpart.owner, symbols_of_counterpart counterpart] at step
      refine inductionHypothesis.trans (Relation.ReflTransGen.single ?_)
      simpa only [List.map_append, List.map_cons] using step

theorem nullable {symbols : List String} (nullable : left.Nullable symbols) :
    right.Nullable (symbols.map renumbering.name) :=
  renumbering.derives nullable

theorem opens {symbols : List String} {terminal : String} (opens : left.Opens symbols terminal) :
    right.Opens (symbols.map renumbering.name) (renumbering.name terminal) := by
  induction opens with
  | here name rest isTerminal present =>
      refine .here _ _ (fun impossible => isTerminal (renumbering.isNonterminal_iff.mp impossible)) ?_
      intro same
      rw [← renumbering.ends] at same
      exact present (renumbering.name.injective same)
  | expand pair rest terminal member _ inductionHypothesis =>
      rcases renumbering.listed member with ⟨other, there, counterpart⟩
      rw [List.map_cons, ← counterpart.owner]
      rw [← symbols_of_counterpart counterpart] at inductionHypothesis
      exact .expand other _ _ there inductionHypothesis
  | skip name rest terminal vanishes _ inductionHypothesis =>
      exact .skip _ _ _ (renumbering.nullable vanishes) inductionHypothesis

/-! ## Sets of cores -/

/-- The core of the corresponding production. -/
def core (core : Core) : Core := ⟨renumbering.production core.production, core.dot⟩

@[simp] theorem symm_core_core (core : Core) :
    renumbering.symm.core (renumbering.core core) = core := by
  unfold Renumbering.core
  rw [symm_production_production]

@[simp] theorem core_symm_core (core : Core) :
    renumbering.core (renumbering.symm.core core) = core := by
  unfold Renumbering.core
  exact congrArg (Core.mk · core.dot) (renumbering.production.apply_symm_apply core.production)

/-- The set of the corresponding cores. -/
def cores (kernel : Core -> Prop) (core : Core) : Prop := kernel (renumbering.symm.core core)

theorem mem_cores {kernel : Core -> Prop} {core : Core} :
    renumbering.cores kernel (renumbering.core core) ↔ kernel core := by
  rw [cores, symm_core_core]

theorem symm_cores_cores (kernel : Core -> Prop) :
    renumbering.symm.cores (renumbering.cores kernel) = kernel := by
  funext core
  unfold cores
  exact congrArg kernel (renumbering.symm_core_core core)

theorem fromDot (production dot : Nat) :
    right.fromDot (renumbering.production production) dot =
      (left.fromDot production dot).map renumbering.name := by
  cases known : left.productions[production]? with
  | some pair =>
      rcases renumbering.counterpart production pair known with ⟨other, there, counterpart⟩
      rw [fromDot_eq known, fromDot_eq there, symbols_of_counterpart counterpart, List.map_drop]
  | none =>
      have outside := List.getElem?_eq_none_iff.mp known
      have absent : right.productions[renumbering.production production]? = none := by
        rw [List.getElem?_eq_none_iff, ← not_lt, renumbering.inside, not_lt]
        exact outside
      unfold PlainGrammar.fromDot
      rw [known, absent]
      rfl

theorem dotted {core : Core} {next : String} {rest : List String}
    (dotted : left.fromDot core.production core.dot = next :: rest) :
    right.fromDot (renumbering.core core).production (renumbering.core core).dot =
      renumbering.name next :: rest.map renumbering.name := by
  unfold Renumbering.core
  rw [renumbering.fromDot, dotted, List.map_cons]

theorem expands {name : String} {production : Nat} (expands : left.Expands name production) :
    right.Expands (renumbering.name name) (renumbering.production production) := by
  rcases expands with ⟨pair, known, rfl⟩
  rcases renumbering.counterpart production pair known with ⟨other, there, counterpart⟩
  exact ⟨other, there, counterpart.owner⟩

private theorem startCore_of_left {core : Core} (starts : left.StartCore core) :
    right.StartCore (renumbering.core core) := by
  refine ⟨starts.1, ?_⟩
  rw [renumbering.root]
  exact renumbering.expands starts.2

/-- A property of all cores holds of the corresponding set if it is handed on in both directions. -/
private theorem cores_eq {first second : Core -> Prop}
    (forth : forall core, first core -> second (renumbering.core core))
    (back : forall core, second core -> first (renumbering.symm.core core)) :
    renumbering.cores first = second := by
  funext core
  apply propext
  refine ⟨fun member => ?_, back core⟩
  have there := forth _ member
  rwa [core_symm_core] at there

theorem cores_startCore : renumbering.cores left.StartCore = right.StartCore :=
  renumbering.cores_eq (fun _ => renumbering.startCore_of_left)
    (fun _ => renumbering.symm.startCore_of_left)

theorem inClosure {kernel : Core -> Prop} {core : Core} (inside : left.InClosure kernel core) :
    right.InClosure (renumbering.cores kernel) (renumbering.core core) := by
  induction inside with
  | kernel core member => exact .kernel _ (renumbering.mem_cores.mpr member)
  | called core next rest production _ dotted expands inductionHypothesis =>
      exact .called _ _ _ _ inductionHypothesis (renumbering.dotted dotted)
        (renumbering.expands expands)

private theorem moved_of_left {kernel : Core -> Prop} {symbol : String} {core : Core}
    (moved : left.Moved kernel symbol core) :
    right.Moved (renumbering.cores kernel) (renumbering.name symbol) (renumbering.core core) := by
  rcases moved with ⟨source, rest, inside, dotted, rfl⟩
  exact ⟨_, _, renumbering.inClosure inside, renumbering.dotted dotted, rfl⟩

theorem cores_moved (kernel : Core -> Prop) (symbol : String) :
    renumbering.cores (left.Moved kernel symbol) =
      right.Moved (renumbering.cores kernel) (renumbering.name symbol) := by
  refine renumbering.cores_eq (fun _ => renumbering.moved_of_left) fun core moved => ?_
  have back := renumbering.symm.moved_of_left moved
  rwa [symm_cores_cores, symm_name_name] at back

theorem reaches {path : List String} {kernel : Core -> Prop}
    (reaches : left.Reaches path kernel) :
    right.Reaches (path.map renumbering.name) (renumbering.cores kernel) := by
  induction reaches with
  | start =>
      rw [renumbering.cores_startCore]
      exact .start
  | move path kernel core symbol rest _ inside dotted inductionHypothesis =>
      rw [renumbering.cores_moved]
      exact .move _ _ _ _ _ inductionHypothesis (renumbering.inClosure inside)
        (renumbering.dotted dotted)

theorem carries {kernel : Core -> Prop} {core : Core} {lookahead : String}
    (carries : left.Carries kernel core lookahead) :
    right.Carries (renumbering.cores kernel) (renumbering.core core)
      (renumbering.name lookahead) := by
  induction carries with
  | start production expands =>
      have there := renumbering.expands expands
      rw [← renumbering.root] at there
      rw [renumbering.cores_startCore, renumbering.ends]
      exact .start _ there
  | first kernel core next rest production lookahead reached inside dotted expands opens =>
      rcases reached with ⟨path, reaches⟩
      exact .first _ _ _ _ _ _ ⟨_, renumbering.reaches reaches⟩ (renumbering.inClosure inside)
        (renumbering.dotted dotted) (renumbering.expands expands) (renumbering.opens opens)
  | pass kernel core next rest production lookahead _ dotted expands nullable
      inductionHypothesis =>
      exact .pass _ _ _ _ _ _ inductionHypothesis (renumbering.dotted dotted)
        (renumbering.expands expands) (renumbering.nullable nullable)
  | move kernel core symbol rest lookahead _ dotted inductionHypothesis =>
      rw [renumbering.cores_moved]
      exact .move _ _ _ _ _ inductionHypothesis (renumbering.dotted dotted)

/-! ## States -/

open Analysis Construction

/-- The kernels of two states correspond. -/
structure Pairs (first second : Nat) : Prop where
  source : first < (finished left).states.size
  target : second < (finished right).states.size
  cores : coresOf ((finished right).kernelOf second) =
    renumbering.cores (coresOf ((finished left).kernelOf first))

variable {renumbering} {first second : Nat}

theorem Pairs.symm (pairs : renumbering.Pairs first second) :
    renumbering.symm.Pairs second first := by
  refine ⟨pairs.target, pairs.source, ?_⟩
  rw [pairs.cores, symm_cores_cores]

theorem Pairs.target_unique {other : Nat} (pairs : renumbering.Pairs first second)
    (also : renumbering.Pairs first other) : second = other :=
  distinct_finished right pairs.target also.target (pairs.cores.trans also.cores.symm)

theorem Pairs.source_unique {other : Nat} (pairs : renumbering.Pairs first second)
    (also : renumbering.Pairs other second) : first = other :=
  pairs.symm.target_unique also.symm

theorem pairs_start (renumbering : Renumbering left right) : renumbering.Pairs 0 0 := by
  refine ⟨(settling_finished left).1.consistent.startInside,
    (settling_finished right).1.consistent.startInside, ?_⟩
  rw [startKernel_finished, startKernel_finished, cores_startCore]

/-- Every state has a corresponding one, since a string leads to its kernel. -/
theorem pairs_exists (renumbering : Renumbering left right)
    (inside : first < (finished left).states.size) :
    Exists fun second => renumbering.Pairs first second := by
  rcases (sound_finished left inside).reached with ⟨path, reaches⟩
  rcases path_of_reaches right (renumbering.reaches reaches) with ⟨second, _, there, cores⟩
  exact ⟨second, inside, there, cores⟩

theorem Pairs.leadsTo (pairs : renumbering.Pairs first second) {symbol : String} {target : Nat}
    (leads : (Automaton.ofGrammar left).LeadsTo first symbol target) :
    Exists fun other => renumbering.Pairs target other ∧
      (Automaton.ofGrammar right).LeadsTo second (renumbering.name symbol) other := by
  rcases (leadsTo_iff left).mp leads with ⟨id, name, member⟩
  rcases transition_finished left member with
    ⟨_, targetInside, ⟨core, rest, listed, dotted⟩, cores⟩
  have same : symbolName left id = symbol := Vocabulary.name_of_getElem? name
  rw [same] at dotted cores
  have there := renumbering.inClosure listed
  rw [← pairs.cores] at there
  rcases transition_exists right pairs.target there (renumbering.dotted dotted) with
    ⟨otherId, other, otherName, otherInside, otherMember, _⟩
  rcases transition_finished right otherMember with ⟨_, otherTarget, _, otherCores⟩
  refine ⟨other, ⟨targetInside, otherTarget, ?_⟩, ?_⟩
  · rw [otherCores, otherName, pairs.cores, cores, cores_moved]
  · have known := Vocabulary.getElem?_names otherInside
    exact (leadsTo_iff right).mpr ⟨otherId, otherName ▸ known, otherMember⟩

private theorem Pairs.hasLookahead_of_left (pairs : renumbering.Pairs first second) {core : Core}
    {lookahead : String}
    (has : (Automaton.ofGrammar left).HasLookahead first core lookahead) :
    (Automaton.ofGrammar right).HasLookahead second (renumbering.core core)
      (renumbering.name lookahead) := by
  rw [Automaton.hasLookahead_iff_carries] at has ⊢
  rw [pairs.cores]
  exact ⟨pairs.target, renumbering.carries has.2⟩

theorem Pairs.hasLookahead (pairs : renumbering.Pairs first second) {core : Core}
    {lookahead : String} :
    (Automaton.ofGrammar right).HasLookahead second (renumbering.core core)
        (renumbering.name lookahead) ↔
      (Automaton.ofGrammar left).HasLookahead first core lookahead := by
  refine ⟨fun has => ?_, pairs.hasLookahead_of_left⟩
  have back := pairs.symm.hasLookahead_of_left has
  rwa [symm_core_core, symm_name_name] at back

/-- A correspondence of lists without repetitions maps the first into the second. -/
theorem length_le_of_pairs {α β : Type} (relates : α -> β -> Prop) {front : List α} {back : List β}
    (distinct : front.Nodup)
    (each : forall value, value ∈ front -> Exists fun other => other ∈ back ∧ relates value other)
    (unique : forall value same other, relates value other -> relates same other -> value = same) :
    front.length ≤ back.length := by
  classical
  rw [← List.toFinset_card_of_nodup distinct]
  refine (Finset.card_le_card_of_forall_subsingleton relates ?_ ?_).trans back.toFinset_card_le
  · intro value member
    rcases each value (List.mem_toFinset.mp member) with ⟨other, listed, related⟩
    exact ⟨other, List.mem_toFinset.mpr listed, related⟩
  · intro other _ value member same sameMember
    exact unique value same other member.2 sameMember.2

private theorem size_le (renumbering : Renumbering left right) :
    (finished left).states.size ≤ (finished right).states.size := by
  have lengths : (List.range (finished left).states.size).length ≤
      (List.range (finished right).states.size).length := by
    refine length_le_of_pairs renumbering.Pairs List.nodup_range (fun state member => ?_)
      fun _ _ _ pairs also => pairs.source_unique also
    rcases renumbering.pairs_exists (List.mem_range.mp member) with ⟨other, pairs⟩
    exact ⟨other, List.mem_range.mpr pairs.target, pairs⟩
  rwa [List.length_range, List.length_range] at lengths

/-- Corresponding grammars have automata with equally many states. -/
theorem size_eq (renumbering : Renumbering left right) :
    (Automaton.ofGrammar left).states.size = (Automaton.ofGrammar right).states.size :=
  le_antisymm renumbering.size_le renumbering.symm.size_le

end Renumbering

end PlainGrammar

end ShiftReduce
