import ShiftReduce.Automaton.Build
import ShiftReduce.Proofs.Automaton.FirstSets

namespace ShiftReduce

/-!
# The analysis of a grammar is exact

What an automaton answers about the names of its grammar is compared with rewriting.  A name is
answered to be nullable exactly when it can be rewritten to the empty string, and the names that are
answered to begin it are the terminals in front of the strings that it can be rewritten to.  No shape
of rules is excluded: rules may call themselves first, go round in a circle, vanish, or derive no
terminal string.

Both answers are read off arrays that rounds over all productions have filled.  The rounds come to an
end, and a further round would change nothing.
-/

namespace PlainGrammar

/-- The names that a grammar mentions: those of its rules and those in its productions. -/
def symbols (grammar : PlainGrammar) : List String :=
  grammar.rules.flatMap fun rule => rule.name :: rule.productions.flatMap (·.symbols)

theorem mem_symbols {grammar : PlainGrammar} {symbol : String} :
    symbol ∈ grammar.symbols ↔
      (Exists fun rule => rule ∈ grammar.rules ∧ symbol = rule.name) ∨
        Exists fun pair => pair ∈ grammar.productions ∧ symbol ∈ pair.2.symbols := by
  constructor
  · intro mentioned
    rcases List.mem_flatMap.mp mentioned with ⟨rule, listed, here⟩
    rcases List.mem_cons.mp here with name | inside
    · exact Or.inl ⟨rule, listed, name⟩
    · rcases List.mem_flatMap.mp inside with ⟨production, member, found⟩
      exact Or.inr ⟨(rule, production), mem_productions.mpr ⟨listed, member⟩, found⟩
  · rintro (⟨rule, listed, name⟩ | ⟨pair, listed, found⟩)
    · exact List.mem_flatMap.mpr ⟨rule, listed, name ▸ List.mem_cons_self⟩
    · have parts := mem_productions.mp listed
      exact List.mem_flatMap.mpr ⟨pair.1, parts.1,
        List.mem_cons_of_mem _ (List.mem_flatMap.mpr ⟨pair.2, parts.2, found⟩)⟩

theorem Named.mem_symbols {grammar : PlainGrammar} (named : grammar.Named) {symbol : String}
    (mentioned : symbol ∈ grammar.symbols) : symbol ≠ "" := by
  rintro rfl
  rcases PlainGrammar.mem_symbols.mp mentioned with ⟨rule, listed, name⟩ | ⟨pair, listed, found⟩
  · exact (named rule listed).1 name.symm
  · have parts := mem_productions.mp listed
    exact (named pair.1 parts.1).2 pair.2 parts.2 found

end PlainGrammar

namespace Analysis

variable (grammar : PlainGrammar)

/-- Every name of a grammar has a number. -/
theorem numbered_of_mem_symbols {symbol : String} (mentioned : symbol ∈ grammar.symbols) :
    Exists fun id => (Vocabulary.ofGrammar grammar).id? symbol = some id ∧
      id < symbolCount grammar ∧ symbolName grammar id = symbol := by
  have known : Exists fun id => (Vocabulary.ofGrammar grammar).id? symbol = some id := by
    rcases PlainGrammar.mem_symbols.mp mentioned with ⟨rule, listed, rfl⟩ | ⟨pair, listed, found⟩
    · exact Vocabulary.rule_numbered grammar listed
    · rcases translated_of_mem grammar listed with ⟨numbered, _, translates⟩
      rw [← translates.right] at found
      rcases List.mem_map.mp found with ⟨id, inRight, same⟩
      have atName := Vocabulary.getElem?_names (translates.rightInside id inRight)
      exact ⟨id, Vocabulary.id?_of_name (Vocabulary.nodup_names grammar) (same ▸ atName)⟩
  rcases known with ⟨id, found⟩
  have atName := Vocabulary.id?_eq_some found
  exact ⟨id, found, (Array.getElem?_eq_some_iff.mp atName).1, Vocabulary.name_of_getElem? atName⟩

/-! ## The rounds -/

/-- One round of marking nullable symbols. -/
def nullableRound (nullable : Array Bool) : Array Bool :=
  (Vocabulary.ofGrammar grammar).productions.foldl markNullable nullable

/-- One round of adding what symbols begin with. -/
def firstRound (first : Array IdSet) : Array IdSet :=
  (Vocabulary.ofGrammar grammar).productions.foldl (growFirst (ofGrammar grammar).nullable) first

/-- The loop that repeats `step` as long as it changes something ends with `result`. -/
def EndsWith {α : Type} (step : α -> α) (value result : α) : Prop :=
  (Exists fun rounds => result = step^[rounds] value) ∧ step result = result

private theorem foldl_of_unchanged {α β : Type} {step : α -> β -> α} {value : α} {members : List β}
    (unchanged : forall member, member ∈ members -> step value member = value) :
    members.foldl step value = value := by
  induction members with
  | nil => rfl
  | cons head rest inductionHypothesis =>
      rw [List.foldl_cons, unchanged head List.mem_cons_self]
      exact inductionHypothesis fun member later => unchanged member (List.mem_cons_of_mem _ later)

theorem nullable_endsWith :
    EndsWith (nullableRound grammar) (Array.replicate (symbolCount grammar) false)
      (ofGrammar grammar).nullable := by
  constructor
  · rcases settle_eq_iterate (nullableRound grammar) (symbolCount grammar + 1)
      (Array.replicate (symbolCount grammar) false) with ⟨rounds, _, same⟩
    exact ⟨rounds, same⟩
  · rw [nullableRound, ← Array.foldl_toList]
    exact foldl_of_unchanged (settled_nullable grammar).2

theorem first_endsWith :
    EndsWith (firstRound grammar) (initialFirst (ofGrammar grammar).productionsOf)
      (ofGrammar grammar).first := by
  constructor
  · rcases settle_eq_iterate (firstRound grammar) (symbolCount grammar * symbolCount grammar + 1)
      (initialFirst (ofGrammar grammar).productionsOf) with ⟨rounds, _, same⟩
    exact ⟨rounds, same⟩
  · rw [firstRound, ← Array.foldl_toList]
    exact foldl_of_unchanged (settled_first grammar).2

/-! ## What they find -/

variable {grammar} in
/-- The numbers in the set of a symbol are those of the terminals that begin it. -/
theorem mem_first (named : grammar.Named) {id : Nat} (inside : id < symbolCount grammar)
    (present : symbolName grammar id ≠ "") (value : Nat) :
    value ∈ (ofGrammar grammar).first.getD id [] ↔
      value < symbolCount grammar ∧
        grammar.Begins [symbolName grammar id] (symbolName grammar value) := by
  have one : forall other, other ∈ [id] -> other < symbolCount grammar := by simpa using inside
  have alone := mem_firstOfSequence grammar [] value one
  rw [PlainGrammar.opens_iff_begins named (by simpa using present.symm)] at alone
  have single : (ofGrammar grammar).firstOfSequence [id] [] =
      (ofGrammar grammar).first.getD id [] := by
    unfold firstOfSequence firstOf firstOf
    split
    · cases (ofGrammar grammar).first.getD id [] <;> simp [IdSet.union]
    · rfl
  rw [single] at alone
  simpa using alone

end Analysis

namespace Automaton

open Analysis

variable {grammar : PlainGrammar}

theorem isNullable_iff {symbol : String} (mentioned : symbol ∈ grammar.symbols) :
    (ofGrammar grammar).isNullable symbol = true ↔ grammar.Derives [symbol] [] := by
  rcases numbered_of_mem_symbols grammar mentioned with ⟨id, found, inside, rfl⟩
  have one : forall other, other ∈ [id] -> other < symbolCount grammar := by simpa using inside
  have exact := all_nullable_iff grammar one
  have asked : (ofGrammar grammar).analysis.vocabulary.id? (symbolName grammar id) = some id := found
  have read : (ofGrammar grammar).isNullable (symbolName grammar id) =
      (Analysis.ofGrammar grammar).nullable.getD id false := by
    rw [isNullable, asked]
    rfl
  rw [read]
  simpa [PlainGrammar.Nullable] using exact

theorem first?_eq (named : grammar.Named) {symbol : String} (mentioned : symbol ∈ grammar.symbols) :
    Exists fun first => (ofGrammar grammar).first? symbol = some first ∧ first.Nodup ∧
      forall terminal, terminal ∈ first ↔ grammar.Begins [symbol] terminal := by
  rcases numbered_of_mem_symbols grammar mentioned with ⟨id, found, inside, rfl⟩
  have members := mem_first named inside (named.mem_symbols mentioned)
  refine ⟨((Analysis.ofGrammar grammar).first.getD id []).map (symbolName grammar), ?_, ?_, ?_⟩
  · exact congrArg (Option.map fun id =>
      ((Analysis.ofGrammar grammar).first.getD id []).map (symbolName grammar)) found
  · have distinct : ((Analysis.ofGrammar grammar).first.getD id []).Nodup :=
      ((settled_first grammar).1.sorted id).imp Nat.ne_of_lt
    refine (List.nodup_map_iff_inj_on distinct).mpr fun left leftListed right rightListed same => ?_
    exact symbolName_injective grammar ((members left).mp leftListed).1
      ((members right).mp rightListed).1 same
  · intro terminal
    rw [List.mem_map]
    constructor
    · rintro ⟨value, listed, rfl⟩
      exact ((members value).mp listed).2
    · rintro begins
      rcases begins.2 with ⟨rest, derives⟩
      have numbered := numbered_of_derives grammar derives
        (by simpa using ⟨id, inside, rfl⟩) terminal List.mem_cons_self
      rcases numbered with ⟨value, valueInside, rfl⟩
      exact ⟨value, (members value).mpr ⟨valueInside, begins⟩, rfl⟩

/-- The two loops of the analysis end, and what is then answered about a symbol is what rewriting
says about it. -/
theorem analysis_exact (named : grammar.Named) :
    EndsWith (nullableRound grammar) (Array.replicate (symbolCount grammar) false)
        (ofGrammar grammar).analysis.nullable ∧
      EndsWith (firstRound grammar) (initialFirst (ofGrammar grammar).analysis.productionsOf)
        (ofGrammar grammar).analysis.first ∧
      forall symbol, symbol ∈ grammar.symbols ->
        ((ofGrammar grammar).isNullable symbol = true ↔ grammar.Derives [symbol] []) ∧
        Exists fun first => (ofGrammar grammar).first? symbol = some first ∧ first.Nodup ∧
          (forall terminal, terminal ∈ first ↔ grammar.Begins [symbol] terminal) ∧
          (¬ grammar.IsNonterminal symbol -> first = [symbol]) := by
  refine ⟨nullable_endsWith grammar, first_endsWith grammar, ?_⟩
  intro symbol mentioned
  refine ⟨isNullable_iff mentioned, ?_⟩
  rcases first?_eq named mentioned with ⟨first, found, distinct, members⟩
  refine ⟨first, found, distinct, members, ?_⟩
  intro terminal
  have itself : symbol ∈ first :=
    (members symbol).mpr ⟨terminal, [], PlainGrammar.Derives.refl [symbol]⟩
  have alone : forall other, other ∈ first ↔ other ∈ [symbol] := by
    intro other
    rw [List.mem_singleton]
    constructor
    · intro listed
      rcases (members other).mp listed with ⟨_, rest, derives⟩
      exact (List.cons.inj (PlainGrammar.Derives.of_terminal terminal derives)).1
    · exact fun same => same ▸ itself
  exact List.perm_singleton.mp
    ((List.perm_ext_iff_of_nodup distinct (List.nodup_singleton symbol)).mpr alone)

/-- A symbol that comes first in its own production, one that vanishes, and one that derives no
terminal string. -/
theorem analysis_exact_circular :
    let grammar : PlainGrammar :=
      ⟨[⟨"list", [⟨["list", "item"], .none, none⟩, ⟨[], .none, none⟩], false⟩,
        ⟨"item", [⟨["list", "word", "endless"], .none, none⟩], false⟩,
        ⟨"endless", [⟨["endless"], .none, none⟩], false⟩]⟩
    grammar.Named ∧ "list" ∈ grammar.symbols ∧
      ((ofGrammar grammar).isNullable "list" = true ↔ grammar.Derives ["list"] []) ∧
      Exists fun first => (ofGrammar grammar).first? "list" = some first ∧
        forall terminal, terminal ∈ first ↔ grammar.Begins ["list"] terminal := by
  intro grammar
  have named : grammar.Named := by decide
  have mentioned : "list" ∈ grammar.symbols := by decide
  have exact := (analysis_exact named).2.2 "list" mentioned
  rcases exact.2 with ⟨first, found, _, members, _⟩
  exact ⟨named, mentioned, exact.1, first, found, members⟩

end Automaton

end ShiftReduce
