import ShiftReduce.Proofs.Grammar.Admissible
import ShiftReduce.Proofs.Table.Rows

namespace ShiftReduce

/-!
# Nothing that a table refers to is missing

A compiled table has a first row, its shifts lead to rows and its reductions name rules of their row.
This holds for every grammar that has a table, whatever its names are.

A row has rules for all productions that are complete in it, also where a conflict took away every
reduction of such a rule.  So some row has a rule for the root exactly if the root has productions.
For a grammar with operators this supposes that no helper is named like the root, and the mark in the
names of helpers keeps them apart from a root without a mark.
-/

/-- What a row refers to is there, in a table with `count` rows. -/
structure TableState.Intact (count : Nat) (row : TableState) : Prop where
  shift : forall name target, (name, target) ∈ row.shift -> target < count
  reduce : forall name place, (name, place) ∈ row.reduce -> place < row.rules.size

/-- A table has a first row and all its rows are intact. -/
structure Table.Intact (table : Table) : Prop where
  inhabited : 0 < table.states.size
  rows : forall row, row ∈ table.states -> row.Intact table.states.size

/-- The names in the maps of a table are in order. -/
def Table.Increasing (table : Table) : Prop :=
  forall row, row ∈ table.states -> row.shift.Increasing ∧ row.reduce.Increasing

/-- Some row has a rule for the root. -/
def Table.ReducesRoot (table : Table) : Prop :=
  Exists fun row => row ∈ table.states ∧
    Exists fun rule => rule ∈ row.rules ∧ rule.nonterminal = table.root

namespace PlainGrammar

variable (grammar : PlainGrammar)

theorem increasing_toTable {table : Table}
    (made : (Automaton.ofGrammar grammar).toTable = .ok table) : table.Increasing := by
  intro row member
  rcases Array.getElem?_of_mem member with ⟨index, found⟩
  exact increasing_of_toTable grammar made found

theorem intact_toTable {table : Table} (made : (Automaton.ofGrammar grammar).toTable = .ok table) :
    table.Intact := by
  have drives := drives_toTable grammar made
  refine ⟨drives.startInside, ?_⟩
  intro row member
  rcases Array.getElem?_of_mem member with ⟨index, found⟩
  have increasing := grammar.increasing_toTable made row member
  constructor
  · intro name target listed
    exact (drives.shift index row name target found
      (NameMap.get?_of_mem increasing.1 listed)).1
  · intro name place listed
    rcases drives.reduce index row name place found
        (NameMap.get?_of_mem increasing.2 listed) with ⟨_, _, _, rule, _⟩
    exact (Array.getElem?_eq_some_iff.mp rule).1

theorem reducesRoot_toTable {table : Table}
    (made : (Automaton.ofGrammar grammar).toTable = .ok table) :
    table.ReducesRoot ↔ Exists fun pair => pair ∈ grammar.productions ∧
      pair.1.name = grammar.root := by
  constructor
  · rintro ⟨row, member, rule, listed, isRoot⟩
    rcases Array.getElem?_of_mem member with ⟨index, found⟩
    rcases rules_of_toTable grammar made found listed with ⟨number, pair, known, rfl⟩
    exact ⟨pair, List.mem_of_getElem? known, isRoot.trans (root_of_toTable grammar made)⟩
  · rintro ⟨pair, listed, isRoot⟩
    rcases List.getElem?_of_mem listed with ⟨number, known⟩
    rcases row_of_attaches grammar made (.start number ⟨pair, known, isRoot⟩) known with
      ⟨index, row, found, member⟩
    exact ⟨row, Array.mem_of_getElem? found, reduceRule pair, member,
      isRoot.trans (root_of_toTable grammar made).symm⟩

end PlainGrammar

namespace Grammar

open Draft

variable {grammar : Grammar}

theorem automaton_of_compile {table : Table} (compiled : grammar.compile = .ok table) :
    Exists fun plain => grammar.toPlain = .ok plain ∧
      (Automaton.ofGrammar plain).toTable = .ok table :=
  of_bind_eq_ok compiled

theorem intact_of_compile {table : Table} (compiled : grammar.compile = .ok table) :
    table.Intact := by
  rcases automaton_of_compile compiled with ⟨plain, _, made⟩
  exact plain.intact_toTable made

theorem increasing_of_compile {table : Table} (compiled : grammar.compile = .ok table) :
    table.Increasing := by
  rcases automaton_of_compile compiled with ⟨plain, _, made⟩
  exact plain.increasing_toTable made

/-- The productions of a root without a mark are its own: no helper takes its name. -/
private theorem productions_of_root {plain : PlainGrammar} (made : grammar.toPlain = .ok plain)
    {root : Rule} (first : grammar.rules.head? = some root) (unmarked : '#' ∉ root.name.toList) :
    (Exists fun pair => pair ∈ plain.productions ∧ pair.1.name = plain.root) ↔
      root.productions ≠ [] := by
  have named : plain.root = root.name := by
    have same := (toPlain_eq made).2.2
    rw [root?, first] at same
    exact (Option.some.inj same).symm
  have listed := List.mem_of_head? first
  constructor
  · rintro ⟨pair, member, isRoot⟩ none
    rcases draft_of_plain made member with ⟨draft, index, production, drafted, found, rfl⟩
    have name : draft.name = root.name := isRoot.trans named
    cases drafted with
    | listed _ inDrafts =>
        rcases List.mem_map.mp inDrafts with ⟨rule, ruleListed, rfl⟩
        rw [List.inj_on_of_nodup_map grammar.distinct ruleListed listed name, none] at found
        cases found
    | helper owner _ place position symbol _ helperOf =>
        rw [← name, helperOf.name] at unmarked
        exact (unmarked (mark_mem_helperName _ _ _)).elim
  · intro inhabited
    rcases List.exists_mem_of_ne_nil _ inhabited with ⟨production, member⟩
    rcases List.getElem?_of_mem member with ⟨index, found⟩
    exact ⟨_, plain_of_draft made (.listed _ (mem_drafts_of_rule listed)) found, named.symm⟩

/-- A table has a rule for a root without a mark exactly if the root has productions. -/
theorem reducesRoot_of_compile {table : Table} (compiled : grammar.compile = .ok table)
    (unmarked : forall rule, rule ∈ grammar.rules -> '#' ∉ rule.name.toList) :
    table.ReducesRoot ↔
      Exists fun root => grammar.rules.head? = some root ∧ root.productions ≠ [] := by
  rcases automaton_of_compile compiled with ⟨plain, made, built⟩
  have rooted := (toPlain_eq made).2.2
  rcases Option.map_eq_some_iff.mp rooted with ⟨root, first, _⟩
  rw [plain.reducesRoot_toTable built,
    productions_of_root made first (unmarked root (List.mem_of_head? first))]
  constructor
  · exact fun inhabited => ⟨root, first, inhabited⟩
  · rintro ⟨other, same, inhabited⟩
    rw [first] at same
    rwa [Option.some.inj same]

end Grammar

end ShiftReduce
