import ShiftReduce.Parser
import ShiftReduce.Proofs.Parse.Steps
import ShiftReduce.Proofs.Table.Written

namespace ShiftReduce

/-!
# Restored parsers

A run looks at the rows of its table and at the root, never at the conflicts that were resolved when
the table was made.  So a parser whose table was stored and restored does what it did before, over
every source and with every choice of leaves.

What can go wrong is told apart: storing fails for a callback and for nothing else, and restoring what
has been stored fails if the root has no productions and for no other reason.  The text of a stored
table is read back if no number in it exceeds what numbers are decoded as and no effect is nested too
deep to be read.
-/

namespace Setting

variable {σ : Type}

/-- A setting whose table has forgotten its conflicts. -/
def forget (setting : Setting σ) : Setting σ :=
  { setting with table := { setting.table with conflicts := [] } }

theorem run_forget (setting : Setting σ) (limit : Nat) (machine : Machine σ) :
    setting.forget.run limit machine = setting.run limit machine := by
  have step : forall machine, setting.forget.step machine = setting.step machine := fun _ => rfl
  induction limit generalizing machine with
  | zero => rfl
  | succ limit inductionHypothesis =>
      rw [run, run, step]
      cases setting.step machine with
      | running next => exact inductionHypothesis next
      | ended outcome last => rfl

theorem result_forget (setting : Setting σ) (machine : Machine σ) :
    setting.forget.result machine = setting.result machine := by
  have together : forall limit, (setting.forget.run limit machine).1 =
      (setting.run limit machine).1 := fun limit => by rw [run_forget]
  rcases exists_runs_eq_results together with ⟨limit, own, forgotten⟩
  rw [← own, ← forgotten, run_forget]

theorem parse_forget (setting : Setting σ) (state : σ) :
    setting.forget.parse state = setting.parse state := by
  rw [parse, parse, result_forget]

theorem parseTree_forget (setting : Setting σ) (state : σ) :
    setting.forget.parseTree state = setting.parseTree state := by
  rw [parseTree, parseTree, result_forget]

end Setting

namespace Parser

/-- A parser that does what another does and knows of no conflicts. -/
structure Repeats (restored parser : Parser) : Prop where
  matcher : restored.matcher = parser.matcher
  states : restored.table.states = parser.table.states
  root : restored.table.root = parser.table.root
  conflicts : restored.table.conflicts = []
  skip : restored.skip = parser.skip
  run : forall {σ : Type} (source : TokenSource σ) (keep : Option (Token -> Bool)) (limit : Nat)
    (machine : Machine σ), (restored.setting source keep).run limit machine =
      (parser.setting source keep).run limit machine
  parse : forall {σ : Type} (source : TokenSource σ) (state : σ),
    restored.parseSource source state = parser.parseSource source state
  parseTree : forall {σ : Type} (source : TokenSource σ) (keep : Option (Token -> Bool)) (state : σ),
    (restored.setting source keep).parseTree state = (parser.setting source keep).parseTree state
  parseText : forall text, restored.parse text = parser.parse text
  tree : forall text keep, restored.treeFiltered text keep = parser.treeFiltered text keep

private theorem repeats_forget (parser : Parser) :
    Repeats { parser with table := { parser.table with conflicts := [] } } parser where
  matcher := rfl
  states := rfl
  root := rfl
  conflicts := rfl
  skip := rfl
  run source keep limit machine := (parser.setting source keep).run_forget limit machine
  parse source state := (parser.setting source none).parse_forget state
  parseTree source keep state := (parser.setting source keep).parseTree_forget state
  parseText _ := (parser.setting TokenStream.source none).parse_forget _
  tree _ keep := (parser.setting TokenStream.source (some keep)).parseTree_forget _

/-- Restoring what was stored of an intact table succeeds if some row has a rule for the root, and
gives a parser that repeats the first. -/
private theorem restore_of_store {parser : Parser} (intact : parser.table.Intact)
    {names : List String} (skips : NameSet.ofList names = parser.skip) {stored : StoredTable}
    (made : parser.table.store names = .ok stored) (restored : Parser) :
    Parser.restore parser.matcher stored = .ok restored ↔
      restored = { parser with table := { parser.table with conflicts := [] } } ∧
        parser.table.ReducesRoot := by
  rcases StoredTable.of_store made with ⟨table, skip⟩
  have usable : stored.table.Intact ∧ stored.table.ReducesRoot ↔ parser.table.ReducesRoot := by
    rw [table]
    exact ⟨fun both => both.2, fun root => ⟨⟨intact.inhabited, intact.rows⟩, root⟩⟩
  constructor
  · intro success
    rcases of_bind_eq_ok success with ⟨again, tableRestored, same⟩
    rcases StoredTable.restore_eq_ok_iff.mp tableRestored with ⟨rfl, parts⟩
    cases same
    refine ⟨?_, usable.mp parts⟩
    rw [table, skip, skips]
  · rintro ⟨rfl, root⟩
    have tableRestored := StoredTable.restore_eq_ok_iff.mpr ⟨rfl, usable.mpr root⟩
    rw [Parser.restore, tableRestored, ← table, ← skips, skip]
    rfl

/-- Storing fails exactly for a callback.  What is stored is read back from its text, and restoring
it fails exactly if the root has no productions; otherwise the restored parser repeats the first. -/
theorem restore_store {grammar : Grammar} {parser : Parser} {skip : List String}
    (unmarked : forall rule, rule ∈ grammar.rules -> '#' ∉ rule.name.toList)
    (compiled : grammar.compile = .ok parser.table) (skips : parser.skip = NameSet.ofList skip)
    {names : List String} (listed : names = skip ∨ names = parser.skip) :
    ((Exists fun rule => parser.table.store names = .error (.callback rule)) ↔
      parser.table.CallsBack) ∧
    (forall error, parser.table.store names = .error error ->
      Exists fun rule => error = .callback rule) ∧
    forall stored, parser.table.store names = .ok stored ->
      (parser.table.Writable -> StoredTable.ofText stored.toText = .ok stored) ∧
      ((Exists fun restored => Parser.restore parser.matcher stored = .ok restored) ↔
        Exists fun root => grammar.rules.head? = some root ∧ root.productions ≠ []) ∧
      forall restored, Parser.restore parser.matcher stored = .ok restored ->
        Repeats restored parser := by
  have intact := Grammar.intact_of_compile compiled
  have skipped : NameSet.ofList names = parser.skip := by
    rcases listed with rfl | rfl
    · exact skips.symm
    · rw [skips, NameSet.ofList_ofList]
  refine ⟨parser.table.store_fails_iff names, ?_, fun stored made => ⟨?_, ?_, ?_⟩⟩
  · intro error failed
    rcases Table.rule_of_store_error failed with ⟨_, _, rule, _, _, same⟩
    exact ⟨rule.nonterminal, same⟩
  · intro writable
    exact Table.ofText_of_store intact (Grammar.increasing_of_compile compiled) writable made
  · rw [← Grammar.reducesRoot_of_compile compiled unmarked]
    constructor
    · rintro ⟨restored, success⟩
      exact ((restore_of_store intact skipped made restored).mp success).2
    · intro root
      exact ⟨_, (restore_of_store intact skipped made _).mpr ⟨rfl, root⟩⟩
  · intro restored success
    rw [((restore_of_store intact skipped made restored).mp success).1]
    exact repeats_forget parser

end Parser

/-! ## Branches with and without an alternative -/

/-- Statements in which an alternative belongs to the nearest branch. -/
def Grammar.branching : Grammar :=
  ⟨[⟨"statement",
      [{ symbols :=
          [.name "if", .name "statement", .optional [.name "else", .name "statement"]] },
        { symbols := [.name "x"] }]⟩], by decide⟩

/-- The parser for such statements. -/
def Parser.branching : Parser :=
  { matcher :=
      (Matcher.ofSpec ⟨[⟨"if", .keyword⟩, ⟨"else", .keyword⟩, ⟨"x", .keyword⟩, ⟨" ", .keyword⟩]⟩
        false).toOption.getD ⟨[], [], false⟩
    table := Grammar.branching.compile.toOption.getD default
    skip := NameSet.ofList [" "] }

/-- The table of such statements has forgotten a conflict when it has been stored and restored, and
its parser still prefers the nearest branch. -/
theorem Parser.restore_store_branching :
    (forall rule, rule ∈ Grammar.branching.rules -> '#' ∉ rule.name.toList) ∧
    Grammar.branching.compile = .ok branching.table ∧
    branching.skip = NameSet.ofList [" "] ∧ branching.table.conflicts.length = 1 ∧
    Exists fun stored => branching.store = .ok stored ∧
      StoredTable.ofText stored.toText = .ok stored ∧
      Exists fun restored => Parser.restore branching.matcher stored = .ok restored ∧
        Repeats restored branching ∧
        (restored.parse "if if x else x").outcome = .accepted := by
  have unmarked : forall rule, rule ∈ Grammar.branching.rules -> '#' ∉ rule.name.toList := by
    decide
  have compiled : Grammar.branching.compile = .ok branching.table := eq_ok_of_isOk (by decide +kernel)
  have writable : branching.table.Writable := by decide +kernel
  have made : branching.store = .ok (branching.store.toOption.getD default) :=
    eq_ok_of_isOk (by decide +kernel)
  have runs : ((branching.setting TokenStream.source none).run 40
      (.start (branching.matcher.stream "if if x else x"))).1 = .accepted := by decide +kernel
  have accepted : (branching.parse "if if x else x").outcome = .accepted :=
    Setting.outcome_of_run runs Outcome.noConfusion
  have whole := @restore_store Grammar.branching branching [" "] unmarked compiled rfl
    branching.skip (Or.inr rfl)
  rcases whole.2.2 _ made with ⟨text, restores, repeats⟩
  rcases restores.mpr ⟨_, rfl, by decide⟩ with ⟨restored, success⟩
  refine ⟨unmarked, compiled, rfl, by decide +kernel, _, made, text writable, restored, success,
    repeats restored success, ?_⟩
  rw [(repeats restored success).parseText]
  exact accepted

end ShiftReduce
