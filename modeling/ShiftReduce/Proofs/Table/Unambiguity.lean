import ShiftReduce.Proofs.Grammar.DerivationTrees
import ShiftReduce.Proofs.Grammar.Drafts
import ShiftReduce.Proofs.Table.Rows

namespace ShiftReduce

/-!
# Grammars without conflicts

Every derivation tree can be read off from left to right: its leaves are shifted and its productions
reduced on canonical lookaheads.  Where no conflict was resolved, a move is determined by what has
been read and by the next terminal, so that two trees over the same word are built by the same moves.

The moves do not say when to stop.  There is no production around the root that would tell the end of
the input from a further reduction, and a grammar whose root can be rewritten to itself, as in a rule
that has its own name as a production, is accepted without a conflict.  So one of two trees over a
word may be reached from the other by further moves.  These moves undo rewriting steps that lead from
the root to the root, and without such steps there are none.
-/

/-- What has been read and what is still ahead. The latest tree and the latest name come first. -/
structure Reading (α : Type) where
  path : List String
  trees : List (DerivationTree α)
  ahead : List α

namespace PlainGrammar

variable {α : Type} (grammar : PlainGrammar) (label : α -> String)

/-- The name of the next terminal; the empty name is the end of the input. -/
def nextName (ahead : List α) : String := (ahead.head?.map label).getD ""

/-- A terminal is shifted where some item expects it, and a complete production is reduced on a
canonical lookahead. -/
inductive Moves : Reading α -> Reading α -> Prop where
  | shift (path : List String) (trees : List (DerivationTree α)) (terminal : α) (ahead : List α)
      (kernel : Core -> Prop) (core : Core) (rest : List String)
      (reaches : grammar.Reaches path kernel) (inside : grammar.InClosure kernel core)
      (dotted : grammar.fromDot core.production core.dot = label terminal :: rest) :
      Moves ⟨path, trees, terminal :: ahead⟩
        ⟨label terminal :: path, .leaf terminal :: trees, ahead⟩
  | reduce (path : List String) (trees children : List (DerivationTree α)) (ahead : List α)
      (production : Nat) (pair : PlainRule × PlainProduction)
      (known : grammar.productions[production]? = some pair)
      (length : children.length = pair.2.symbols.length)
      (attaches : grammar.Attaches (pair.2.symbols.reverse ++ path)
        ⟨production, pair.2.symbols.length⟩ (nextName label ahead)) :
      Moves ⟨pair.2.symbols.reverse ++ path, children.reverse ++ trees, ahead⟩
        ⟨pair.1.name :: path, .node production children :: trees, ahead⟩

variable {grammar} {label}

/-- Without conflicts, a move is determined by the reading. -/
theorem Moves.functional (resolute : grammar.Resolute) :
    Relator.RightUnique (grammar.Moves label) := by
  intro source left right first second
  cases first with
  | shift path trees terminal ahead kernel core rest reaches inside dotted =>
      generalize same : (⟨path, trees, terminal :: ahead⟩ : Reading α) = other at second
      cases second with
      | shift =>
          cases same
          rfl
      | reduce others below children later production pair known _ attaches =>
          rw [Reading.mk.injEq] at same
          rcases same with ⟨rfl, _, rfl⟩
          exact (resolute.shift _ production pair _ kernel core rest known attaches reaches inside
            dotted).elim
  | reduce path trees children ahead production pair known length attaches =>
      generalize same :
        (⟨pair.2.symbols.reverse ++ path, children.reverse ++ trees, ahead⟩ : Reading α) = other
        at second
      cases second with
      | shift others below terminal later kernel core rest reaches inside dotted =>
          rw [Reading.mk.injEq] at same
          rcases same with ⟨rfl, _, rfl⟩
          exact (resolute.shift _ production pair _ kernel core rest known attaches reaches inside
            dotted).elim
      | reduce others below offspring later number found atNumber otherLength otherAttaches =>
          rw [Reading.mk.injEq] at same
          rcases same with ⟨samePath, sameTrees, rfl⟩
          rw [samePath] at attaches
          have sameNumber := resolute.reduction _ _ _ _ _ _ known atNumber attaches otherAttaches
          rw [sameNumber, atNumber] at known
          rw [← Option.some.inj known] at samePath length ⊢
          have paths := List.append_cancel_left samePath
          have lengths : children.reverse.length = offspring.reverse.length := by
            rw [List.length_reverse, List.length_reverse, length, otherLength]
          have parts := List.append_inj sameTrees lengths
          rw [paths, parts.2, List.reverse_inj.mp parts.1, sameNumber]

/-- A name behind a dot has its productions as items, and their lookahead is what comes after it. -/
private theorem attaches_called {path : List String} {core : Core} {name : String}
    {names : List String} {word ahead : List α} {trees : List (DerivationTree α)}
    (attaches : grammar.Attaches path core (nextName label ahead))
    (dotted : grammar.fromDot core.production core.dot = name :: names)
    (later : grammar.Grows label names trees word) {production : Nat}
    (expands : grammar.Expands name production) :
    grammar.Attaches path ⟨production, 0⟩ (nextName label (word ++ ahead)) := by
  have derives := later.derives
  cases word with
  | nil => exact .pass path core name names production _ attaches dotted expands derives
  | cons terminal rest =>
      rcases attaches.reaches with ⟨kernel, reaches, inside⟩
      exact .first path kernel core name names production _ reaches inside dotted expands
        ⟨later.terminals terminal List.mem_cons_self, _, derives⟩

/-- The trees for what is behind a dot are built one after the other, and the dot moves over their
roots. -/
theorem Grows.moves {symbols : List String} {grown : List (DerivationTree α)} {word : List α}
    (grows : grammar.Grows label symbols grown word) (path : List String)
    (trees : List (DerivationTree α)) (ahead : List α) (core : Core)
    (dotted : grammar.fromDot core.production core.dot = symbols)
    (attaches : grammar.Attaches path core (nextName label ahead)) :
    Relation.ReflTransGen (grammar.Moves label) ⟨path, trees, word ++ ahead⟩
        ⟨symbols.reverse ++ path, grown.reverse ++ trees, ahead⟩ ∧
      grammar.Attaches (symbols.reverse ++ path) ⟨core.production, core.dot + symbols.length⟩
        (nextName label ahead) := by
  induction grows generalizing path trees ahead core with
  | nil => exact ⟨.refl, attaches⟩
  | leaf terminal symbols grown word isTerminal later inductionHypothesis =>
      rcases attaches.reaches with ⟨kernel, reaches, inside⟩
      have moved := Attaches.move path core _ symbols _ attaches dotted
      have following : grammar.fromDot core.advance.production core.advance.dot = symbols :=
        fromDot_succ dotted
      rcases inductionHypothesis _ (.leaf terminal :: trees) ahead core.advance following moved with
        ⟨rest, attached⟩
      rw [List.reverse_cons, List.reverse_cons, List.append_assoc, List.append_assoc,
        List.length_cons, Nat.add_comm symbols.length 1, ← Nat.add_assoc]
      exact ⟨.head (.shift path trees terminal (word ++ ahead) kernel core symbols reaches inside
        dotted) rest, attached⟩
  | node production pair children inner symbols grown word known below later belowHypothesis
      laterHypothesis =>
      have called := attaches_called attaches dotted later ⟨pair, known, rfl⟩
      have whole : grammar.fromDot production 0 = pair.2.symbols := fromDot_eq known
      rcases belowHypothesis path trees (word ++ ahead) ⟨production, 0⟩ whole called with
        ⟨first, complete⟩
      rw [Nat.zero_add] at complete
      have reduced := Moves.reduce path trees children (word ++ ahead) production pair known
        below.length complete
      have moved := Attaches.move path core _ symbols _ attaches dotted
      have following : grammar.fromDot core.advance.production core.advance.dot = symbols :=
        fromDot_succ dotted
      rcases laterHypothesis _ (.node production children :: trees) ahead core.advance following
        moved with ⟨rest, attached⟩
      rw [List.reverse_cons, List.reverse_cons, List.append_assoc, List.append_assoc,
        List.append_assoc, List.length_cons, Nat.add_comm symbols.length 1, ← Nat.add_assoc]
      exact ⟨(first.tail reduced).trans rest, attached⟩

/-- A tree of the root is built from nothing. -/
private theorem built {production : Nat} {pair : PlainRule × PlainProduction}
    {children : List (DerivationTree α)} {word : List α}
    (known : grammar.productions[production]? = some pair) (isRoot : pair.1.name = grammar.root)
    (below : grammar.Grows label pair.2.symbols children word) :
    Relation.ReflTransGen (grammar.Moves label) ⟨[], [], word⟩
      ⟨[grammar.root], [.node production children], []⟩ := by
  have whole : grammar.fromDot production 0 = pair.2.symbols := fromDot_eq known
  rcases below.moves [] [] [] ⟨production, 0⟩ whole (.start production ⟨pair, known, isRoot⟩) with
    ⟨moves, attached⟩
  rw [Nat.zero_add] at attached
  rw [List.append_nil] at moves
  rw [← isRoot]
  exact moves.tail (.reduce [] [] children [] production pair known below.length attached)

/-- Moves at the end of the input undo rewriting steps. -/
private theorem rewrites_of_moves {source target : Reading α}
    (moves : Relation.ReflTransGen (grammar.Moves label) source target) (atEnd : source.ahead = []) :
    target.ahead = [] ∧ grammar.Derives target.path.reverse source.path.reverse := by
  induction moves with
  | refl => exact ⟨atEnd, .refl _⟩
  | tail _ step inductionHypothesis =>
      rcases inductionHypothesis with ⟨nothing, derives⟩
      cases step with
      | shift => cases nothing
      | reduce path trees children ahead production pair known =>
          have step := Rewrites.replace path.reverse [] pair (List.mem_of_getElem? known)
          rw [List.append_nil] at step
          rw [List.reverse_append, List.reverse_reverse] at derives
          rw [List.reverse_cons]
          exact ⟨nothing, .head step derives⟩

/-- Moves that lead from the root to the root leave everything as it is, unless the root can be
rewritten to itself. -/
private theorem eq_of_moves
    (acyclic : ¬ Relation.TransGen grammar.Rewrites [grammar.root] [grammar.root])
    {first second : DerivationTree α}
    (moves : Relation.ReflTransGen (grammar.Moves label) ⟨[grammar.root], [first], []⟩
      ⟨[grammar.root], [second], []⟩) : first = second := by
  rcases Relation.ReflTransGen.cases_tail moves with same | ⟨middle, before, last⟩
  · cases same
    rfl
  · rcases rewrites_of_moves before rfl with ⟨atEnd, derives⟩
    generalize target : (⟨[grammar.root], [second], []⟩ : Reading α) = reading at last
    cases last with
    | shift => cases atEnd
    | reduce path trees children ahead production pair known =>
        rw [Reading.mk.injEq, List.cons.injEq] at target
        rcases target with ⟨⟨isRoot, rfl⟩, _, _⟩
        have step := Rewrites.replace [] [] pair (List.mem_of_getElem? known)
        rw [List.append_nil, ← isRoot] at step
        rw [List.append_nil, List.reverse_reverse] at derives
        exact (acyclic (.head' step derives)).elim

/-- A grammar without conflicts whose root is not rewritten to itself has at most one derivation
tree from the root for each word. -/
theorem unique_of_resolute (resolute : grammar.Resolute)
    (acyclic : ¬ Relation.TransGen grammar.Rewrites [grammar.root] [grammar.root]) {word : List α}
    {first second : DerivationTree α} (firstGrows : grammar.Grows label [grammar.root] [first] word)
    (secondGrows : grammar.Grows label [grammar.root] [second] word) : first = second := by
  generalize names : [grammar.root] = symbols at firstGrows secondGrows
  cases firstGrows with
  | leaf terminal symbols trees word isTerminal later =>
      cases later
      generalize same : [terminal] = letters at secondGrows
      generalize naming : [label terminal] = symbols at secondGrows
      cases secondGrows with
      | leaf other _ _ rest _ otherLater =>
          cases same
          rfl
      | node production pair children inner _ _ rest known _ otherLater =>
          rw [List.cons.injEq] at naming
          exact (isTerminal ⟨pair, List.mem_of_getElem? known, naming.1.symm⟩).elim
  | node production pair children inner symbols trees rest known below later =>
      cases later
      rw [List.cons.injEq] at names
      rw [List.append_nil] at secondGrows
      generalize same : inner = letters at secondGrows
      generalize naming : [pair.1.name] = symbols at secondGrows
      cases secondGrows with
      | leaf other _ _ rest isTerminal _ =>
          rw [List.cons.injEq] at naming
          exact (isTerminal ⟨pair, List.mem_of_getElem? known, naming.1⟩).elim
      | node otherProduction otherPair offspring otherInner _ _ rest otherKnown otherBelow
          otherLater =>
          cases otherLater
          rw [List.cons.injEq] at naming
          rw [List.append_nil] at same
          have left := built known names.1.symm below
          have right := built otherKnown (naming.1.symm.trans names.1.symm) (same ▸ otherBelow)
          rcases Relation.ReflTransGen.total_of_right_unique (Moves.functional resolute) left right
            with forth | back
          · exact eq_of_moves acyclic forth
          · exact (eq_of_moves acyclic back).symm

end PlainGrammar

namespace Grammar

/-! ## Grammars that are accepted -/

/-- In a grammar that is accepted without a resolved conflict, has no empty names and has a root that
is not rewritten to itself, the desugared grammar has at most one derivation tree from the root for
every word of terminals. -/
theorem derivationTree_unique {grammar : Grammar} {plain : PlainGrammar} {table : Table}
    (made : grammar.toPlain = .ok plain) (compiled : grammar.compile = .ok table)
    (none : table.conflicts = []) (named : plain.Named)
    (acyclic : ¬ Relation.TransGen plain.Rewrites [plain.root] [plain.root]) {α : Type}
    (label : α -> String) (word : List α) (first second : DerivationTree α)
    (firstGrows : plain.Grows label [plain.root] [first] word)
    (secondGrows : plain.Grows label [plain.root] [second] word) : first = second := by
  rcases of_bind_eq_ok compiled with ⟨other, otherMade, tabled⟩
  rw [made, Except.ok.injEq] at otherMade
  rw [← otherMade] at tabled
  exact PlainGrammar.unique_of_resolute
    (PlainGrammar.resolute_of_toTable plain named tabled none) acyclic firstGrows secondGrows

/-- One or more items. The repetition is a rule of its own in the desugared grammar. -/
def items : Grammar :=
  ⟨[⟨"list", [{ symbols := [.repeat1 [.name "item"]] }]⟩], List.nodup_singleton _⟩

/-- The desugared grammar of a list of items. -/
def plainItems : PlainGrammar := (items.toPlain.toOption).getD default

/-- The table for a list of items. -/
def itemsTable : Table := (items.compile.toOption).getD default

theorem derivationTree_unique_items :
    items.compile = .ok itemsTable ∧ itemsTable.conflicts = [] ∧ plainItems.Named ∧
    (¬ Relation.TransGen plainItems.Rewrites [plainItems.root] [plainItems.root]) ∧
    forall first second : DerivationTree String,
      plainItems.Grows id [plainItems.root] [first] ["item", "item"] ->
      plainItems.Grows id [plainItems.root] [second] ["item", "item"] -> first = second := by
  have made : items.toPlain = .ok plainItems := eq_ok_of_isOk (by decide +kernel)
  have compiled : items.compile = .ok itemsTable := eq_ok_of_isOk (by decide +kernel)
  have none : itemsTable.conflicts = [] := by decide +kernel
  have named : plainItems.Named := by decide +kernel
  have absent : forall pair, pair ∈ plainItems.productions -> plainItems.root ∉ pair.2.symbols := by
    decide +kernel
  have acyclic := PlainGrammar.not_rewrites_to_itself absent
  exact ⟨compiled, none, named, acyclic,
    derivationTree_unique made compiled none named acyclic id ["item", "item"]⟩

/-! ## Conflicts that are not seen -/

/-- The grammar is accepted without a resolved conflict, and two derivation trees have this word. -/
def AmbiguousUnseen (grammar : Grammar) (word : List String) : Prop :=
  Exists fun plain => Exists fun table => Exists fun first => Exists fun second =>
    grammar.toPlain = .ok plain ∧ grammar.compile = .ok table ∧ table.conflicts = [] ∧
    plain.Grows id [plain.root] [first] word ∧ plain.Grows id [plain.root] [second] word ∧
    first ≠ second

/-- A root that is also a production of itself. -/
def selfRoot : Grammar :=
  ⟨[⟨"S", [{ symbols := [.name "S"] }, { symbols := [.name "a"] }]⟩], List.nodup_singleton _⟩

/-- Two rules for the same terminal, followed by a terminal that has the name of the end of the
input. -/
def endNamed : Grammar :=
  ⟨[⟨"S", [{ symbols := [.name "A", .name ""] }, { symbols := [.name "B", .name ""] }]⟩,
    ⟨"A", [{ symbols := [.name "a"] }]⟩, ⟨"B", [{ symbols := [.name "a"] }]⟩], by decide⟩

/-- A tree is grown from productions that are looked up in the grammar. -/
private theorem grows_node {plain : PlainGrammar} (name : String) {symbols names : List String}
    {production : Nat} {children trees : List (DerivationTree String)} {inner word : List String}
    (known : (plain.productions[production]?.map fun pair => (pair.1.name, pair.2.symbols)) =
      some (name, symbols))
    (below : plain.Grows id symbols children inner) (later : plain.Grows id names trees word) :
    plain.Grows id (name :: names) (.node production children :: trees) (inner ++ word) := by
  rcases Option.map_eq_some_iff.mp known with ⟨pair, found, parts⟩
  rw [Prod.mk.injEq] at parts
  rw [← parts.2] at below
  rw [← parts.1]
  exact .node production pair children inner names trees word found below later

/-- Neither of the two is refused and neither has a resolved conflict, but both are ambiguous. -/
theorem ambiguousUnseen_selfRoot_endNamed :
    selfRoot.AmbiguousUnseen ["a"] ∧ endNamed.AmbiguousUnseen ["a", ""] := by
  have terminal : forall plain : PlainGrammar, (¬ plain.IsNonterminal "a") ->
      plain.Grows id ["a"] [.leaf "a"] ["a"] := fun _ isTerminal =>
    .leaf "a" [] [] [] isTerminal .nil
  constructor
  · refine ⟨(selfRoot.toPlain.toOption).getD default, (selfRoot.compile.toOption).getD default,
      .node 1 [.leaf "a"], .node 0 [.node 1 [.leaf "a"]], eq_ok_of_isOk (by decide +kernel),
      eq_ok_of_isOk (by decide +kernel), by decide +kernel, ?_, ?_, by simp⟩
    · exact grows_node _ (by decide +kernel) (terminal _ (by decide +kernel)) .nil
    · exact grows_node _ (by decide +kernel)
        (grows_node "S" (by decide +kernel) (terminal _ (by decide +kernel)) .nil) .nil
  · have ended : ((endNamed.toPlain.toOption).getD default).Grows id [""] [.leaf ""] [""] :=
      .leaf "" [] [] [] (by decide +kernel) .nil
    refine ⟨(endNamed.toPlain.toOption).getD default, (endNamed.compile.toOption).getD default,
      .node 0 [.node 2 [.leaf "a"], .leaf ""], .node 1 [.node 3 [.leaf "a"], .leaf ""],
      eq_ok_of_isOk (by decide +kernel), eq_ok_of_isOk (by decide +kernel), by decide +kernel,
      ?_, ?_, by simp⟩
    · exact grows_node _ (by decide +kernel)
        (grows_node "A" (by decide +kernel) (terminal _ (by decide +kernel)) ended) .nil
    · exact grows_node _ (by decide +kernel)
        (grows_node "B" (by decide +kernel) (terminal _ (by decide +kernel)) ended) .nil

end Grammar

end ShiftReduce
