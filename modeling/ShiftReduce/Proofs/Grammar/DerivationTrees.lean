import Mathlib.Algebra.Ring.Int.Defs
import ShiftReduce.Proofs.Grammar.Rewriting

namespace ShiftReduce

/-!
# Derivation trees of a plain grammar

A derivation tree says which productions were put in the place of which names, but not in which
order.  Its inner nodes bear the numbers of productions and its leaves bear terminals, which may be
anything that has a name, such as the tokens of a source.  Trees grow side by side: a row of trees
grows from a string of names, and the terminals at their leaves make up its word.
-/

/-- A tree of productions over terminals. -/
inductive DerivationTree (α : Type) where
  | leaf (terminal : α)
  | node (production : Nat) (children : List (DerivationTree α))

namespace DerivationTree

variable {α : Type}

mutual

/-- The number of productions in a tree. -/
def nodeCount : DerivationTree α -> Nat
  | .leaf _ => 0
  | .node _ children => nodeCountOfEach children + 1

/-- The number of productions in a row of trees. -/
def nodeCountOfEach : List (DerivationTree α) -> Nat
  | [] => 0
  | tree :: rest => tree.nodeCount + nodeCountOfEach rest

end

theorem nodeCountOfEach_append (left right : List (DerivationTree α)) :
    nodeCountOfEach (left ++ right) = nodeCountOfEach left + nodeCountOfEach right := by
  induction left with
  | nil => exact (Nat.zero_add _).symm
  | cons tree rest inductionHypothesis =>
      rw [List.cons_append, nodeCountOfEach, nodeCountOfEach, inductionHypothesis, Nat.add_assoc]

theorem nodeCountOfEach_singleton (tree : DerivationTree α) :
    nodeCountOfEach [tree] = tree.nodeCount :=
  Nat.add_zero _

end DerivationTree

namespace PlainGrammar

variable {α : Type} (grammar : PlainGrammar) (label : α -> String)

/-- Trees whose roots are these names and whose leaves are the terminals of the word. -/
inductive Grows : List String -> List (DerivationTree α) -> List α -> Prop where
  | nil : Grows [] [] []
  | leaf (terminal : α) (symbols : List String) (trees : List (DerivationTree α)) (word : List α)
      (isTerminal : ¬ grammar.IsNonterminal (label terminal))
      (later : Grows symbols trees word) :
      Grows (label terminal :: symbols) (.leaf terminal :: trees) (terminal :: word)
  | node (production : Nat) (pair : PlainRule × PlainProduction)
      (children : List (DerivationTree α)) (inner : List α) (symbols : List String)
      (trees : List (DerivationTree α)) (word : List α)
      (known : grammar.productions[production]? = some pair)
      (below : Grows pair.2.symbols children inner) (later : Grows symbols trees word) :
      Grows (pair.1.name :: symbols) (.node production children :: trees) (inner ++ word)

variable {grammar} {label}

theorem Grows.length {symbols : List String} {trees : List (DerivationTree α)} {word : List α}
    (grows : grammar.Grows label symbols trees word) : trees.length = symbols.length := by
  induction grows with
  | nil => rfl
  | leaf _ _ _ _ _ _ inductionHypothesis => exact congrArg Nat.succ inductionHypothesis
  | node _ _ _ _ _ _ _ _ _ _ _ inductionHypothesis => exact congrArg Nat.succ inductionHypothesis

theorem Grows.eq_nil {trees : List (DerivationTree α)} {word : List α}
    (grows : grammar.Grows label [] trees word) : trees = [] ∧ word = [] := by
  generalize nothing : ([] : List String) = symbols at grows
  cases grows with
  | nil => exact ⟨rfl, rfl⟩
  | leaf => cases nothing
  | node => cases nothing

theorem Grows.append {left right : List String} {leftTrees rightTrees : List (DerivationTree α)}
    {front back : List α} (first : grammar.Grows label left leftTrees front)
    (second : grammar.Grows label right rightTrees back) :
    grammar.Grows label (left ++ right) (leftTrees ++ rightTrees) (front ++ back) := by
  induction first with
  | nil => exact second
  | leaf terminal symbols trees word isTerminal _ inductionHypothesis =>
      exact .leaf terminal _ _ _ isTerminal inductionHypothesis
  | node production pair children inner symbols trees word known below _ _ inductionHypothesis =>
      rw [List.append_assoc]
      exact .node production pair children inner _ _ _ known below inductionHypothesis

/-- A row of trees can be divided wherever its string of names is. -/
theorem Grows.split {left right : List String} {trees : List (DerivationTree α)} {word : List α}
    (grows : grammar.Grows label (left ++ right) trees word) :
    Exists fun leftTrees => Exists fun rightTrees => Exists fun front => Exists fun back =>
      trees = leftTrees ++ rightTrees ∧ word = front ++ back ∧
      grammar.Grows label left leftTrees front ∧ grammar.Grows label right rightTrees back := by
  induction left generalizing trees word with
  | nil => exact ⟨[], trees, [], word, rfl, rfl, .nil, grows⟩
  | cons name rest inductionHypothesis =>
      rw [List.cons_append] at grows
      generalize names : name :: (rest ++ right) = symbols at grows
      cases grows with
      | nil => cases names
      | leaf terminal symbols others word isTerminal later =>
          rw [List.cons.injEq] at names
          rcases names with ⟨rfl, rfl⟩
          rcases inductionHypothesis later with
            ⟨leftTrees, rightTrees, front, back, rfl, rfl, first, second⟩
          exact ⟨.leaf terminal :: leftTrees, rightTrees, terminal :: front, back, rfl, rfl,
            .leaf terminal _ _ _ isTerminal first, second⟩
      | node production pair children inner symbols others word known below later =>
          rw [List.cons.injEq] at names
          rcases names with ⟨rfl, rfl⟩
          rcases inductionHypothesis later with
            ⟨leftTrees, rightTrees, front, back, rfl, rfl, first, second⟩
          exact ⟨.node production children :: leftTrees, rightTrees, inner ++ front, back, rfl,
            (List.append_assoc inner front back).symm,
            .node production pair children inner _ _ _ known below first, second⟩

/-- The roots can be rewritten to the names of the leaves. -/
theorem Grows.derives {symbols : List String} {trees : List (DerivationTree α)} {word : List α}
    (grows : grammar.Grows label symbols trees word) :
    grammar.Derives symbols (word.map label) := by
  induction grows with
  | nil => exact .refl []
  | leaf terminal symbols trees word _ _ inductionHypothesis =>
      exact inductionHypothesis.append_left [label terminal]
  | node production pair children inner symbols trees word known _ _ belowHypothesis
      laterHypothesis =>
      have first := Derives.production (List.mem_of_getElem? known)
      rw [List.map_append]
      exact Derives.append (first.trans belowHypothesis) laterHypothesis

/-- The leaves are terminals. -/
theorem Grows.terminals {symbols : List String} {trees : List (DerivationTree α)} {word : List α}
    (grows : grammar.Grows label symbols trees word) :
    forall terminal, terminal ∈ word -> ¬ grammar.IsNonterminal (label terminal) := by
  induction grows with
  | nil => exact fun _ impossible => (List.not_mem_nil impossible).elim
  | leaf terminal _ _ _ isTerminal _ inductionHypothesis =>
      intro other member
      rcases List.mem_cons.mp member with here | after
      · exact here ▸ isTerminal
      · exact inductionHypothesis other after
  | node _ _ _ _ _ _ _ _ _ _ belowHypothesis laterHypothesis =>
      intro other member
      rcases List.mem_append.mp member with here | after
      · exact belowHypothesis other here
      · exact laterHypothesis other after

/-- A string that can be rewritten to the names of terminals has derivation trees. -/
theorem Derives.grows {symbols : List String} {word : List α}
    (derives : grammar.Derives symbols (word.map label))
    (terminals : forall terminal, terminal ∈ word -> ¬ grammar.IsNonterminal (label terminal)) :
    Exists fun trees => grammar.Grows label symbols trees word := by
  -- The trees are built from the last replacement to the first.
  induction derives using Relation.ReflTransGen.head_induction_on with
  | refl =>
      induction word with
      | nil => exact ⟨[], .nil⟩
      | cons terminal rest inductionHypothesis =>
          rcases inductionHypothesis fun other member =>
            terminals other (List.mem_cons_of_mem _ member) with ⟨trees, grows⟩
          exact ⟨_, .leaf terminal _ trees rest (terminals terminal List.mem_cons_self) grows⟩
  | head step _ inductionHypothesis =>
      rcases inductionHypothesis with ⟨trees, grows⟩
      rcases step with ⟨before, after, pair, listed⟩
      rcases grows.split with ⟨firstTrees, lastTrees, first, last, rfl, rfl, growsFirst, growsLast⟩
      rcases growsFirst.split with ⟨frontTrees, below, front, inner, rfl, rfl, growsFront, growsBelow⟩
      rcases List.getElem?_of_mem listed with ⟨number, known⟩
      rw [List.append_assoc]
      exact ⟨_, growsFront.append (.node number pair below inner _ _ _ known growsBelow growsLast)⟩

/-- A string that vanishes has derivation trees without leaves. -/
theorem Nullable.grows {symbols : List String} (nullable : grammar.Nullable symbols) :
    Exists fun trees : List (DerivationTree String) => grammar.Grows id symbols trees [] :=
  Derives.grows nullable fun _ impossible => (List.not_mem_nil impossible).elim

/-- If every production weighs less than its name, the number of nodes is bounded by how much less the
leaves weigh than the roots. -/
theorem Grows.nodeCount_le {weight : String -> Int}
    (pays : forall pair, pair ∈ grammar.productions ->
      (pair.2.symbols.map weight).sum + 1 ≤ weight pair.1.name) {symbols : List String}
    {trees : List (DerivationTree α)} {word : List α}
    (grows : grammar.Grows label symbols trees word) :
    (DerivationTree.nodeCountOfEach trees : Int) + (word.map fun leaf => weight (label leaf)).sum ≤
      (symbols.map weight).sum := by
  induction grows with
  | nil => exact Int.le_refl _
  | leaf terminal symbols trees word _ _ inductionHypothesis =>
      rw [DerivationTree.nodeCountOfEach, DerivationTree.nodeCount]
      simp only [List.map_cons, List.sum_cons]
      omega
  | node production pair children inner symbols trees word known _ _ belowHypothesis
      laterHypothesis =>
      have paid := pays pair (List.mem_of_getElem? known)
      rw [DerivationTree.nodeCountOfEach, DerivationTree.nodeCount]
      simp only [List.map_cons, List.sum_cons, List.map_append, List.sum_append]
      omega

/-- A name that no production mentions is not rewritten to itself. -/
theorem not_rewrites_to_itself {name : String}
    (absent : forall pair, pair ∈ grammar.productions -> name ∉ pair.2.symbols) :
    ¬ Relation.TransGen grammar.Rewrites [name] [name] := by
  have gone : forall target, Relation.TransGen grammar.Rewrites [name] target -> name ∉ target := by
    intro target reached
    induction reached with
    | single step =>
        generalize source : [name] = start at step
        rcases step with ⟨before, after, pair, listed⟩
        rcases List.append_eq_singleton_iff.mp source.symm with ⟨rfl, single⟩ | ⟨_, empty⟩
        · rw [List.cons.injEq] at single
          rw [single.2, List.nil_append, List.append_nil]
          exact absent pair listed
        · cases empty
    | tail _ step inductionHypothesis =>
        rcases step with ⟨before, after, pair, listed⟩
        simp only [List.mem_append, List.mem_cons] at inductionHypothesis ⊢
        rintro ((found | found) | found)
        · exact inductionHypothesis (Or.inl found)
        · exact absent pair listed found
        · exact inductionHypothesis (Or.inr (Or.inr found))
  exact fun cycle => gone [name] cycle List.mem_cons_self

end PlainGrammar

end ShiftReduce
