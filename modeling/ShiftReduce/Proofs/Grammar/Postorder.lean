import ShiftReduce.Proofs.Grammar.Forests

namespace ShiftReduce

/-!
# Trees in post-order

A parse tree does not say which production a node comes from, since its nodes only have labels.  The
derivation tree that it is made from does.  Its nodes are listed here in the order in which reductions
make them, each as it stands in the parse tree and with the number of its production; helpers have no
node of their own.  Without the numbers, this is the parse tree in post-order.
-/

namespace ParseTree

mutual

/-- The nodes of a tree, each behind those inside it. -/
def postorder : ParseTree -> List ParseTree
  | .node label children => postorderOfEach children ++ [.node label children]
  | .leaf _ => []

/-- The nodes of several trees. -/
def postorderOfEach : List ParseTree -> List ParseTree
  | [] => []
  | tree :: rest => tree.postorder ++ postorderOfEach rest

end

theorem postorderOfEach_singleton (tree : ParseTree) : postorderOfEach [tree] = tree.postorder :=
  List.append_nil _

theorem postorderOfEach_append (left right : List ParseTree) :
    postorderOfEach (left ++ right) = postorderOfEach left ++ postorderOfEach right := by
  induction left with
  | nil => rfl
  | cons tree rest inductionHypothesis => simp [postorderOfEach, inductionHypothesis]

end ParseTree

namespace DerivationTree

variable (plain : PlainGrammar) (keep : Token -> Bool)

mutual

/-- The nodes of the parse tree in post-order, each with the number of its production. -/
def numbered : DerivationTree Token -> List (Nat × ParseTree)
  | .leaf _ => []
  | .node production children =>
    let node := pendingOf plain production (plantedOfEach plain keep children)
    numberedOfEach children ++
      if node.helper then [] else [(production, .node node.label node.children)]

/-- The nodes of the parse trees of several derivation trees. -/
def numberedOfEach : List (DerivationTree Token) -> List (Nat × ParseTree)
  | [] => []
  | tree :: rest => numbered tree ++ numberedOfEach rest

end

/-- The tree is put together from productions: below each node stand, in their order, the symbols of
its production. -/
inductive Composed : String -> DerivationTree Token -> Prop where
  | leaf (token : Token) : Composed token.name (.leaf token)
  | node (number : Nat) (pair : PlainRule × PlainProduction) (children : List (DerivationTree Token))
      (known : plain.productions[number]? = some pair)
      (below : List.Forall₂ Composed pair.2.symbols children) :
      Composed pair.1.name (.node number children)

variable {plain} {keep}

theorem numberedOfEach_append (left right : List (DerivationTree Token)) :
    numberedOfEach plain keep (left ++ right) =
      numberedOfEach plain keep left ++ numberedOfEach plain keep right := by
  induction left with
  | nil => rfl
  | cons tree rest inductionHypothesis => simp [numberedOfEach, inductionHypothesis]

theorem numberedOfEach_singleton (tree : DerivationTree Token) :
    numberedOfEach plain keep [tree] = numbered plain keep tree :=
  List.append_nil _

theorem children_pendingOf (production : Nat) (children : List ParseTree) :
    (pendingOf plain production children).children = children := by
  unfold pendingOf
  split <;> rfl

mutual

/-- The numbered nodes are all nodes of the parse tree. -/
theorem map_numbered : forall tree : DerivationTree Token,
    (numbered plain keep tree).map Prod.snd =
      ParseTree.postorderOfEach (planted plain keep tree)
  | .leaf token => by
      unfold planted leavesOf
      split <;> rfl
  | .node production children => by
      have inside := map_numberedOfEach children
      rw [numbered, planted, PendingNode.contribution, List.map_append, inside,
        children_pendingOf]
      split
      · exact List.append_nil _
      · rw [ParseTree.postorderOfEach_singleton, ParseTree.postorder]
        rfl

/-- So it is for several trees. -/
theorem map_numberedOfEach : forall trees : List (DerivationTree Token),
    (numberedOfEach plain keep trees).map Prod.snd =
      ParseTree.postorderOfEach (plantedOfEach plain keep trees)
  | [] => rfl
  | tree :: rest => by
      have first := map_numbered tree
      have others := map_numberedOfEach rest
      rw [numberedOfEach, plantedOfEach, List.map_append, ParseTree.postorderOfEach_append,
        first, others]

end

end DerivationTree

end ShiftReduce
