import ShiftReduce.Parser
import ShiftReduce.Proofs.Grammar.Forests
import ShiftReduce.Proofs.Parse.Steps

namespace ShiftReduce

/-!
# Trees without some of their leaves

A parse that keeps only some of the tokens makes a smaller tree.  It takes the same steps as a parse that
keeps all tokens: what is kept only decides on the children of nodes, and a run looks at no more than
the number of its nodes.  After every step the nodes are those of the other run without the leaves that
are not kept, and so is the tree in the end.
-/

namespace ParseTree

variable (keep : Token -> Bool)

/-- Whether the tree is still there when leaves are taken away from around it. -/
def stays : ParseTree -> Bool
  | .node .. => true
  | .leaf token => keep token

mutual

/-- The tree without the leaves inside it that are not kept. -/
def prune : ParseTree -> ParseTree
  | .node label children => .node label (pruneEach children)
  | .leaf token => .leaf token

/-- The trees without the leaves among them and inside them that are not kept. -/
def pruneEach : List ParseTree -> List ParseTree
  | [] => []
  | tree :: rest => if tree.stays keep then tree.prune :: pruneEach rest else pruneEach rest

end

variable {keep}

theorem pruneEach_append (left right : List ParseTree) :
    pruneEach keep (left ++ right) = pruneEach keep left ++ pruneEach keep right := by
  induction left with
  | nil => rfl
  | cons tree rest inductionHypothesis =>
      rw [List.cons_append, pruneEach, pruneEach, inductionHypothesis]
      split <;> rfl

mutual

/-- What is left of a tree has the leaves that are kept. -/
theorem leaves_prune : forall tree : ParseTree,
    (if tree.stays keep then (tree.prune keep).leaves else []) = tree.leaves.filter keep
  | .node label children => by
      rw [stays, if_pos rfl, prune, leaves, leaves, leavesOfEach_prune children]
  | .leaf token => by
      rw [stays, prune, leaves, List.filter_singleton]
      cases keep token <;> rfl

theorem leavesOfEach_prune : forall trees : List ParseTree,
    leavesOfEach (pruneEach keep trees) = (leavesOfEach trees).filter keep
  | [] => rfl
  | tree :: rest => by
      rw [pruneEach, leavesOfEach, List.filter_append, ← leaves_prune tree,
        ← leavesOfEach_prune rest]
      split <;> rfl

end

end ParseTree

open ParseTree

/-! ## Nodes -/

namespace PendingNode

variable (keep : Token -> Bool)

/-- The node without the leaves that are not kept. -/
def prune (node : PendingNode) : PendingNode :=
  { node with children := pruneEach keep node.children }

theorem contribution_prune (node : PendingNode) :
    (node.prune keep).contribution = pruneEach keep node.contribution := by
  rcases node with ⟨label, children, helper⟩
  cases helper <;> rfl

/-- Children that are made of pruned nodes, with the leaves that are kept, are pruned themselves. -/
theorem childrenOf_prune (tokens : List Token) (nodes : List PendingNode) :
    childrenOf keep tokens (nodes.map (prune keep)) =
      pruneEach keep (childrenOf (fun _ => true) tokens nodes) := by
  induction tokens generalizing nodes with
  | nil => rfl
  | cons token rest inductionHypothesis =>
      unfold childrenOf
      cases token.isSynthetic with
      | true =>
          rw [if_pos rfl, if_pos rfl]
          cases nodes with
          | nil => exact inductionHypothesis []
          | cons node nodes =>
              rw [List.map_cons, pruneEach_append]
              dsimp only
              rw [contribution_prune, inductionHypothesis]
      | false =>
          rw [if_neg Bool.false_ne_true, if_neg Bool.false_ne_true, if_pos rfl, pruneEach, stays,
            ParseTree.prune, inductionHypothesis]

theorem reduce_prune (rule : ReduceRule) (popped : List Token) (nodes : List PendingNode) :
    reduce keep rule popped (nodes.map (prune keep)) =
      (reduce (fun _ => true) rule popped nodes).map (List.map (prune keep)) := by
  unfold reduce
  dsimp only
  rw [List.length_map]
  split
  · rfl
  · rw [← List.map_take, ← List.map_drop, ← List.map_reverse, childrenOf_prune]
    rfl

theorem finish_prune (nodes : List PendingNode) :
    finish (nodes.map (prune keep)) = (finish nodes).map (ParseTree.prune keep) := by
  rcases nodes with _ | ⟨node, _ | ⟨other, rest⟩⟩
  · rfl
  · rfl
  · simp only [finish, List.map_cons, List.length_cons, List.length_map, Except.map]

end PendingNode

/-! ## Runs -/

variable {σ : Type}

/-- The same run with a tree of the tokens that are kept. -/
def Setting.keeping (setting : Setting σ) (keep : Token -> Bool) : Setting σ :=
  { setting with keep := some keep }

/-- The machine without the leaves that are not kept. -/
def Machine.prune (machine : Machine σ) (keep : Token -> Bool) : Machine σ :=
  { machine with nodes := machine.nodes.map (PendingNode.prune keep) }

/-- The machine that a step comes to, without the leaves that are not kept. -/
def Progress.prune (keep : Token -> Bool) : Progress σ -> Progress σ
  | .running machine => .running (machine.prune keep)
  | .ended outcome machine => .ended outcome (machine.prune keep)

namespace Setting

variable (setting : Setting σ) (keep : Token -> Bool)

theorem read_prune (machine : Machine σ) (row : TableState) :
    (setting.keeping keep).read (machine.prune keep) row =
      ((setting.keeping fun _ => true).read machine row).prune keep := by
  have sameReply : forall kept machine,
      (setting.keeping kept).source.next (Machine.source machine) (.matching row.accepts) =
        setting.source.next machine.source (.matching row.accepts) := fun _ _ => rfl
  have sameSource : (machine.prune keep).source = machine.source := rfl
  have sameSkip : forall kept, (setting.keeping kept).skip = setting.skip := fun _ => rfl
  unfold read
  rw [sameReply, sameReply, sameSource]
  rcases setting.source.next machine.source (.matching row.accepts) with ⟨_ | _ | token, source⟩
  · rfl
  · rfl
  · dsimp only
    rw [sameSkip, sameSkip]
    split <;> rfl

theorem reduce_prune (machine : Machine σ) (rule : ReduceRule) (waiting : Option Token) :
    (setting.keeping keep).reduce (machine.prune keep) rule waiting =
      ((setting.keeping fun _ => true).reduce machine rule waiting).prune keep := by
  have sameStack : (machine.prune keep).stack = machine.stack := rfl
  have sameCollections : (machine.prune keep).collections = machine.collections := rfl
  have sameRoot : forall kept, (setting.keeping kept).table.root = setting.table.root := fun _ => rfl
  have sameNodes : forall popped,
      (setting.keeping keep).nodesAfter rule popped (machine.prune keep).nodes =
        ((setting.keeping fun _ => true).nodesAfter rule popped machine.nodes).map
          (List.map (PendingNode.prune keep)) :=
    fun popped => PendingNode.reduce_prune keep rule popped machine.nodes
  unfold reduce
  rw [sameStack, sameCollections]
  rcases Frame.pop rule.symbols machine.stack with halt | ⟨popped, below⟩
  · rfl
  · dsimp only
    rcases rule.reduce popped machine.collections with halt | ⟨collections, call⟩
    · rfl
    · dsimp only
      rw [sameNodes, sameRoot, sameRoot]
      rcases (setting.keeping fun _ => true).nodesAfter rule popped machine.nodes with halt | nodes
      · rfl
      · dsimp only [Except.map]
        split <;> rfl

theorem reduceFor_prune (machine : Machine σ) (row : TableState) (waiting : Option Token) :
    (setting.keeping keep).reduceFor (machine.prune keep) row waiting =
      ((setting.keeping fun _ => true).reduceFor machine row waiting).prune keep := by
  unfold reduceFor
  dsimp only
  split
  · rfl
  · split
    · rfl
    · exact setting.reduce_prune keep machine _ waiting

/-- What is kept makes no difference to a step but for the leaves of the nodes. -/
theorem step_prune (machine : Machine σ) :
    (setting.keeping keep).step (machine.prune keep) =
      ((setting.keeping fun _ => true).step machine).prune keep := by
  have sameRow : forall kept, (setting.keeping kept).table.states[machine.state]? =
      setting.table.states[machine.state]? := fun _ => rfl
  have sameState : (machine.prune keep).state = machine.state := rfl
  have sameLookahead : (machine.prune keep).lookahead = machine.lookahead := rfl
  unfold step
  rw [sameState, sameRow, sameRow, sameLookahead]
  cases setting.table.states[machine.state]? with
  | none => rfl
  | some row =>
      dsimp only
      rcases machine.lookahead with _ | (_ | token) | ⟨nonterminal, waiting⟩
      · exact setting.read_prune keep machine row
      · exact setting.reduceFor_prune keep machine row none
      · dsimp only
        split
        · rfl
        · split
          · rfl
          · exact setting.reduceFor_prune keep machine row (some token)
      · dsimp only
        split <;> rfl

/-- Nor does it make any other difference to a run. -/
theorem run_prune (limit : Nat) (machine : Machine σ) :
    (setting.keeping keep).run limit (machine.prune keep) =
      (((setting.keeping fun _ => true).run limit machine).1,
        ((setting.keeping fun _ => true).run limit machine).2.prune keep) := by
  induction limit generalizing machine with
  | zero => rfl
  | succ limit inductionHypothesis =>
      rw [run, run, step_prune]
      cases (setting.keeping fun _ => true).step machine with
      | running next => exact inductionHypothesis next
      | ended outcome last => rfl

/-- The tree of the tokens that are kept is the tree of all tokens without the other leaves. -/
theorem parseTree_prune (state : σ) :
    (setting.keeping keep).parseTree state =
      ⟨((setting.keeping fun _ => true).parseTree state).tree.map (ParseTree.prune keep),
        ((setting.keeping fun _ => true).parseTree state).calls⟩ := by
  have started : (Machine.start state).prune keep = .start state := rfl
  have each := fun limit => setting.run_prune keep limit (.start state)
  rw [started] at each
  have together : forall limit, ((setting.keeping keep).run limit (.start state)).1 =
      ((setting.keeping fun _ => true).run limit (.start state)).1 := fun limit => by rw [each limit]
  rcases exists_runs_eq_results together with ⟨limit, whole, pruned⟩
  unfold parseTree
  rw [← whole, ← pruned, each limit]
  rcases (setting.keeping fun _ => true).run limit (.start state) with ⟨_ | halt | _, machine⟩
  · have finishes : PendingNode.finish (machine.prune keep).nodes =
        (PendingNode.finish machine.nodes).map (ParseTree.prune keep) :=
      PendingNode.finish_prune keep machine.nodes
    unfold TreeResult.ofRun
    dsimp only
    rw [finishes]
    cases PendingNode.finish machine.nodes <;> rfl
  · rfl
  · rfl

end Setting

end ShiftReduce
