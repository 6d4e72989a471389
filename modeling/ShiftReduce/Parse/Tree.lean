import ShiftReduce.Parse.Collect
import ShiftReduce.Text.Lines

/-!
Parse trees.

A tree is built while a parse runs. Each reduction makes a node of what it popped: the tokens that
are kept are leaves, and each synthetic token stands for the node made by its own reduction. Nodes
of helper rules give their children to the node around them, so the tree has the shape of the
grammar as it was written.
-/

namespace ShiftReduce

/-- A line of the drawing of a tree. -/
structure OutlineLine where
  /-- The marks that connect the title with the nodes above it. -/
  lead : List Char
  title : List Char
deriving DecidableEq, Repr

namespace OutlineLine

/-- A line one level deeper. A carriage return at its end gets lost. -/
def indent (mark filler : Char) (line : OutlineLine) : OutlineLine :=
  ⟨mark :: filler :: line.lead, Text.dropReturn line.title⟩

end OutlineLine

/-- A tree of reductions, with tokens as leaves. -/
inductive ParseTree where
  | node (label : String) (children : List ParseTree)
  | leaf (token : Token)
deriving Repr, Inhabited

namespace ParseTree

/-- The label of a node, and the text of a leaf as trees show it. -/
def title : ParseTree -> String
  | .node label _ => label
  | .leaf token => token.display

/-- The children of a node. -/
def children : ParseTree -> List ParseTree
  | .node _ children => children
  | .leaf _ => []

/-- Whether the tree is a node. -/
def isNode : ParseTree -> Bool
  | .node .. => true
  | .leaf _ => false

/-- The children that are nodes. -/
def nodes (tree : ParseTree) : List ParseTree :=
  tree.children.filter isNode

/-- The tokens among the children. -/
def tokens (tree : ParseTree) : List Token :=
  tree.children.filterMap fun child =>
    match child with
    | .leaf token => some token
    | .node .. => none

mutual

/-- The leaves, from left to right. -/
def leaves : ParseTree -> List Token
  | .node _ children => leavesOfEach children
  | .leaf token => [token]

/-- The leaves of several trees. -/
def leavesOfEach : List ParseTree -> List Token
  | [] => []
  | tree :: rest => tree.leaves ++ leavesOfEach rest

end

mutual

/-- The number of nodes on the longest way down; a leaf counts as none. -/
def depth : ParseTree -> Nat
  | .node _ children => depthOfEach children + 1
  | .leaf _ => 0

/-- The depth of the deepest of several trees. -/
def depthOfEach : List ParseTree -> Nat
  | [] => 0
  | tree :: rest => max tree.depth (depthOfEach rest)

end

/-- The part of the source that the leaves cover, if there are any. -/
def span? (tree : ParseTree) : Option Span :=
  match tree.leaves with
  | [] => none
  | first :: rest => some (rest.foldl (fun span token => span.union token.span) first.span)

/-- The lines of a title, with nothing in front of them. -/
def titleLines (title : String) : List OutlineLine :=
  (Text.brokenLines title.toList).map fun line => ⟨[], line⟩

/-- The lines of a child's drawing below its parent. The first line hangs on the connector of the
child, and the others stand below that line. -/
def hang (last : Bool) (lines : List OutlineLine) : List OutlineLine :=
  match lines with
  | [] => []
  | first :: others =>
    first.indent (if last then '└' else '├') '─' ::
      others.map (OutlineLine.indent (if last then ' ' else '│') ' ')

mutual

/-- The lines of the drawing of a tree, one for each node and leaf unless there are line feeds in
their titles. -/
def lines : ParseTree -> List OutlineLine
  | .node label children => titleLines label ++ linesOfEach children
  | .leaf token => titleLines token.display

/-- The lines of the children of a node, which hang below one another. -/
def linesOfEach : List ParseTree -> List OutlineLine
  | [] => []
  | tree :: rest => hang rest.isEmpty tree.lines ++ linesOfEach rest

end

/-- A drawing of the tree. -/
def draw (tree : ParseTree) : String :=
  String.ofList (tree.lines.flatMap fun line => line.lead ++ line.title ++ ['\n'])

end ParseTree

/-- A node made by a reduction whose own place in the tree is not known yet. -/
structure PendingNode where
  label : String
  children : List ParseTree
  /-- Whether the node only stands for an operator. -/
  helper : Bool
deriving Repr, Inhabited

namespace PendingNode

/-- What the node adds to the children of the node around it. -/
def contribution (node : PendingNode) : List ParseTree :=
  if node.helper then node.children else [.node node.label node.children]

/-- The children made of the popped tokens, where `nodes` are the nodes of the synthetic ones. -/
def childrenOf (keep : Token -> Bool) : List Token -> List PendingNode -> List ParseTree
  | [], _ => []
  | token :: rest, nodes =>
    if token.isSynthetic then
      match nodes with
      | node :: nodes => node.contribution ++ childrenOf keep rest nodes
      | [] => childrenOf keep rest []
    else if keep token then .leaf token :: childrenOf keep rest nodes
    else childrenOf keep rest nodes

/-- Makes the node of a reduction. `stack` holds the nodes that wait for theirs, latest first. -/
def reduce (keep : Token -> Bool) (rule : ReduceRule) (popped : List Token)
    (stack : List PendingNode) : Except Halt (List PendingNode) :=
  let wanted := popped.countP Token.isSynthetic
  if stack.length < wanted then
    .error (.failed (.internal
      (toString wanted ++ " subtrees for `" ++ rule.display ++ "`") (toString stack.length)))
  else
    let children := childrenOf keep popped (stack.take wanted).reverse
    .ok (⟨rule.reportedAs, children, rule.helper⟩ :: stack.drop wanted)

/-- The tree that is left when a parse has been accepted. -/
def finish : List PendingNode -> Except Halt ParseTree
  | [root] => .ok (.node root.label root.children)
  | stack =>
    .error (.failed (.internal "a single tree" (toString stack.length ++ " trees")))

end PendingNode
end ShiftReduce
