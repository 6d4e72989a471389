import ShiftReduce.Automaton.Analysis

/-!
Sets of items, their closure and the sets they lead to.

An item is a production with a dot in its right side, and the terminals that can follow it. Its
core is the item without these lookaheads. An item set holds each core once, in increasing order of
production and dot, and its closure adds what the symbols behind the dots can begin with.
-/

namespace ShiftReduce

/-- A production with a dot before the symbol at index `dot` of its right side. -/
structure Core where
  production : Nat
  dot : Nat
deriving DecidableEq, Repr, Inhabited

namespace Core

/-- Cores are ordered by production, then by dot. -/
def before (left right : Core) : Bool :=
  left.production < right.production ||
    left.production == right.production && left.dot < right.dot

/-- The dot one symbol further. -/
def advance (core : Core) : Core :=
  ⟨core.production, core.dot + 1⟩

end Core

/-- Cores with their lookaheads, in increasing order of the cores. -/
abbrev ItemSet := List (Core × IdSet)

namespace ItemSet

/-- The cores of the items. -/
def cores (items : ItemSet) : List Core :=
  items.map (·.1)

/-- The lookaheads of a core; none for a core that is not there. -/
def lookaheads (items : ItemSet) (core : Core) : IdSet :=
  (items.lookup core).getD []

/-- Adds a core, or lookaheads to a core that is there, and says whether anything changed. -/
def add (core : Core) (lookaheads : IdSet) : ItemSet -> ItemSet × Bool
  | [] => ([(core, lookaheads)], true)
  | (head, known) :: rest =>
    if core = head then
      let merged := known.union lookaheads
      ((head, merged) :: rest, merged.length != known.length)
    else if core.before head then ((core, lookaheads) :: (head, known) :: rest, true)
    else
      let (rest, changed) := add core lookaheads rest
      ((head, known) :: rest, changed)

/-- Adds every item of a set, and says whether anything changed. -/
def addAll (items new : ItemSet) : ItemSet × Bool :=
  new.foldl
    (fun (items, changed) (core, lookaheads) =>
      let (items, more) := items.add core lookaheads
      (items, changed || more))
    (items, false)

end ItemSet

namespace Analysis

/-- Adds the productions in `productions`, dot at the front, with the given lookaheads. The second
result lists the cores that were new or gained a lookahead, the last of them first. -/
def addProductions (lookaheads : IdSet) (items : ItemSet) (productions : List Nat) :
    ItemSet × List Core :=
  productions.foldl
    (fun (items, touched) production =>
      let core : Core := ⟨production, 0⟩
      let (items, changed) := items.add core lookaheads
      (items, if changed then core :: touched else touched))
    (items, [])

/-- The items that a core of the set calls for, added to the set, and the cores that this
touched. -/
def expandCore (analysis : Analysis) (items : ItemSet) (core : Core) : ItemSet × List Core :=
  match analysis.fromDot core.production core.dot with
  | [] => (items, [])
  | next :: rest =>
    addProductions (analysis.firstOfSequence rest (items.lookaheads core)) items
      (analysis.productionsOf.getD next [])

/-- Expands the cores in `work` and all those touched on the way, at most `bound` of them. -/
def closeWithin (analysis : Analysis) : Nat -> List Core -> ItemSet -> ItemSet
  | 0, _, items => items
  | _ + 1, [], items => items
  | bound + 1, core :: work, items =>
    let (items, touched) := analysis.expandCore items core
    closeWithin analysis bound (touched ++ work) items

/-- How often a core can be expanded during a closure: once for each item of the kernel, once for
each production that is added, and once for each lookahead that an item gains. -/
def closureBound (analysis : Analysis) (kernel : ItemSet) : Nat :=
  (kernel.length + analysis.vocabulary.productions.size) *
    (analysis.vocabulary.names.size + 2)

/-- The kernel with everything that the symbols behind its dots call for. -/
def closure (analysis : Analysis) (kernel : ItemSet) : ItemSet :=
  analysis.closeWithin (analysis.closureBound kernel) kernel.cores kernel

/-- The symbol behind the dot of a core, if there is one. -/
def nextSymbol? (analysis : Analysis) (core : Core) : Option Nat :=
  (analysis.fromDot core.production core.dot).head?

/-- The symbols behind the dots of a set of items, in increasing order. -/
def nextSymbols (analysis : Analysis) (items : ItemSet) : IdSet :=
  IdSet.ofList (items.filterMap fun (core, _) => analysis.nextSymbol? core)

/-- The items that have `symbol` behind the dot, with the dot moved over it. -/
def goto (analysis : Analysis) (items : ItemSet) (symbol : Nat) : ItemSet :=
  items.filterMap fun (core, lookaheads) =>
    if analysis.nextSymbol? core = some symbol then some (core.advance, lookaheads) else none

/-- The kernels that a set of items leads to, with the symbol that leads to each. -/
def gotos (analysis : Analysis) (items : ItemSet) : List (Nat × ItemSet) :=
  (analysis.nextSymbols items).map fun symbol => (symbol, analysis.goto items symbol)

/-- Whether the dot of a core is at the end. -/
def isComplete (analysis : Analysis) (core : Core) : Bool :=
  (analysis.fromDot core.production core.dot).isEmpty

/-- The items a parse starts from: every production of the root, followed by the end of the
input. -/
def startKernel (analysis : Analysis) (root : Nat) : ItemSet :=
  (analysis.productionsOf.getD root []).map fun production => (⟨production, 0⟩, [Vocabulary.endId])

end Analysis
end ShiftReduce
