import ShiftReduce.Automaton.Items

/-!
The LALR(1) automaton of a plain grammar.

A state is identified by the cores of its kernel. Construction keeps a queue of states. The state
in front is closed, and each kernel that it leads to either is a new state, which is queued, or
belongs to a state that is there; that state takes over the lookaheads, and is queued again if it
gained any. States are numbered in the order in which they are found. When the queue is empty,
every transition leads to a state that has all lookaheads its source passes on.
-/

namespace ShiftReduce

/-- A state: its kernel, and the state that each symbol leads to. -/
structure State where
  kernel : ItemSet
  transitions : List (Nat × Nat)
deriving DecidableEq, Repr, Inhabited

/-- An automaton under construction: the states found so far and those that have to be looked at,
first in first out. A state waits at most once. -/
structure Construction where
  states : Array State
  queue : List Nat
deriving Repr

namespace Construction

/-- The state whose kernel has exactly these cores. -/
def find? (construction : Construction) (cores : List Core) : Option Nat :=
  construction.states.findIdx? fun state => state.kernel.cores == cores

/-- Puts a state at the end of the queue, unless it is waiting already. -/
def enqueue (construction : Construction) (state : Nat) : Construction :=
  if state ∈ construction.queue then construction
  else { construction with queue := construction.queue ++ [state] }

/-- Records that `symbol` leads from one state to another. -/
def connect (construction : Construction) (source symbol target : Nat) : Construction :=
  { construction with
    states := construction.states.modify source fun state =>
      { state with
        transitions := state.transitions.filter (·.1 != symbol) ++ [(symbol, target)] } }

/-- Lets a state take over the lookaheads of `kernel`. It is queued if it gains any. -/
def spread (construction : Construction) (target : Nat) (kernel : ItemSet) : Construction :=
  match construction.states[target]? with
  | none => construction
  | some state =>
    let (merged, grew) := state.kernel.addAll kernel
    if grew then
      let states := construction.states.setIfInBounds target { state with kernel := merged }
      enqueue { construction with states } target
    else construction

/-- Takes note of a kernel that `symbol` leads to from `source`. -/
def absorb (source : Nat) (construction : Construction) (symbol : Nat) (kernel : ItemSet) :
    Construction :=
  match construction.find? kernel.cores with
  | some target => (construction.spread target kernel).connect source symbol target
  | none =>
    let target := construction.states.size
    connect ⟨construction.states.push ⟨kernel, []⟩, construction.queue ++ [target]⟩
      source symbol target

/-- Looks at the state in front of the queue. -/
def step (analysis : Analysis) (construction : Construction) : Construction :=
  match construction.queue with
  | [] => construction
  | source :: queue =>
    match construction.states[source]? with
    | none => { construction with queue }
    | some state =>
      (analysis.gotos (analysis.closure state.kernel)).foldl
        (fun construction (symbol, kernel) => construction.absorb source symbol kernel)
        { construction with queue }

/-- Looks at the states in the queue until it is empty, at most `bound` times. -/
def finish (analysis : Analysis) : Nat -> Construction -> Construction
  | 0, construction => construction
  | bound + 1, construction =>
    if construction.queue.isEmpty then construction
    else finish analysis bound (construction.step analysis)

end Construction

/-- An automaton: the analysis of its grammar and its states, the first of which is the start. -/
structure Automaton where
  grammar : PlainGrammar
  analysis : Analysis
  states : Array State
deriving Repr

namespace Automaton

/-- The number of cores that the productions of a grammar have. -/
def coreCount (analysis : Analysis) : Nat :=
  analysis.vocabulary.productions.foldl (fun count production => count + production.right.length + 1) 0

/-- How often a state can be looked at. There are no more states than sets of cores, and each is
looked at once and once more for every lookahead that a core of its kernel gains. -/
def constructionBound (analysis : Analysis) : Nat :=
  Nat.pow 2 (coreCount analysis) * (coreCount analysis * (analysis.vocabulary.names.size + 1) + 2)

/-- The automaton of a grammar. -/
def ofGrammar (grammar : PlainGrammar) : Automaton :=
  let analysis := Analysis.ofGrammar grammar
  let root := (analysis.vocabulary.id? grammar.root).getD Vocabulary.endId
  let start : Construction := ⟨#[⟨analysis.startKernel root, []⟩], [0]⟩
  { grammar, analysis
    states := (start.finish analysis (constructionBound analysis)).states }

/-- The items of a state. -/
def items (automaton : Automaton) (state : State) : ItemSet :=
  automaton.analysis.closure state.kernel

/-- The names of the terminals that the strings of a symbol begin with, by number; none if the
grammar has no such symbol. -/
def first? (automaton : Automaton) (name : String) : Option (List String) :=
  (automaton.analysis.vocabulary.id? name).map fun id =>
    (automaton.analysis.first.getD id []).map automaton.analysis.vocabulary.name

/-- Whether the grammar has the symbol and it derives the empty string. -/
def isNullable (automaton : Automaton) (name : String) : Bool :=
  match automaton.analysis.vocabulary.id? name with
  | some id => automaton.analysis.nullable.getD id false
  | none => false

end Automaton
end ShiftReduce
