import ShiftReduce.Lexer.Source
import ShiftReduce.Parse.Tree

/-!
Running a table over a source of tokens.

A machine has a stack of tokens, each with the state that it led to. A step either reads a token,
shifts one, or reduces a rule: the tokens of the rule's symbols are popped, its effect takes place,
and the rule itself is the next thing to be shifted, as a synthetic token. The real lookahead waits
meanwhile. The run accepts when the root is reduced at the end of the input and leaves the stack
empty.

One step is a function of the machine, and a run is steps until one of them ends it. A table that
reduces a rule to itself can go on for ever. What a run has come to after so many steps is a function
of their number, and a run that comes to an end does so after one of these numbers.
-/

namespace ShiftReduce

/-- What is to be shifted next. -/
inductive Lookahead where
  /-- The next token has to be read from the source. -/
  | unread
  /-- A token of the source, or the end of the input. -/
  | ready (token : Option Token)
  /-- A rule that has just been reduced; the lookahead behind it waits. -/
  | reduced (nonterminal : Token) (waiting : Option Token)
deriving DecidableEq, Repr

/-- A token on the stack, and the state it led to. -/
structure Frame where
  token : Token
  state : Nat
deriving DecidableEq, Repr, Inhabited

/-- How a run stands. -/
structure Machine (σ : Type) where
  /-- The tokens shifted and not yet reduced, latest first. -/
  stack : List Frame
  lookahead : Lookahead
  source : σ
  collections : Collections
  /-- The nodes made so far that wait for theirs; none if no tree is built. -/
  nodes : List PendingNode
  /-- The reports made so far, latest first. -/
  calls : List Call

namespace Machine

/-- A run that has not begun. -/
def start {σ : Type} (source : σ) : Machine σ :=
  ⟨[], .unread, source, [], [], []⟩

/-- The state on top of the stack, or the start state below it. -/
def state {σ : Type} (machine : Machine σ) : Nat :=
  match machine.stack with
  | frame :: _ => frame.state
  | [] => 0

end Machine

/-- How a run ends when its source has no answer. -/
def ReadError.halt : ReadError -> Halt
  | .lex error => .failed (.lex error)
  | .unclaimed => .unclaimed

/-- What a run needs besides the source's state, and what does not change while it goes on. -/
structure Setting (σ : Type) where
  table : Table
  source : TokenSource σ
  /-- The tokens that are dropped before they reach the table. -/
  skip : NameSet
  /-- Which tokens become leaves, if a tree is built. -/
  keep : Option (Token -> Bool)

/-- How a run ends. -/
inductive Outcome where
  | accepted
  | stopped (halt : Halt)
  /-- No step has ended the run. -/
  | unfinished
deriving DecidableEq, Repr

/-- The result of one step. -/
inductive Progress (σ : Type) where
  | running (machine : Machine σ)
  | ended (outcome : Outcome) (machine : Machine σ)

namespace Machine

variable {σ : Type}

/-- Ends a run by a failure. -/
def fail (machine : Machine σ) (error : ParseError) : Progress σ :=
  .ended (.stopped (.failed error)) machine

/-- Puts a token on the stack, and says what comes next. -/
def push (machine : Machine σ) (token : Token) (state : Nat) (lookahead : Lookahead) :
    Progress σ :=
  .running { machine with stack := ⟨token, state⟩ :: machine.stack, lookahead }

end Machine

namespace Frame

/-- The tokens of frames in the order in which they were shifted. -/
def tokensOf (frames : List Frame) : List Token :=
  (frames.map (·.token)).reverse

/-- Takes a token for each symbol from the stack, and checks that they have these names. The tokens
are in the order of the symbols. -/
def pop (symbols : List String) (stack : List Frame) :
    Except Halt (List Token × List Frame) :=
  if stack.length < symbols.length then
    .error (.failed (.internal (" ".intercalate symbols)
      (" ".intercalate ((tokensOf stack).map (·.name)))))
  else
    let popped := tokensOf (stack.take symbols.length)
    match (popped.zip symbols).find? fun (token, symbol) => token.name != symbol with
    | some (token, symbol) => .error (.failed (.internal symbol token.name))
    | none => .ok (popped, stack.drop symbols.length)

end Frame

namespace Setting

variable {σ : Type} (setting : Setting σ)

/-- The failure of a run that can do nothing with its lookahead. -/
def rejection (machine : Machine σ) (lookahead : Option Token) : ParseError :=
  match lookahead with
  | some token => .unexpected token
  | none => .unexpectedEnd (setting.source.position machine.source)

/-- Reads the next token; one that is skipped leaves the lookahead unread. -/
def read (machine : Machine σ) (state : TableState) : Progress σ :=
  match setting.source.next machine.source (.matching state.accepts) with
  | (.error error, source) => .ended (.stopped error.halt) { machine with source }
  | (.ok none, source) => .running { machine with source, lookahead := .ready none }
  | (.ok (some token), source) =>
    if token.name ∈ setting.skip then .running { machine with source }
    else .running { machine with source, lookahead := .ready (some token) }

/-- The nodes after a reduction. -/
def nodesAfter (rule : ReduceRule) (popped : List Token) (nodes : List PendingNode) :
    Except Halt (List PendingNode) :=
  match setting.keep with
  | some keep => PendingNode.reduce keep rule popped nodes
  | none => .ok nodes

/-- Where a reduced rule stands: at the last of its tokens, or else at the lookahead, or else at the
end of the input. -/
def placeOf (machine : Machine σ) (popped : List Token) (lookahead : Option Token) : Position :=
  match popped.getLast?, lookahead with
  | some token, _ => token.position
  | none, some token => token.position
  | none, none => setting.source.position machine.source

/-- Reduces a rule in front of the lookahead. -/
def reduce (machine : Machine σ) (rule : ReduceRule) (lookahead : Option Token) : Progress σ :=
  match Frame.pop rule.symbols machine.stack with
  | .error halt => .ended (.stopped halt) machine
  | .ok (popped, stack) =>
    match rule.reduce popped machine.collections with
    | .error halt => .ended (.stopped halt) machine
    | .ok (collections, call) =>
      let machine := { machine with stack, collections, calls := call.toList ++ machine.calls }
      match setting.nodesAfter rule popped machine.nodes with
      | .error halt => .ended (.stopped halt) machine
      | .ok nodes =>
        let machine := { machine with nodes }
        if lookahead.isNone ∧ stack.isEmpty ∧ rule.nonterminal = setting.table.root then
          .ended .accepted machine
        else
          let token := Token.synthetic rule.nonterminal (setting.placeOf machine popped lookahead)
          .running { machine with lookahead := .reduced token lookahead }

/-- Reduces the rule for the lookahead, or the one for the end of the input if there is none for
it. -/
def reduceFor (machine : Machine σ) (state : TableState) (lookahead : Option Token) :
    Progress σ :=
  let name := (lookahead.map (·.name)).getD ""
  match (state.reduce.get? name).or (state.reduce.get? "") with
  | none => machine.fail (setting.rejection machine lookahead)
  | some index =>
    match state.rules[index]? with
    | none => .ended (.stopped .outOfRange) machine
    | some rule => setting.reduce machine rule lookahead

/-- One step of a run. -/
def step (machine : Machine σ) : Progress σ :=
  match setting.table.states[machine.state]? with
  | none => .ended (.stopped .outOfRange) machine
  | some state =>
    match machine.lookahead with
    | .unread => setting.read machine state
    | .ready none => setting.reduceFor machine state none
    | .ready (some token) =>
      match state.shift.get? token.name with
      | some target => machine.push token target .unread
      | none =>
        if token.isSynthetic then
          machine.fail (.unexpectedEnd (setting.source.position machine.source))
        else setting.reduceFor machine state (some token)
    | .reduced nonterminal waiting =>
      match state.shift.get? nonterminal.name with
      | some target => machine.push nonterminal target (.ready waiting)
      | none => machine.fail (setting.rejection machine waiting)

/-- Takes at most `limit` steps. -/
def run : Nat -> Machine σ -> Outcome × Machine σ
  | 0, machine => (.unfinished, machine)
  | limit + 1, machine =>
    match setting.step machine with
    | .running machine => run limit machine
    | .ended outcome machine => (outcome, machine)

/-- Takes steps until one of them ends the run. Nothing comes of a run that goes on for ever. -/
def finish (setting : Setting σ) (machine : Machine σ) : Option (Outcome × Machine σ) :=
  match setting.step machine with
  | .running machine => setting |>.finish machine
  | .ended outcome machine => some (outcome, machine)
partial_fixpoint

/-- How a run ends, and the last machine of it. A run that goes on for ever stays unfinished where it
has begun. -/
def result (machine : Machine σ) : Outcome × Machine σ :=
  (setting.finish machine).getD (.unfinished, machine)

end Setting

/-- What a parse has come to: how it ended, and the reports made until then. -/
structure ParseResult where
  outcome : Outcome
  calls : List Call
deriving DecidableEq, Repr

/-- What a run has come to. -/
def ParseResult.ofRun {σ : Type} : Outcome × Machine σ -> ParseResult
  | (outcome, machine) => ⟨outcome, machine.calls.reverse⟩

/-- What a parse has come to that builds a tree. -/
structure TreeResult where
  tree : Except Outcome ParseTree
  calls : List Call

/-- What a run that builds a tree has come to. -/
def TreeResult.ofRun {σ : Type} : Outcome × Machine σ -> TreeResult
  | (.accepted, machine) =>
    match PendingNode.finish machine.nodes with
    | .ok tree => ⟨.ok tree, machine.calls.reverse⟩
    | .error halt => ⟨.error (.stopped halt), machine.calls.reverse⟩
  | (outcome, machine) => ⟨.error outcome, machine.calls.reverse⟩

namespace Setting

variable {σ : Type} (setting : Setting σ)

/-- Parses a source. -/
def parse (state : σ) : ParseResult :=
  .ofRun (setting.result (.start state))

/-- Parses a source and builds the tree. -/
def parseTree (state : σ) : TreeResult :=
  .ofRun (setting.result (.start state))

end Setting
end ShiftReduce
