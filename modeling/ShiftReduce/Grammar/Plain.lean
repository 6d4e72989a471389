import ShiftReduce.Error
import ShiftReduce.Grammar.Basic

/-!
Plain grammars: the operators of EBNF rewritten into rules.

An operator that stands at index `i` of production `k` of rule `N` becomes a helper rule named
`N#k#i`. The productions of a helper say how its repetitions or branches are gathered, and the
production that the operator was written in merges what was gathered back in its place. The body
of an operator may hold further operators; they are rewritten in the same way, as operators of the
helper. Since a body is nested less deep than the operator around it, rewriting by levels of
nesting comes to an end.
-/

namespace ShiftReduce

/-- A production whose symbols are names. -/
structure PlainProduction where
  symbols : List String
  emit : Emit
  label : Option String
deriving DecidableEq, Repr, Inhabited

/-- A rule without operators. -/
structure PlainRule where
  name : String
  productions : List PlainProduction
  /-- Whether the rule stands for an operator. -/
  helper : Bool
deriving DecidableEq, Repr, Inhabited

/-- A grammar without operators. The first rule is the root. -/
structure PlainGrammar where
  rules : List PlainRule
deriving DecidableEq, Repr, Inhabited

namespace PlainProduction

/-- A production of the rule `name`, as listings show it. -/
def display (name : String) (production : PlainProduction) : String :=
  name ++ " ->" ++ String.join (production.symbols.map (" " ++ ·)) ++ "\n"

end PlainProduction

namespace PlainGrammar

/-- The name of the root; a grammar made from an EBNF grammar always has one. -/
def root (grammar : PlainGrammar) : String :=
  match grammar.rules with
  | [] => ""
  | rule :: _ => rule.name

/-- The first rule of that name. -/
def get? (grammar : PlainGrammar) (name : String) : Option PlainRule :=
  grammar.rules.find? (·.name == name)

/-- Whether the name is that of a helper rule. -/
def isHelper (grammar : PlainGrammar) (name : String) : Bool :=
  match grammar.get? name with
  | some rule => rule.helper
  | none => false

/-- A line for each production. -/
def display (grammar : PlainGrammar) : String :=
  String.join (grammar.rules.map fun rule =>
    String.join (rule.productions.map (PlainProduction.display rule.name)))

end PlainGrammar

/-- A rule that may still hold operators. -/
structure Draft where
  name : String
  productions : List Production
  helper : Bool
deriving DecidableEq, Repr, Inhabited

namespace Draft

/-- How deep operators are nested in a draft. -/
def depth (draft : Draft) : Nat :=
  (draft.productions.map fun production => Symbol.depthOfSequence production.symbols).foldl max 0

/-- The name of the helper rule for the operator at a place in a rule. -/
def helperName (owner : String) (production index : Nat) : String :=
  owner ++ "#" ++ toString production ++ "#" ++ toString index

/-- A sequence repeated a number of times. -/
def repeated (count : Nat) (body : List Symbol) : List Symbol :=
  (List.replicate count body).flatten

/-- The first symbols of a sequence that starts anew whenever it has ended. -/
def cycled (length : Nat) (body : List Symbol) : List Symbol :=
  repeated (length / body.length) body ++ body.take (length % body.length)

/-- Lengths are computed in words of 64 bits. -/
def wordSize : Nat := 18446744073709551616

/-- The copies that a bounded repetition starts with. If they are longer than a word can tell, only
what is left in the word is there. -/
def floor (min : Nat) (body : List Symbol) : List Symbol :=
  cycled (min * body.length % wordSize) body

/-- The productions of a helper rule for the operator `symbol` in the rule `owner`. A repetition
starts with as many copies as it needs and then grows at its right end; a branch is offered as it
is. -/
def expand (owner helper : String) (symbol : Symbol) : Except GrammarError (List Production) :=
  let repetition (max : Nat) (body symbols : List Symbol) : Production :=
    { symbols, emit := .repetition helper max body.length }
  let grown (body : List Symbol) : List Symbol := .name helper :: body
  let nonempty (body : List Symbol) (productions : List Production) :
      Except GrammarError (List Production) :=
    if body.isEmpty then .error (.emptyBody owner symbol.kind) else .ok productions
  match symbol with
  | .name _ => .ok [{ symbols := [symbol] }]
  | .repeat0 body =>
    nonempty body [repetition 0 body (grown body), repetition 0 body []]
  | .repeat1 body =>
    nonempty body [repetition 0 body (grown body), repetition 0 body body]
  | .optional body =>
    nonempty body [repetition 1 body body, repetition 1 body []]
  | .alternation branches =>
    if branches.isEmpty then .error (.emptyBody owner symbol.kind)
    else .ok (branches.map fun branch => { symbols := branch, emit := .choice helper })
  | .bounded min max body =>
    if body.isEmpty then .error (.emptyBody owner symbol.kind)
    else if max ≠ 0 ∧ max < min then .error (.invalidBounds owner min max)
    else
      let base := repetition max body (floor min body)
      if max = 0 ∨ max ≠ min then .ok [base, repetition max body (grown body)] else .ok [base]

/-- The names of a production's symbols, operators standing under the names of their helpers,
together with the drafts of these helpers. `index` is the place of the first symbol. -/
def rewriteSymbols (owner : String) (production : Nat) :
    Nat -> List Symbol -> Except GrammarError (List String × List Draft)
  | _, [] => .ok ([], [])
  | index, .name word :: rest => do
    let (names, helpers) ← rewriteSymbols owner production (index + 1) rest
    return (word :: names, helpers)
  | index, symbol :: rest => do
    let helper := helperName owner production index
    let productions ← expand owner helper symbol
    let (names, helpers) ← rewriteSymbols owner production (index + 1) rest
    return (helper :: names, ⟨helper, productions, true⟩ :: helpers)

/-- A production without its operators. It merges what helpers collect if it has any. -/
def rewriteProduction (owner : String) (index : Nat) (production : Production) :
    Except GrammarError (PlainProduction × List Draft) := do
  let (symbols, helpers) ← rewriteSymbols owner index 0 production.symbols
  let emit := if helpers.isEmpty then production.emit else .merge production.emit
  return (⟨symbols, emit, production.label⟩, helpers)

/-- Productions without their operators, the first of them numbered `index`. -/
def rewriteProductions (owner : String) :
    Nat -> List Production -> Except GrammarError (List PlainProduction × List Draft)
  | _, [] => .ok ([], [])
  | index, production :: rest => do
    let (plain, helpers) ← rewriteProduction owner index production
    let (others, more) ← rewriteProductions owner (index + 1) rest
    return (plain :: others, helpers ++ more)

/-- A rule without its operators, and the drafts of its helpers. -/
def rewrite (draft : Draft) : Except GrammarError (PlainRule × List Draft) := do
  let (productions, helpers) ← rewriteProductions draft.name 0 draft.productions
  return (⟨draft.name, productions, draft.helper⟩, helpers)

/-- Several rules without their operators, and the drafts of all their helpers. -/
def rewriteEach : List Draft -> Except GrammarError (List PlainRule × List Draft)
  | [] => .ok ([], [])
  | draft :: rest => do
    let (rule, helpers) ← draft.rewrite
    let (rules, more) ← rewriteEach rest
    return (rule :: rules, helpers ++ more)

/-- The rules of `drafts`, those of their helpers, those of the helpers' helpers and so on, for
`levels` levels of nesting. -/
def rewriteLevels : Nat -> List Draft -> Except GrammarError (List PlainRule)
  | 0, _ => .ok []
  | levels + 1, drafts =>
    if drafts.isEmpty then .ok []
    else do
      let (rules, helpers) ← rewriteEach drafts
      let more ← rewriteLevels levels helpers
      return rules ++ more

end Draft

namespace Grammar

/-- The rules of a grammar as drafts. -/
def drafts (grammar : Grammar) : List Draft :=
  grammar.rules.map fun rule => ⟨rule.name, rule.productions, false⟩

/-- How deep operators are nested in a grammar. -/
def depth (grammar : Grammar) : Nat :=
  (grammar.drafts.map Draft.depth).foldl max 0

/-- The plain grammar of a grammar. Its user-written rules come first and in order, then the
helpers of each level of nesting. -/
def toPlain (grammar : Grammar) : Except GrammarError PlainGrammar :=
  if grammar.isEmpty then .error .empty
  else do
    let rules ← Draft.rewriteLevels (grammar.depth + 1) grammar.drafts
    return ⟨rules⟩

end Grammar
end ShiftReduce
