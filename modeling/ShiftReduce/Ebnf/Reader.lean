import ShiftReduce.Ebnf.Lexeme
import ShiftReduce.Ebnf.Notation
import ShiftReduce.Grammar.Simplify
import ShiftReduce.Parse.Machine

/-!
Grammars read from the notation.

A text is parsed into a tree by the table of the notation, and the tree is turned into a grammar.
Three things that the grammar of the notation allows are refused here: a label inside a group, a
bound that is too large, and an upper bound of zero, which would read as no bound at all.
-/

namespace ShiftReduce
namespace Ebnf

/-- An alternative: its symbols, and the name behind its `@` if there is one. -/
structure Branch where
  symbols : List Symbol
  label : Option String
deriving DecidableEq, Repr

/-- The failure of meeting a tree that the grammar of the notation does not make. -/
def misshapen {α : Type} (tree : ParseTree) : Except NotationError α :=
  .error (.misshapenTree tree.title)

/-- The first token of that name among the children. -/
def tokenNamed? (tree : ParseTree) (name : String) : Option Token :=
  tree.tokens.find? (·.name == name)

/-- The first child that is a node. -/
def onlyNode (tree : ParseTree) : Except NotationError ParseTree :=
  match tree.nodes with
  | node :: _ => .ok node
  | [] => misshapen tree

/-- A name without its quotes. -/
def unquote (text : String) : String :=
  match text.toList with
  | [] => text
  | c :: rest => if c = '"' ∨ c = '\x27' then String.ofList rest.dropLast else text

/-- The largest bound of a repetition. -/
def boundLimit : Nat := Nat.pow 2 64 - 1

/-- The number that a token of digits writes. -/
def readNumber (token : Token) : Except NotationError Nat :=
  let value :=
    token.textOrEmpty.toList.foldl (fun value c => value * 10 + (c.toNat - '0'.toNat)) 0
  if boundLimit < value then .error (.invalidBound token.textOrEmpty token.position) else .ok value

/-- The sequence that a suffix applies to: what a group without alternatives holds, or the symbol
itself. -/
def sequenceOf : Symbol -> List Symbol
  | .alternation [branch] => branch
  | other => [other]

/-- A symbol with a suffix behind it. -/
def applySuffix (suffix : ParseTree) (symbol : Symbol) : Except NotationError Symbol := do
  let bounds := suffix.tokens.filter (·.name == "number")
  let numbers ← bounds.mapM readNumber
  match numbers.getLast?, bounds.getLast? with
  | some 0, some last =>
    if suffix.title ≠ "AtLeast" then .error (.invalidBound last.textOrEmpty last.position)
  | _, _ => pure ()
  let body := sequenceOf symbol
  match suffix.title, numbers with
  | "Star", [] => return .repeat0 body
  | "Plus", [] => return .repeat1 body
  | "Question", [] => return .optional body
  | "Exact", [count] => return .bounded count count body
  | "AtLeast", [min] => return .bounded min 0 body
  | "Between", [min, max] => return .bounded min max body
  | "AtMost", [max] => return .bounded 0 max body
  | _, _ => misshapen suffix

/-- The symbols of alternatives, none of which can have a label. -/
def withoutLabels (rule : String) : List Branch -> Except NotationError (List (List Symbol))
  | [] => .ok []
  | branch :: rest =>
    match branch.label with
    | some label => .error (.misplacedLabel rule label)
    | none => do
      let others ← withoutLabels rule rest
      return branch.symbols :: others

mutual

/-- The alternatives of a tree, nested at most `bound` groups deep. -/
def readAlternatives (rule : String) (bound : Nat) (tree : ParseTree) :
    Except NotationError (List Branch) :=
  tree.nodes.mapM (readSequence rule bound)

/-- An alternative. -/
def readSequence (rule : String) (bound : Nat) (tree : ParseTree) :
    Except NotationError Branch := do
  let symbols ← tree.nodes.mapM (readItem rule bound)
  return ⟨symbols, (tokenNamed? tree "ident").bind (·.text)⟩

/-- A name or a group, with its suffix. -/
def readItem (rule : String) (bound : Nat) (tree : ParseTree) : Except NotationError Symbol := do
  match tree.nodes with
  | [] => misshapen tree
  | atom :: suffixes =>
    let symbol ← readAtom rule bound atom
    match suffixes with
    | [] => return symbol
    | suffix :: _ => applySuffix suffix symbol

/-- A name or a group. -/
def readAtom (rule : String) (bound : Nat) (tree : ParseTree) : Except NotationError Symbol := do
  match bound with
  | 0 => misshapen tree
  | bound + 1 =>
    let group : Except NotationError (List (List Symbol)) := do
      let alternatives ← onlyNode tree
      let branches ← readAlternatives rule bound alternatives
      withoutLabels rule branches
    match tree.title with
    | "Name" => return .name (unquote ((tree.tokens.head?.map (·.textOrEmpty)).getD ""))
    | "Group" =>
      let branches ← group
      return .alternation branches
    | "Option" =>
      let branches ← group
      return .optional (sequenceOf (.alternation branches))
    | _ => misshapen tree

end

/-- The production of an alternative. The label `_` makes it silent. -/
def productionOf (branch : Branch) : Production :=
  match branch.label with
  | some "_" => { symbols := branch.symbols, emit := .none }
  | some label => { symbols := branch.symbols, label := some label }
  | none => { symbols := branch.symbols }

/-- The rule of a tree. -/
def readRule (tree : ParseTree) : Except NotationError Rule := do
  match (tokenNamed? tree "ident").bind (·.text) with
  | none => misshapen tree
  | some name =>
    let alternatives ← onlyNode tree
    let branches ← readAlternatives name (tree.depth + 1) alternatives
    return ⟨name, branches.map productionOf⟩

/-- What is needed to parse the notation. -/
def setting : Setting NotationText :=
  { table, source := NotationText.source, skip := [], keep := some fun _ => true }

/-- What is reported of a parse: its tree, or why there is none. -/
def treeOrReport : Except Outcome ParseTree -> Except NotationError ParseTree
  | .ok tree => .ok tree
  | .error (.stopped (.failed error)) => .error (.parse error)
  | .error _ => .error (.misshapenTree "")

/-- The tree of a text in the notation. -/
def parseText (text : String) : Except NotationError ParseTree :=
  treeOrReport (setting.parseTree (.start text)).tree

end Ebnf

namespace Grammar

/-- Reads a grammar written in the notation. The result is in normal form. -/
def ofText (text : String) : Except NotationError Grammar := do
  let tree ← Ebnf.parseText text
  let rules ← tree.nodes.mapM Ebnf.readRule
  return (ofRules rules).simplify

end Grammar
end ShiftReduce
