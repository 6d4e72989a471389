import ShiftReduce.Parse.Tree
import ShiftReduce.Proofs.Grammar.Admissible
import ShiftReduce.Proofs.Grammar.DerivationTrees
import ShiftReduce.Proofs.Table.Rows

namespace ShiftReduce

/-!
# Parse trees and derivation trees

A derivation tree of the plain grammar shows the helpers, and a parse tree shows the grammar as it was
written.  The parse tree is made from the derivation tree by giving the children of every helper to
the node around it.

Parse trees are also described without helpers.  A forest interprets a row of symbols: a name of a
token by a leaf, the name of a rule by a node over a forest of one of its productions, and an operator
by a forest of a sequence that it stands for.  Both descriptions agree if an operator stands for what
its helper can grow to.  A helper with an upper bound grows beyond it, for it is the collection that
counts and not the table, unless the bound is the lower one as well.
-/

namespace DerivationTree

variable (plain : PlainGrammar) (keep : Token -> Bool)

/-- The leaf of a token, if it is kept. -/
def leavesOf (token : Token) : List ParseTree :=
  if keep token then [.leaf token] else []

/-- The node that a reduction of the production makes of its children. -/
def pendingOf (production : Nat) (children : List ParseTree) : PendingNode :=
  match plain.productions[production]? with
  | some pair => ⟨(PlainGrammar.reduceRule pair).reportedAs, children, pair.1.helper⟩
  | none => ⟨"", children, false⟩

mutual

/-- What a tree adds to the children of the node around it. -/
def planted : DerivationTree Token -> List ParseTree
  | .leaf token => leavesOf keep token
  | .node production children =>
    (pendingOf plain production (plantedOfEach children)).contribution

/-- What a row of trees adds to the children of the node around it. -/
def plantedOfEach : List (DerivationTree Token) -> List ParseTree
  | [] => []
  | tree :: rest => planted tree ++ plantedOfEach rest

end

variable {plain} {keep}

theorem plantedOfEach_singleton (tree : DerivationTree Token) :
    plantedOfEach plain keep [tree] = planted plain keep tree :=
  List.append_nil _

end DerivationTree

namespace Symbol

/-- The sequences that the helper of an operator stands for. -/
inductive Admits : Symbol -> List Symbol -> Prop where
  | repeat0 (body : List Symbol) (count : Nat) :
      Admits (.repeat0 body) (List.replicate count body).flatten
  | repeat1 (body : List Symbol) (count : Nat) (positive : 1 ≤ count) :
      Admits (.repeat1 body) (List.replicate count body).flatten
  | absent (body : List Symbol) : Admits (.optional body) []
  | present (body : List Symbol) : Admits (.optional body) body
  | branch (branches : List (List Symbol)) (branch : List Symbol) (member : branch ∈ branches) :
      Admits (.alternation branches) branch
  | bounded (least most : Nat) (body : List Symbol) (count : Nat) (enough : least ≤ count)
      (exact : most ≠ 0 -> most = least -> count = least) :
      Admits (.bounded least most body) (List.replicate count body).flatten

open Draft

/-- What an operator unfolds to is what its helper stands for. -/
theorem Unfolds.admits {symbol : Symbol} {unfolded : List Symbol}
    (unfolds : symbol.Unfolds unfolded) : symbol.Admits unfolded := by
  cases unfolds with
  | repeat0 body count => exact .repeat0 body count
  | repeat1 body count positive => exact .repeat1 body count positive
  | absent body => exact .absent body
  | present body => exact .present _
  | branch branches branch member => exact .branch branches _ member
  | bounded least most body count enough limited =>
      refine .bounded least most body count enough fun limit same => ?_
      exact Nat.le_antisymm (same ▸ limited limit) enough

/-- A helper stands for copies of the body if there are enough, and not too many unless it grows. -/
theorem Admits.of_copies {symbol : Symbol} {least most : Nat} {body : List Symbol}
    (repeats : repetition? symbol = some (least, most, body)) {count : Nat} (enough : least ≤ count)
    (allowed : Within least most count ∨ CanGrow symbol) : symbol.Admits (repeated count body) := by
  rcases allowed with within | grows
  · exact (Unfolds.of_within repeats within).admits
  · cases symbol with
    | name word => cases repeats
    | repeat0 inner =>
        cases repeats
        exact .repeat0 body count
    | repeat1 inner =>
        cases repeats
        exact .repeat1 body count enough
    | optional inner => exact grows.elim
    | alternation branches => cases repeats
    | bounded fewest greatest inner =>
        cases repeats
        refine .bounded least most body count enough fun limit same => ?_
        exact (grows.elim limit fun other => other same).elim

/-- A helper stands for such copies of the body, or for a branch. -/
theorem Admits.cases {symbol : Symbol} {unfolded : List Symbol} (admits : symbol.Admits unfolded) :
    (Exists fun least => Exists fun most => Exists fun body => Exists fun count =>
      repetition? symbol = some (least, most, body) ∧ least ≤ count ∧
        (Within least most count ∨ CanGrow symbol) ∧ unfolded = repeated count body) ∨
      Exists fun branches => symbol = .alternation branches ∧ unfolded ∈ branches := by
  cases admits with
  | repeat0 body count => exact Or.inl ⟨0, 0, body, count, rfl, Nat.zero_le _, Or.inr trivial, rfl⟩
  | repeat1 body count positive =>
      exact Or.inl ⟨1, 0, body, count, rfl, positive, Or.inr trivial, rfl⟩
  | absent body =>
      refine Or.inl ⟨0, 1, body, 0, rfl, Nat.le_refl _, Or.inl ⟨Nat.le_refl _, ?_⟩, rfl⟩
      exact Or.inr (Nat.zero_le _)
  | present body =>
      refine Or.inl ⟨0, 1, unfolded, 1, rfl, Nat.zero_le _, Or.inl ⟨Nat.zero_le _, ?_⟩, ?_⟩
      · exact Or.inr (Nat.le_refl _)
      · exact (repeated_one unfolded).symm
  | branch branches branch member => exact Or.inr ⟨branches, rfl, member⟩
  | bounded least most body count enough exactly =>
      refine Or.inl ⟨least, most, body, count, rfl, enough, ?_, rfl⟩
      by_cases grows : most = 0 ∨ most ≠ least
      · exact Or.inr grows
      · refine Or.inl ⟨enough, Or.inr ?_⟩
        have same : most = least := by omega
        exact Nat.le_of_eq ((exactly (by omega) same).trans same.symm)

theorem asName?_of_admits {symbol : Symbol} {unfolded : List Symbol}
    (admits : symbol.Admits unfolded) : symbol.asName? = none := by
  cases admits <;> rfl

/-- What a helper stands for is made of the symbols inside its operator. -/
theorem Admits.mem_children {symbol : Symbol} {unfolded : List Symbol}
    (admits : symbol.Admits unfolded) {child : Symbol} (member : child ∈ unfolded) :
    child ∈ symbol.children := by
  have copied : forall (body : List Symbol) (count : Nat),
      child ∈ (List.replicate count body).flatten -> child ∈ body := by
    intro body count inside
    rcases List.mem_flatten.mp inside with ⟨copy, listed, inCopy⟩
    exact List.eq_of_mem_replicate listed ▸ inCopy
  cases admits with
  | repeat0 body count => exact copied body count member
  | repeat1 body count => exact copied body count member
  | absent body => cases member
  | present => exact member
  | branch branches _ listed => exact List.mem_flatten.mpr ⟨unfolded, listed, member⟩
  | bounded least most body count => exact copied body count member

end Symbol

namespace Grammar

open Draft DerivationTree

/-- The trees interpret the symbols, and the word is what they stand for. `opens` says which sequences
an operator stands for. -/
inductive Forest (grammar : Grammar) (opens : Symbol -> List Symbol -> Prop)
    (keep : Token -> Bool) : List Symbol -> List ParseTree -> List Token -> Prop where
  | nil : Forest grammar opens keep [] [] []
  | token (token : Token) (rest : List Symbol) (trees : List ParseTree) (back : List Token)
      (terminal : token.name ∉ grammar.ruleNames) (later : Forest grammar opens keep rest trees back) :
      Forest grammar opens keep (.name token.name :: rest) (leavesOf keep token ++ trees)
        (token :: back)
  | rule (rule : Rule) (production : Production) (rest : List Symbol)
      (children trees : List ParseTree) (front back : List Token) (listed : rule ∈ grammar.rules)
      (chosen : production ∈ rule.productions)
      (body : Forest grammar opens keep production.symbols children front)
      (later : Forest grammar opens keep rest trees back) :
      Forest grammar opens keep (.name rule.name :: rest)
        (.node (production.label.getD rule.name) children :: trees) (front ++ back)
  | operator (symbol : Symbol) (unfolded rest : List Symbol) (inner trees : List ParseTree)
      (front back : List Token) (opened : opens symbol unfolded)
      (body : Forest grammar opens keep unfolded inner front)
      (later : Forest grammar opens keep rest trees back) :
      Forest grammar opens keep (symbol :: rest) (inner ++ trees) (front ++ back)

variable {grammar : Grammar} {plain : PlainGrammar} {opens : Symbol -> List Symbol -> Prop}
  {keep : Token -> Bool}

theorem leavesOfEach_append (first second : List ParseTree) :
    ParseTree.leavesOfEach (first ++ second) =
      ParseTree.leavesOfEach first ++ ParseTree.leavesOfEach second := by
  induction first with
  | nil => rfl
  | cons tree rest inductionHypothesis =>
      rw [List.cons_append, ParseTree.leavesOfEach, ParseTree.leavesOfEach, inductionHypothesis,
        List.append_assoc]

/-- The leaves of the trees are the tokens that are kept. -/
theorem Forest.leaves {symbols : List Symbol} {trees : List ParseTree} {word : List Token}
    (forest : Forest grammar opens keep symbols trees word) :
    ParseTree.leavesOfEach trees = word.filter keep := by
  induction forest with
  | nil => rfl
  | token token rest trees back _ _ inductionHypothesis =>
      rw [leavesOfEach_append, inductionHypothesis, List.filter_cons]
      unfold leavesOf
      split <;> rfl
  | rule rule production rest children trees front back _ _ _ _ below beside =>
      rw [ParseTree.leavesOfEach, ParseTree.leaves, below, beside, List.filter_append]
  | operator symbol unfolded rest inner trees front back _ _ _ below beside =>
      rw [leavesOfEach_append, below, beside, List.filter_append]

theorem Forest.append {left right : List Symbol} {leftTrees rightTrees : List ParseTree}
    {front back : List Token} (first : Forest grammar opens keep left leftTrees front)
    (second : Forest grammar opens keep right rightTrees back) :
    Forest grammar opens keep (left ++ right) (leftTrees ++ rightTrees) (front ++ back) := by
  induction first with
  | nil => exact second
  | token token rest trees middle terminal _ inductionHypothesis =>
      rw [List.append_assoc]
      exact .token token _ _ _ terminal inductionHypothesis
  | rule rule production rest children trees inner middle listed chosen body _ _
      inductionHypothesis =>
      rw [List.append_assoc]
      exact .rule rule production _ children _ inner _ listed chosen body inductionHypothesis
  | operator symbol unfolded rest inner trees front middle opened body _ _ inductionHypothesis =>
      rw [List.append_assoc, List.append_assoc]
      exact .operator symbol unfolded _ inner _ front _ opened body inductionHypothesis

/-- If operators stand for what they unfold to, the symbols derive the word. -/
theorem Forest.derives {symbols : List Symbol} {trees : List ParseTree} {word : List Token}
    (forest : Forest grammar Symbol.Unfolds keep symbols trees word) :
    grammar.Derives symbols (word.map Token.name) := by
  induction forest with
  | nil => exact .nil
  | token token rest trees back terminal _ inductionHypothesis =>
      exact .token token.name rest _ terminal inductionHypothesis
  | rule rule production rest children trees front back listed chosen _ _ bodyHypothesis
      laterHypothesis =>
      rw [List.map_append]
      exact .rule rule production rest _ _ listed chosen bodyHypothesis laterHypothesis
  | operator symbol unfolded rest inner trees front back opened _ _ bodyHypothesis
      laterHypothesis =>
      rw [List.map_append]
      exact .operator symbol unfolded rest _ _ opened bodyHypothesis laterHypothesis

/-! ## From forests to derivation trees -/

/-- Wherever the symbol is written, a derivation tree of its name becomes these trees. -/
def Plantable (grammar : Grammar) (plain : PlainGrammar) (keep : Token -> Bool) (symbol : Symbol)
    (trees : List ParseTree) (word : List Token) : Prop :=
  forall (owner : Draft) (place index : Nat) (production : Production),
    Drafted grammar.drafts owner -> owner.productions[place]? = some production ->
    production.symbols[index]? = some symbol -> grammar.Writes symbol ->
    Exists fun tree =>
      plain.Grows Token.name [plainName owner.name place index symbol] [tree] word ∧
      planted plain keep tree = trees

/-- Symbols that are plantable, each with its part of the trees and of the word. -/
inductive EachPlantable (grammar : Grammar) (plain : PlainGrammar) (keep : Token -> Bool) :
    List Symbol -> List ParseTree -> List Token -> Prop where
  | nil : EachPlantable grammar plain keep [] [] []
  | cons (symbol : Symbol) (inner : List ParseTree) (front : List Token) (symbols : List Symbol)
      (trees : List ParseTree) (back : List Token)
      (first : Plantable grammar plain keep symbol inner front)
      (later : EachPlantable grammar plain keep symbols trees back) :
      EachPlantable grammar plain keep (symbol :: symbols) (inner ++ trees) (front ++ back)

theorem EachPlantable.split {left right : List Symbol} {trees : List ParseTree} {word : List Token}
    (each : EachPlantable grammar plain keep (left ++ right) trees word) :
    Exists fun leftTrees => Exists fun rightTrees => Exists fun front => Exists fun back =>
      trees = leftTrees ++ rightTrees ∧ word = front ++ back ∧
      EachPlantable grammar plain keep left leftTrees front ∧
      EachPlantable grammar plain keep right rightTrees back := by
  induction left generalizing trees word with
  | nil => exact ⟨[], trees, [], word, rfl, rfl, .nil, each⟩
  | cons symbol rest inductionHypothesis =>
      cases each with
      | cons _ inner front _ others remaining plantable later =>
          rcases inductionHypothesis later with
            ⟨leftTrees, rightTrees, middle, back, rfl, rfl, eachLeft, eachRight⟩
          exact ⟨inner ++ leftTrees, rightTrees, front ++ middle, back,
            (List.append_assoc _ _ _).symm, (List.append_assoc _ _ _).symm,
            .cons symbol inner front rest leftTrees middle plantable eachLeft, eachRight⟩

/-- The symbols of a production are planted by a row of derivation trees. -/
theorem EachPlantable.row {symbols : List Symbol} {trees : List ParseTree} {word : List Token}
    (each : EachPlantable grammar plain keep symbols trees word) {owner : Draft}
    (drafted : Drafted grammar.drafts owner) {place start : Nat} {production : Production}
    (found : owner.productions[place]? = some production)
    (inside : production.symbols.drop start = symbols)
    (writes : forall symbol, symbol ∈ symbols -> grammar.Writes symbol) :
    Exists fun row => plain.Grows Token.name (plainNames owner.name place start symbols) row word ∧
      plantedOfEach plain keep row = trees := by
  induction each generalizing start with
  | nil => exact ⟨[], .nil, rfl⟩
  | cons symbol inner front symbols trees back first _ inductionHypothesis =>
      have atStart : production.symbols[start]? = some symbol := by
        rw [← List.head?_drop, inside]
        rfl
      have after : production.symbols.drop (start + 1) = symbols := by
        rw [← List.tail_drop, inside]
        rfl
      rcases first owner place start production drafted found atStart
        (writes symbol List.mem_cons_self) with ⟨tree, grows, rfl⟩
      rcases inductionHypothesis after
        (fun other member => writes other (List.mem_cons_of_mem _ member)) with ⟨row, all, rfl⟩
      exact ⟨tree :: row, grows.append all, rfl⟩

/-- A production of a draft makes a node of a row of derivation trees. -/
theorem planted_node (made : grammar.toPlain = .ok plain) {draft : Draft}
    (drafted : Drafted grammar.drafts draft) {place : Nat} {production : Production}
    (found : draft.productions[place]? = some production) {row : List (DerivationTree Token)}
    {word : List Token}
    (grows : plain.Grows Token.name (plainNames draft.name place 0 production.symbols) row word) :
    Exists fun tree => plain.Grows Token.name [draft.name] [tree] word ∧
      planted plain keep tree = PendingNode.contribution
        ⟨production.label.getD draft.name, plantedOfEach plain keep row, draft.helper⟩ := by
  rcases List.getElem?_of_mem (plain_of_draft made drafted found) with ⟨number, known⟩
  refine ⟨.node number row, ?_, ?_⟩
  · have all := PlainGrammar.Grows.node number _ row word [] [] [] known grows .nil
    rwa [List.append_nil] at all
  · rw [planted, pendingOf, known]
    rfl

/-- A repetition grows to as many copies as there are. -/
theorem plantable_repetition (made : grammar.toPlain = .ok plain) {owner draft : Draft}
    (ownerDrafted : Drafted grammar.drafts owner) {place index : Nat} {symbol : Symbol}
    (helperOf : owner.HelperOf place index symbol draft) (fits : FloorFits symbol)
    {least most count : Nat}
    {body : List Symbol} (repeats : repetition? symbol = some (least, most, body))
    (enough : least ≤ count) (allowed : Within least most count ∨ CanGrow symbol)
    {trees : List ParseTree} {word : List Token}
    (each : EachPlantable grammar plain keep (repeated count body) trees word) :
    Exists fun tree => plain.Grows Token.name [draft.name] [tree] word ∧
      planted plain keep tree = trees := by
  have drafted : Drafted grammar.drafts draft := .helper _ _ _ _ _ ownerDrafted helperOf
  have writes := writes_operator ownerDrafted helperOf
  have covers := (expand_spec helperOf.operator helperOf.expanded).2
  rw [← helperOf.name] at covers
  rcases covers.counts fits least most body repeats count enough allowed with
    ⟨first, firstWithin, small, start, grow⟩
  have splices : forall inner, PendingNode.contribution ⟨draft.name, inner, draft.helper⟩ = inner := by
    intro inner
    unfold PendingNode.contribution
    rw [helperOf.isHelper, if_pos rfl]
  -- The repetition starts with `first` copies and grows from there.
  induction count, small using Nat.le_induction generalizing trees word with
  | base =>
      rcases List.getElem?_of_mem start with ⟨number, found⟩
      rcases each.row drafted found List.drop_zero (writes_repeated writes repeats first) with
        ⟨row, grows, rfl⟩
      rcases planted_node made drafted found grows with ⟨tree, all, same⟩
      exact ⟨tree, all, same.trans (splices _)⟩
  | succ count more inductionHypothesis =>
      have growing := grow (Nat.lt_succ_of_le more)
      have fewer : Within least most count ∨ CanGrow symbol :=
        allowed.imp_left fun within =>
          ⟨Nat.le_trans firstWithin.1 more, within.2.imp_right Nat.le_of_succ_le⟩
      rw [repeated_succ] at each
      rcases each.split with ⟨leftTrees, rightTrees, front, back, rfl, rfl, eachFront, eachBack⟩
      rcases inductionHypothesis (Nat.le_trans firstWithin.1 more) fewer eachFront fun _ => growing
        with ⟨before, growsBefore, rfl⟩
      rcases List.getElem?_of_mem growing with ⟨number, found⟩
      have inside : (Symbol.name draft.name :: body).drop 1 = body := rfl
      rcases eachBack.row drafted found inside (writes_body writes repeats) with
        ⟨row, growsRow, rfl⟩
      rcases planted_node made drafted found (growsBefore.append growsRow) with ⟨tree, all, same⟩
      exact ⟨tree, all, same.trans (splices _)⟩

/-- A choice grows to one of its branches. -/
theorem plantable_branch (made : grammar.toPlain = .ok plain) {owner draft : Draft}
    (ownerDrafted : Drafted grammar.drafts owner) {place index : Nat}
    {branches : List (List Symbol)}
    (helperOf : owner.HelperOf place index (.alternation branches) draft) {branch : List Symbol}
    (member : branch ∈ branches) {trees : List ParseTree} {word : List Token}
    (each : EachPlantable grammar plain keep branch trees word) :
    Exists fun tree => plain.Grows Token.name [draft.name] [tree] word ∧
      planted plain keep tree = trees := by
  have drafted : Drafted grammar.drafts draft := .helper _ _ _ _ _ ownerDrafted helperOf
  have writes := writes_branch (writes_operator ownerDrafted helperOf) member
  have covers := (expand_spec helperOf.operator helperOf.expanded).2
  rcases List.getElem?_of_mem (covers.branches branches rfl branch member) with ⟨number, found⟩
  rcases each.row drafted found List.drop_zero writes with ⟨row, grows, rfl⟩
  rcases planted_node made drafted found grows with ⟨tree, all, same⟩
  refine ⟨tree, all, same.trans ?_⟩
  unfold PendingNode.contribution
  rw [helperOf.isHelper, if_pos rfl]

theorem plantable_operator (fits : grammar.FloorsFit) (made : grammar.toPlain = .ok plain)
    {symbol : Symbol}
    {unfolded : List Symbol} (admits : symbol.Admits unfolded) {trees : List ParseTree}
    {word : List Token} (each : EachPlantable grammar plain keep unfolded trees word) :
    Plantable grammar plain keep symbol trees word := by
  intro owner place index production drafted found inside _
  have operator := Symbol.asName?_of_admits admits
  rcases (toPlain_eq made).2.1 owner drafted place index production symbol found inside
    operator with ⟨draft, helperOf⟩
  rw [plainName_operator operator, ← helperOf.name]
  rcases admits.cases with
    ⟨least, most, body, count, repeats, enough, allowed, rfl⟩ | ⟨branches, rfl, member⟩
  · exact plantable_repetition made drafted helperOf (fits symbol (writes_operator drafted helperOf))
      repeats enough allowed each
  · exact plantable_branch made drafted helperOf member each

theorem plantable_token (apart : grammar.HelpersApart) (made : grammar.toPlain = .ok plain)
    {token : Token} (terminal : token.name ∉ grammar.ruleNames) :
    Plantable grammar plain keep (.name token.name) (leavesOf keep token) [token] := by
  intro owner place index production _ _ _ writes
  have isTerminal := not_nonterminal apart made terminal (mem_names_of_writes writes)
  exact ⟨.leaf token, .leaf token [] [] [] isTerminal .nil, rfl⟩

/-- A production of a rule becomes a node over a row of derivation trees. -/
theorem plantable_rule (made : grammar.toPlain = .ok plain) {rule : Rule}
    (listed : rule ∈ grammar.rules) {production : Production}
    (chosen : production ∈ rule.productions) {children : List ParseTree} {word : List Token}
    (each : EachPlantable grammar plain keep production.symbols children word) :
    Exists fun tree => plain.Grows Token.name [rule.name] [tree] word ∧
      planted plain keep tree = [.node (production.label.getD rule.name) children] := by
  rcases List.getElem?_of_mem chosen with ⟨place, found⟩
  have writes : forall symbol, symbol ∈ production.symbols -> grammar.Writes symbol :=
    fun symbol inside => ⟨rule, production, symbol, listed, chosen, inside, .refl symbol⟩
  have drafted := Drafted.listed _ (mem_drafts_of_rule listed)
  rcases each.row drafted found List.drop_zero writes with ⟨row, grows, rfl⟩
  exact planted_node made drafted found grows

/-- The symbols of a forest are plantable. -/
theorem Forest.eachPlantable (fits : grammar.FloorsFit) (apart : grammar.HelpersApart)
    (made : grammar.toPlain = .ok plain)
    (admits : forall symbol unfolded, opens symbol unfolded -> symbol.Admits unfolded)
    {symbols : List Symbol} {trees : List ParseTree} {word : List Token}
    (forest : Forest grammar opens keep symbols trees word) :
    EachPlantable grammar plain keep symbols trees word := by
  induction forest with
  | nil => exact .nil
  | token token rest trees back terminal _ inductionHypothesis =>
      exact .cons (.name token.name) (leavesOf keep token) [token] rest trees back
        (plantable_token apart made terminal) inductionHypothesis
  | rule rule production rest children trees front back listed chosen _ _ bodyHypothesis
      laterHypothesis =>
      refine .cons (.name rule.name) [_] front rest trees back ?_ laterHypothesis
      exact fun _ _ _ _ _ _ _ _ => plantable_rule made listed chosen bodyHypothesis
  | operator symbol unfolded rest inner trees front back opened _ _ bodyHypothesis
      laterHypothesis =>
      exact .cons symbol inner front rest trees back
        (plantable_operator fits made (admits symbol unfolded opened) bodyHypothesis) laterHypothesis

/-- Every forest of a rule is that of a derivation tree. -/
theorem Forest.grows (fits : grammar.FloorsFit) (apart : grammar.HelpersApart)
    (made : grammar.toPlain = .ok plain)
    (admits : forall symbol unfolded, opens symbol unfolded -> symbol.Admits unfolded)
    {name : String} (isRule : name ∈ grammar.ruleNames) {trees : List ParseTree} {word : List Token}
    (forest : Forest grammar opens keep [.name name] trees word) :
    Exists fun tree => plain.Grows Token.name [name] [tree] word ∧
      planted plain keep tree = trees := by
  generalize symbols : [Symbol.name name] = row at forest
  cases forest with
  | nil => cases symbols
  | token token rest trees back terminal later =>
      cases symbols
      exact (terminal isRule).elim
  | rule rule production rest children trees front back listed chosen body later =>
      cases symbols
      cases later
      rw [List.append_nil]
      exact plantable_rule made listed chosen (body.eachPlantable fits apart made admits)
  | operator symbol unfolded rest inner trees front back opened body later =>
      cases symbols
      cases Symbol.asName?_of_admits (admits _ _ opened)

/-! ## From derivation trees to forests -/

/-- What a derivation tree under the name becomes, and what it stands for. -/
inductive Stands (grammar : Grammar) (keep : Token -> Bool) :
    String -> List ParseTree -> List Token -> Prop where
  | token (token : Token) (terminal : token.name ∉ grammar.allRuleNames) :
      Stands grammar keep token.name (leavesOf keep token) [token]
  | rule (rule : Rule) (production : Production) (children : List ParseTree) (word : List Token)
      (listed : rule ∈ grammar.rules) (chosen : production ∈ rule.productions)
      (forest : Forest grammar Symbol.Admits keep production.symbols children word) :
      Stands grammar keep rule.name [.node (production.label.getD rule.name) children] word
  | helper (owner draft : Draft) (place index : Nat) (symbol : Symbol) (unfolded : List Symbol)
      (trees : List ParseTree) (word : List Token) (ownerDrafted : Drafted grammar.drafts owner)
      (helperOf : owner.HelperOf place index symbol draft) (admits : symbol.Admits unfolded)
      (forest : Forest grammar Symbol.Admits keep unfolded trees word) :
      Stands grammar keep draft.name trees word

/-- What a row of derivation trees becomes. -/
inductive EachStands (grammar : Grammar) (keep : Token -> Bool) :
    List String -> List ParseTree -> List Token -> Prop where
  | nil : EachStands grammar keep [] [] []
  | cons (name : String) (inner : List ParseTree) (front : List Token) (names : List String)
      (trees : List ParseTree) (back : List Token) (first : Stands grammar keep name inner front)
      (later : EachStands grammar keep names trees back) :
      EachStands grammar keep (name :: names) (inner ++ trees) (front ++ back)

/-- Under a name that is written there is a forest of that name. -/
theorem Stands.written (apart : grammar.HelpersApart) (made : grammar.toPlain = .ok plain)
    {name : String} {trees : List ParseTree} {word : List Token}
    (stands : Stands grammar keep name trees word) (written : name ∈ grammar.names) :
    Forest grammar Symbol.Admits keep [.name name] trees word := by
  cases stands with
  | token token terminal =>
      have outside := fun member => terminal (mem_allRuleNames_of_ruleNames made member)
      have single : Forest grammar Symbol.Admits keep [.name token.name] (leavesOf keep token ++ [])
          [token] := .token token [] [] [] outside .nil
      rwa [List.append_nil] at single
  | rule rule production children word listed chosen forest =>
      have single := Forest.rule rule production [] children [] word [] listed chosen forest .nil
      rwa [List.append_nil] at single
  | helper owner draft place index symbol unfolded _ _ ownerDrafted helperOf =>
      exact (apart.helper_apart made (.helper _ _ _ _ _ ownerDrafted helperOf)
        helperOf.isHelper written).elim

/-- Under the name of a helper there is a forest of what the helper stands for. -/
theorem Stands.gathered (apart : grammar.HelpersApart) (made : grammar.toPlain = .ok plain)
    {owner draft : Draft} (ownerDrafted : Drafted grammar.drafts owner) {place index : Nat}
    {symbol : Symbol} (helperOf : owner.HelperOf place index symbol draft) {name : String}
    {trees : List ParseTree} {word : List Token} (stands : Stands grammar keep name trees word)
    (isHelper : name = draft.name) :
    Exists fun unfolded => symbol.Admits unfolded ∧
      Forest grammar Symbol.Admits keep unfolded trees word := by
  have drafted : Drafted grammar.drafts draft := .helper _ _ _ _ _ ownerDrafted helperOf
  cases stands with
  | token token terminal => exact (terminal (isHelper ▸ mem_allRuleNames made drafted)).elim
  | rule rule production children word listed chosen forest =>
      have member : rule.name ∈ grammar.names :=
        List.mem_append_left _ (List.mem_map_of_mem listed)
      exact (apart.helper_apart made drafted helperOf.isHelper (isHelper ▸ member)).elim
  | helper other helper otherPlace otherIndex operator unfolded _ _ otherDrafted otherOf admits
      forest =>
      have same := apart.operator_unique made ownerDrafted otherDrafted helperOf otherOf
        isHelper.symm
      subst same
      exact ⟨unfolded, admits, forest⟩

/-- Under the name that stands for a symbol there is a forest of the symbol. -/
theorem Stands.symbol (apart : grammar.HelpersApart) (made : grammar.toPlain = .ok plain)
    {draft : Draft} (drafted : Drafted grammar.drafts draft) {place index : Nat}
    {production : Production} (found : draft.productions[place]? = some production)
    {symbol : Symbol} (inside : production.symbols[index]? = some symbol)
    (writes : grammar.Writes symbol) {trees : List ParseTree} {word : List Token}
    (stands : Stands grammar keep (plainName draft.name place index symbol) trees word) :
    Forest grammar Symbol.Admits keep [symbol] trees word := by
  cases isName : symbol.asName? with
  | some other =>
      have same := eq_name_of_asName? isName
      subst same
      exact stands.written apart made (mem_names_of_writes writes)
  | none =>
      rw [plainName_operator isName] at stands
      rcases (toPlain_eq made).2.1 draft drafted place index production symbol found inside isName
        with ⟨own, ownOf⟩
      rcases stands.gathered apart made drafted ownOf ownOf.name.symm with
        ⟨unfolded, admits, forest⟩
      have all := Forest.operator symbol unfolded [] trees [] word [] admits forest .nil
      rwa [List.append_nil, List.append_nil] at all

/-- Under the names of a production there is a forest of its symbols. -/
theorem EachStands.forest (apart : grammar.HelpersApart) (made : grammar.toPlain = .ok plain)
    {draft : Draft} (drafted : Drafted grammar.drafts draft) {place start : Nat}
    {production : Production} (found : draft.productions[place]? = some production)
    {symbols : List Symbol} (inside : production.symbols.drop start = symbols)
    (writes : forall symbol, symbol ∈ symbols -> grammar.Writes symbol) {trees : List ParseTree}
    {word : List Token}
    (each : EachStands grammar keep (plainNames draft.name place start symbols) trees word) :
    Forest grammar Symbol.Admits keep symbols trees word := by
  induction symbols generalizing start trees word with
  | nil =>
      cases each
      exact .nil
  | cons symbol rest inductionHypothesis =>
      have atStart : production.symbols[start]? = some symbol := by
        rw [← List.head?_drop, inside]
        rfl
      have after : production.symbols.drop (start + 1) = rest := by
        rw [← List.tail_drop, inside]
        rfl
      cases each with
      | cons _ inner front _ trees back first later =>
          have here := first.symbol apart made drafted found atStart
            (writes symbol List.mem_cons_self)
          exact here.append (inductionHypothesis after
            (fun other member => writes other (List.mem_cons_of_mem _ member)) later)

/-- A node of a production of a helper stands for what the helper stands for. -/
theorem stands_helper (fits : grammar.FloorsFit) (apart : grammar.HelpersApart)
    (made : grammar.toPlain = .ok plain) {owner draft : Draft}
    (ownerDrafted : Drafted grammar.drafts owner) {place index : Nat} {symbol : Symbol}
    (helperOf : owner.HelperOf place index symbol draft) {number : Nat}
    {production : Production} (found : draft.productions[number]? = some production)
    {trees : List ParseTree} {word : List Token}
    (below : EachStands grammar keep (plainNames draft.name number 0 production.symbols) trees word) :
    Stands grammar keep draft.name trees word := by
  have drafted : Drafted grammar.drafts draft := .helper _ _ _ _ _ ownerDrafted helperOf
  have writes := writes_operator ownerDrafted helperOf
  have spec := (expand_spec helperOf.operator helperOf.expanded).1 production
    (List.mem_of_getElem? found)
  rw [← helperOf.name] at spec
  cases spec with
  | start least most count body front repeats _ counts =>
      rcases counts (fits symbol writes) with ⟨within, rfl⟩
      have forest := below.forest apart made drafted found List.drop_zero
        (writes_repeated writes repeats count)
      exact .helper owner draft place index symbol _ trees word ownerDrafted helperOf
        (.of_copies repeats within.1 (Or.inl within)) forest
  | grow least most body repeats grows =>
      cases below with
      | cons _ inner front _ others back first later =>
          rcases first.gathered apart made ownerDrafted helperOf rfl with
            ⟨unfolded, admits, before⟩
          have inside : (Symbol.name draft.name :: body).drop 1 = body := rfl
          have last := later.forest apart made drafted found inside (writes_body writes repeats)
          rcases admits.cases with
            ⟨least', most', body', count, same, enough, _, rfl⟩ | ⟨branches, rfl, _⟩
          · cases repeats.symm.trans same
            have all := before.append last
            rw [← repeated_succ] at all
            exact .helper owner draft place index symbol _ _ _ ownerDrafted helperOf
              (.of_copies repeats (Nat.le_succ_of_le enough) (Or.inr grows)) all
          · cases repeats
  | branch branches branch choice member =>
      subst choice
      have forest := below.forest apart made drafted found List.drop_zero
        (writes_branch writes member)
      exact .helper owner draft place index _ _ trees word ownerDrafted helperOf
        (.branch branches _ member) forest

end Grammar

open Grammar DerivationTree Draft

variable {grammar : Grammar} {plain : PlainGrammar} {keep : Token -> Bool}

/-- A row of derivation trees becomes forests. -/
theorem PlainGrammar.Grows.eachStands (fits : grammar.FloorsFit) (apart : grammar.HelpersApart)
    (made : grammar.toPlain = .ok plain) {names : List String}
    {row : List (DerivationTree Token)} {word : List Token}
    (grows : plain.Grows Token.name names row word)
    (terminals : forall token, token ∈ word -> token.name ∉ grammar.allRuleNames) :
    EachStands grammar keep names (plantedOfEach plain keep row) word := by
  induction grows with
  | nil => exact .nil
  | leaf token names row word _ _ inductionHypothesis =>
      exact .cons token.name _ [token] names _ word (.token token (terminals token List.mem_cons_self))
        (inductionHypothesis fun other member => terminals other (List.mem_cons_of_mem _ member))
  | node number pair children inner names row word known _ _ belowHypothesis laterHypothesis =>
      have below := belowHypothesis fun token member =>
        terminals token (List.mem_append_left _ member)
      refine .cons pair.1.name _ inner names _ word ?_ (laterHypothesis fun token member =>
        terminals token (List.mem_append_right _ member))
      rw [planted, pendingOf, known]
      rcases draft_of_plain made (List.mem_of_getElem? known) with
        ⟨draft, place, production, drafted, found, rfl⟩
      dsimp only
      unfold PendingNode.contribution
      cases isHelper : draft.helper with
      | true =>
          have inPlain : draft.plainRule.helper = true := isHelper
          rcases operator_of_helper drafted isHelper with
            ⟨owner, ownerPlace, index, symbol, ownerDrafted, helperOf⟩
          rw [inPlain, if_pos rfl]
          exact stands_helper fits apart made ownerDrafted helperOf found below
      | false =>
          have inPlain : draft.plainRule.helper = false := isHelper
          have writes := (writes_of_drafted drafted (List.mem_of_getElem? found)).resolve_right
            fun own => Bool.false_ne_true (isHelper.symm.trans own.1)
          have forest := below.forest apart made drafted found List.drop_zero writes
          rw [inPlain, if_neg Bool.false_ne_true]
          cases drafted with
          | listed _ member =>
              rcases List.mem_map.mp member with ⟨rule, listed, rfl⟩
              exact .rule rule production _ inner listed (List.mem_of_getElem? found) forest
          | helper owner _ place index symbol _ helperOf =>
              cases isHelper.symm.trans helperOf.isHelper

/-- A derivation tree of a name that is written becomes a forest of that name. -/
theorem PlainGrammar.Grows.forest (fits : grammar.FloorsFit) (apart : grammar.HelpersApart)
    (made : grammar.toPlain = .ok plain) {name : String} (written : name ∈ grammar.names)
    {tree : DerivationTree Token} {word : List Token}
    (grows : plain.Grows Token.name [name] [tree] word)
    (terminals : forall token, token ∈ word -> token.name ∉ grammar.allRuleNames) :
    Forest grammar Symbol.Admits keep [.name name] (planted plain keep tree) word := by
  have each : EachStands grammar keep [name] (plantedOfEach plain keep [tree]) word :=
    grows.eachStands fits apart made terminals
  generalize trees : plantedOfEach plain keep [tree] = all at each
  cases each with
  | cons _ inner front _ others back first later =>
      cases later
      rw [List.append_nil] at trees ⊢
      rw [plantedOfEach_singleton] at trees
      rw [trees]
      exact first.written apart made written

end ShiftReduce
