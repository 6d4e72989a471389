import ShiftReduce.Proofs.Ebnf.Reading

namespace ShiftReduce

/-!
# Phrases of the notation

The notation is documented by a grammar of its own, in which a text is a list of rules, a rule has
alternatives, and an alternative is a sequence of items.  Three things are allowed by this grammar and
refused nevertheless: a label inside a group, a bound that no machine holds, and an upper bound of zero.
Below, the grammar is written down with these three restrictions where they apply, for tokens of which
only the names matter and the digits of numbers.

A phrase is read.  Whatever its tokens are, they are those of a parse tree, and every node of this tree
is one that the reader makes something of.  The proof follows the phrase and looks at one node at a
time, with a lemma for each way in which a phrase is put together.
-/

namespace Ebnf

/-- The parts that a text in the notation is made of. What is nested stands inside a group. -/
inductive Part where
  | grammar
  | rule
  | alternatives (nested : Bool)
  | others (nested : Bool)
  | sequence (nested : Bool)
  | items
  | item
  | atom
  | suffix
deriving DecidableEq, Repr

/-- The token is a number, and its value is one that a machine holds. -/
def IsBound (token : String × Option String) (value : Nat) : Prop :=
  token.1 = "number" ∧ Nat.ofDigitChars 10 (token.2.getD "").toList 0 = value ∧ value < 2 ^ 64

/-- The tokens with these names and texts make up such a part. -/
inductive Phrase : Part -> List (String × Option String) -> Prop where
  | noRules : Phrase .grammar []
  | rules (front back : List (String × Option String)) (first : Phrase .rule front)
      (later : Phrase .grammar back) : Phrase .grammar (front ++ back)
  | rule (name equals semicolon : String × Option String) (body : List (String × Option String))
      (isName : name.1 = "ident") (isEquals : equals.1 = "=") (isSemicolon : semicolon.1 = ";")
      (inside : Phrase (.alternatives false) body) :
      Phrase .rule (name :: equals :: (body ++ [semicolon]))
  | alternatives (nested : Bool) (front back : List (String × Option String))
      (first : Phrase (.sequence nested) front) (later : Phrase (.others nested) back) :
      Phrase (.alternatives nested) (front ++ back)
  | noOthers (nested : Bool) : Phrase (.others nested) []
  | others (nested : Bool) (bar : String × Option String)
      (front back : List (String × Option String)) (isBar : bar.1 = "|")
      (first : Phrase (.sequence nested) front) (later : Phrase (.others nested) back) :
      Phrase (.others nested) (bar :: (front ++ back))
  | sequence (nested : Bool) (body : List (String × Option String)) (inside : Phrase .items body) :
      Phrase (.sequence nested) body
  | labelled (body : List (String × Option String)) (sign label : String × Option String)
      (isSign : sign.1 = "@") (isLabel : label.1 = "ident") (inside : Phrase .items body) :
      Phrase (.sequence false) (body ++ [sign, label])
  | noItems : Phrase .items []
  | items (front back : List (String × Option String)) (first : Phrase .item front)
      (later : Phrase .items back) : Phrase .items (front ++ back)
  | item (body : List (String × Option String)) (inside : Phrase .atom body) : Phrase .item body
  | suffixed (front back : List (String × Option String)) (first : Phrase .atom front)
      (later : Phrase .suffix back) : Phrase .item (front ++ back)
  | name (token : String × Option String) (isName : token.1 = "ident" ∨ token.1 = "quoted") :
      Phrase .atom [token]
  | group (opening closing : String × Option String) (body : List (String × Option String))
      (opens : opening.1 = "(") (closes : closing.1 = ")")
      (inside : Phrase (.alternatives true) body) : Phrase .atom (opening :: (body ++ [closing]))
  | option (opening closing : String × Option String) (body : List (String × Option String))
      (opens : opening.1 = "[") (closes : closing.1 = "]")
      (inside : Phrase (.alternatives true) body) : Phrase .atom (opening :: (body ++ [closing]))
  | mark (token : String × Option String) (isMark : token.1 ∈ ["*", "+", "?"]) :
      Phrase .suffix [token]
  | exactly (opening count closing : String × Option String) (number : Nat)
      (opens : opening.1 = "\x7b") (closes : closing.1 = "\x7d") (counts : IsBound count number)
      (positive : number ≠ 0) : Phrase .suffix [opening, count, closing]
  | atLeast (opening least comma closing : String × Option String) (number : Nat)
      (opens : opening.1 = "\x7b") (separates : comma.1 = ",") (closes : closing.1 = "\x7d")
      (counts : IsBound least number) : Phrase .suffix [opening, least, comma, closing]
  | between (opening least comma most closing : String × Option String) (low high : Nat)
      (opens : opening.1 = "\x7b") (separates : comma.1 = ",") (closes : closing.1 = "\x7d")
      (fromLow : IsBound least low) (toHigh : IsBound most high) (positive : high ≠ 0) :
      Phrase .suffix [opening, least, comma, most, closing]
  | atMost (opening comma most closing : String × Option String) (high : Nat)
      (opens : opening.1 = "\x7b") (separates : comma.1 = ",") (closes : closing.1 = "\x7d")
      (toHigh : IsBound most high) (positive : high ≠ 0) :
      Phrase .suffix [opening, comma, most, closing]

end Ebnf

/-- A child is not as deep as its node. -/
theorem ParseTree.depth_lt_of_child (label : String) {children : List ParseTree} {tree : ParseTree}
    (member : tree ∈ children) : tree.depth < (ParseTree.node label children).depth := by
  rw [depth.eq_def (.node label children)]
  exact Nat.lt_succ_of_le (depth_le_of_mem member)

namespace Ebnf

/-! ## What is read of a part -/

/-- The reader makes something of a node that stands for such a part. -/
def Part.Reads : Part -> ParseTree -> Prop
  | .grammar, tree | .rule, tree => Exists fun rule => readRule tree = .ok rule
  | .alternatives nested, tree => forall rule bound, tree.depth ≤ bound ->
      Exists fun branches => readAlternatives rule bound tree = .ok branches ∧
        forall branch, branch ∈ branches -> nested = true -> branch.label = none
  | .others nested, tree | .sequence nested, tree => forall rule bound, tree.depth ≤ bound ->
      Exists fun branch => readSequence rule bound tree = .ok branch ∧
        (nested = true -> branch.label = none)
  | .items, tree | .item, tree => forall rule bound, tree.depth ≤ bound ->
      Exists fun symbol => readItem rule bound tree = .ok symbol
  | .atom, tree => forall rule bound, tree.depth ≤ bound ->
      Exists fun symbol => readAtom rule bound tree = .ok symbol
  | .suffix, tree => forall symbol, Exists fun suffixed => applySuffix tree symbol = .ok suffixed

/-- The trees are those of such a part over the word. -/
def Part.Forms : Part -> List ParseTree -> List Token -> Prop
  | .grammar => Copies [.name "rule"]
  | .rule => NotationForest [.name "rule"]
  | .alternatives _ => NotationForest [.name "alts"]
  | .others _ => Copies [.name "|", .name "seq"]
  | .sequence _ => NotationForest [.name "seq"]
  | .items => Copies [.name "item"]
  | .item => NotationForest [.name "item"]
  | .atom => NotationForest [.name "atom"]
  | .suffix => NotationForest [.name "suffix"]

/-- Tokens with these contents are those of trees whose nodes can be read. Only bars stand between
nodes. -/
def Legible (part : Part) (contents : List (String × Option String)) : Prop :=
  forall word : List Token, word.map Token.content = contents ->
    Exists fun trees => part.Forms trees word ∧ forall tree, tree ∈ trees ->
      (tree.isNode = false -> Exists fun nested => part = .others nested) ∧
      (tree.isNode = true -> part.Reads tree)

theorem forest_nil {trees : List ParseTree} {word : List Token}
    (forest : NotationForest [] trees word) : trees = [] ∧ word = [] := by
  generalize nothing : ([] : List Symbol) = symbols at forest
  cases forest with
  | nil => exact ⟨rfl, rfl⟩
  | token | rule | operator => cases nothing

/-- Under the name of a rule there is one node. -/
theorem forest_single {name : String} (isRule : name ∈ grammar.ruleNames) {trees : List ParseTree}
    {word : List Token} (forest : NotationForest [.name name] trees word) :
    Exists fun label => Exists fun children => trees = [.node label children] := by
  generalize symbols : [Symbol.name name] = row at forest
  cases forest with
  | nil => cases symbols
  | token token rest trees back terminal =>
      cases symbols
      exact (terminal isRule).elim
  | rule rule production rest children trees front back listed chosen body later =>
      cases symbols
      rw [(forest_nil later).1]
      exact ⟨_, children, rfl⟩
  | operator symbol unfolded rest inner trees front back opened =>
      cases symbols
      cases opened

section

variable {part one many : Part} {nested : Bool} {front back body : List (String × Option String)}

/-- A part that is a single node is read from it. -/
theorem Legible.node {name : String} (isRule : name ∈ grammar.ruleNames)
    (forms : part.Forms = NotationForest [.name name]) (legible : Legible part body)
    {word : List Token} (written : word.map Token.content = body) :
    Exists fun label => Exists fun children =>
      NotationForest [.name name] [.node label children] word ∧ part.Reads (.node label children) := by
  rcases legible word written with ⟨trees, forest, reads⟩
  rw [forms] at forest
  rcases forest_single isRule forest with ⟨label, children, rfl⟩
  exact ⟨label, children, forest, (reads _ (List.mem_singleton_self _)).2 rfl⟩

/-- What is a node by itself is legible if the node can be read. -/
theorem legible_node {name : String} (forms : part.Forms = NotationForest [.name name])
    (each : forall word : List Token, word.map Token.content = body ->
      Exists fun label => Exists fun children =>
        NotationForest [.name name] [.node label children] word ∧
          part.Reads (.node label children)) : Legible part body := by
  intro word written
  rcases each word written with ⟨label, children, forest, reads⟩
  refine ⟨[.node label children], forms ▸ forest, fun tree member => ?_⟩
  rw [List.mem_singleton.mp member]
  exact ⟨fun impossible => (by cases impossible), fun _ => reads⟩

/-! ## Parts that are lists -/

theorem legible_none {copied : List Symbol} (isMany : many.Forms = Copies copied) :
    Legible many [] := by
  intro word nothing
  rw [List.map_eq_nil_iff.mp nothing]
  exact ⟨[], isMany ▸ .nil copied, fun _ impossible => (List.not_mem_nil impossible).elim⟩

/-- One part more in front of others of its kind. -/
theorem Legible.cons {copied : List Symbol} (first : Legible one front) (later : Legible many back)
    (isOne : one.Forms = NotationForest copied) (isMany : many.Forms = Copies copied)
    (same : one.Reads = many.Reads) (bare : forall nested, one ≠ .others nested) :
    Legible many (front ++ back) := by
  intro word written
  rcases List.map_eq_append_iff.mp written with ⟨left, right, rfl, here, behind⟩
  rcases first left here with ⟨trees, forest, reads⟩
  rcases later right behind with ⟨others, copies, readsOthers⟩
  rw [isOne] at forest
  rw [isMany] at copies ⊢
  refine ⟨trees ++ others, .cons forest copies, fun tree member => ?_⟩
  rcases List.mem_append.mp member with early | late
  · refine ⟨fun leaf => ?_, same ▸ (reads tree early).2⟩
    rcases (reads tree early).1 leaf with ⟨nested, isOthers⟩
    exact (bare nested isOthers).elim
  · exact readsOthers tree late

/-- One alternative more, which has a bar in front. -/
theorem Legible.others {bar : String × Option String} (isBar : bar.1 = "|")
    (first : Legible (.sequence nested) front) (later : Legible (.others nested) back) :
    Legible (.others nested) (bar :: (front ++ back)) := by
  intro word written
  rcases List.map_eq_cons_iff.mp written with ⟨token, more, rfl, isToken, remaining⟩
  rcases List.map_eq_append_iff.mp remaining with ⟨left, right, rfl, here, behind⟩
  rcases first.node (by decide) rfl here with ⟨label, children, forest, reads⟩
  rcases later right behind with ⟨others, copies, readsOthers⟩
  have named : token.name = "|" := (congrArg Prod.fst isToken).trans isBar
  have barred : Copies [.name "|", .name "seq"] ([.leaf token, .node label children] ++ others)
      (token :: left ++ right) := .cons ((forest_leaf named (by decide)).append forest) copies
  refine ⟨_, barred, fun tree member => ?_⟩
  rcases List.mem_append.mp member with early | late
  · refine ⟨fun _ => ⟨nested, rfl⟩, fun isNode => ?_⟩
    rcases List.mem_pair.mp early with rfl | rfl
    · cases isNode
    · exact reads
  · exact readsOthers tree late

/-! ## Alternatives -/

/-- Alternatives are read if each of them is. -/
theorem legible_alternatives (first : Legible (.sequence nested) front)
    (later : Legible (.others nested) back) : Legible (.alternatives nested) (front ++ back) := by
  refine legible_node rfl fun word written => ?_
  rcases List.map_eq_append_iff.mp written with ⟨left, right, rfl, here, behind⟩
  rcases first.node (by decide) rfl here with ⟨label, children, forest, reads⟩
  rcases later right behind with ⟨others, copies, readsOthers⟩
  refine ⟨"alts", .node label children :: others,
    forest_node 2 0 rfl rfl (forest.append copies.repeat0), fun rule bound enough => ?_⟩
  have each : forall node, node ∈ (ParseTree.node "alts" (.node label children :: others)).nodes ->
      Exists fun branch => readSequence rule bound node = .ok branch ∧
        (nested = true -> branch.label = none) := by
    intro node member
    rcases List.mem_filter.mp member with ⟨below, isNode⟩
    have shallow := Nat.le_trans (ParseTree.depth_lt_of_child _ below).le enough
    rcases List.mem_cons.mp below with rfl | other
    · exact reads rule bound shallow
    · exact (readsOthers node other).2 isNode rule bound shallow
  rcases mapM_of_ok fun node member => (each node member).imp fun _ => And.left with
    ⟨branches, isRead⟩
  refine ⟨branches, ?_, fun branch member => ?_⟩
  · unfold readAlternatives
    exact isRead
  · rcases mem_of_mapM isRead member with ⟨node, inside, isBranch⟩
    rcases each node inside with ⟨other, again, unlabelled⟩
    rw [isBranch] at again
    exact Except.ok.inj again ▸ unlabelled

theorem filter_leaves (word : List Token) :
    (word.map ParseTree.leaf).filter ParseTree.isNode = [] := by
  rw [List.filter_eq_nil_iff]
  intro tree member
  rcases List.mem_map.mp member with ⟨token, _, rfl⟩
  exact Bool.false_ne_true

/-- Nodes in front of leaves are the nodes among them, and the leaves are the tokens. -/
theorem parts_of_nodes (label : String) {trees : List ParseTree}
    (areNodes : forall tree, tree ∈ trees -> tree.isNode = true) (word : List Token) :
    (ParseTree.node label (trees ++ word.map .leaf)).nodes = trees ∧
      (ParseTree.node label (trees ++ word.map .leaf)).tokens = word := by
  have tokens := tokens_leaves label word
  unfold ParseTree.nodes
  unfold ParseTree.tokens at tokens ⊢
  rw [ParseTree.children] at tokens ⊢
  rw [List.filter_append, filter_leaves, List.append_nil, List.filter_eq_self.mpr areNodes,
    List.filterMap_append, tokens, List.filterMap_eq_nil_iff.mpr, List.nil_append]
  · exact ⟨rfl, rfl⟩
  · intro tree member
    have isNode := areNodes tree member
    cases tree with
    | node => rfl
    | leaf => cases isNode

/-- A sequence is read if its items are, whatever stands behind them. -/
theorem legible_sequence {ending : List (String × Option String)} (items : Legible .items body)
    (bare : nested = true -> ending = [])
    (label : forall word : List Token, word.map Token.content = ending ->
      NotationForest [.optional [.name "@", .name "ident"]] (word.map .leaf) word) :
    Legible (.sequence nested) (body ++ ending) := by
  refine legible_node rfl fun word written => ?_
  rcases List.map_eq_append_iff.mp written with ⟨left, right, rfl, here, behind⟩
  rcases items left here with ⟨trees, copies, reads⟩
  refine ⟨"seq", trees ++ right.map .leaf,
    forest_node 3 0 rfl rfl (copies.repeat0.append (label right behind)),
    fun rule bound enough => ?_⟩
  have areNodes : forall tree, tree ∈ trees -> tree.isNode = true := by
    intro tree member
    by_contra isLeaf
    rcases (reads tree member).1 (Bool.eq_false_iff.mpr isLeaf) with ⟨nested, impossible⟩
    cases impossible
  rcases parts_of_nodes "seq" areNodes right with ⟨nodes, tokens⟩
  have each : forall tree, tree ∈ trees ->
      Exists fun symbol => readItem rule bound tree = .ok symbol := by
    intro tree member
    have below := ParseTree.depth_lt_of_child "seq"
      (List.mem_append_left (right.map .leaf) member)
    exact (reads tree member).2 (areNodes tree member) rule bound (Nat.le_trans below.le enough)
  rcases mapM_of_ok each with ⟨symbols, isRead⟩
  refine ⟨⟨symbols, (tokenNamed? (.node "seq" (trees ++ right.map .leaf)) "ident").bind (·.text)⟩,
    ?_, fun isNested => ?_⟩
  · unfold readSequence
    rw [nodes, isRead]
    rfl
  · rw [bare isNested, List.map_eq_nil_iff] at behind
    unfold tokenNamed?
    rw [tokens, behind]
    rfl

/-! ## Items -/

/-- An item is read if its name or group is, and perhaps its suffix. -/
theorem legible_item (atom : Legible .atom body) : Legible .item body := by
  refine legible_node rfl fun word written => ?_
  rcases atom.node (by decide) rfl written with ⟨label, children, forest, reads⟩
  have whole := forest.append (forest_absent [.name "suffix"])
  rw [List.append_nil, List.append_nil] at whole
  refine ⟨"item", [.node label children], forest_node 4 0 rfl rfl whole, fun rule bound enough => ?_⟩
  have below := ParseTree.depth_lt_of_child "item"
    (List.mem_singleton_self (ParseTree.node label children))
  rcases reads rule bound (Nat.le_trans below.le enough) with ⟨symbol, isRead⟩
  refine ⟨symbol, ?_⟩
  unfold readItem
  change readAtom rule bound (.node label children) >>= pure = _
  rw [isRead]
  rfl

theorem legible_suffixed (atom : Legible .atom front) (suffix : Legible .suffix back) :
    Legible .item (front ++ back) := by
  refine legible_node rfl fun word written => ?_
  rcases List.map_eq_append_iff.mp written with ⟨left, right, rfl, here, behind⟩
  rcases atom.node (by decide) rfl here with ⟨label, children, forest, reads⟩
  rcases suffix.node (by decide) rfl behind with ⟨mark, others, suffixForest, applies⟩
  refine ⟨"item", [.node label children, .node mark others],
    forest_node 4 0 rfl rfl (forest.append (forest_present suffixForest)),
    fun rule bound enough => ?_⟩
  have below : (ParseTree.node label children).depth <
      (ParseTree.node "item" [.node label children, .node mark others]).depth :=
    ParseTree.depth_lt_of_child _ List.mem_cons_self
  rcases reads rule bound (Nat.le_trans below.le enough) with ⟨symbol, isRead⟩
  rcases applies symbol with ⟨suffixed, isSuffixed⟩
  refine ⟨suffixed, ?_⟩
  unfold readItem
  change (readAtom rule bound (.node label children) >>= fun symbol =>
    applySuffix (.node mark others) symbol) = _
  rw [isRead]
  exact isSuffixed

theorem legible_name {token : String × Option String}
    (isName : token.1 = "ident" ∨ token.1 = "quoted") : Legible .atom [token] := by
  refine legible_node rfl fun word written => ?_
  rcases List.map_eq_singleton_iff.mp written with ⟨only, rfl, isToken⟩
  have named : only.name = token.1 := congrArg Prod.fst isToken
  refine ⟨"Name", [.leaf only], ?_, fun rule bound enough => ?_⟩
  · rcases isName with isIdentifier | isQuoted
    · exact forest_node 5 0 rfl rfl (forest_leaf (named.trans isIdentifier) (by decide))
    · exact forest_node 5 1 rfl rfl (forest_leaf (named.trans isQuoted) (by decide))
  · cases bound with
    | zero => exact (Nat.not_succ_le_zero _ enough).elim
    | succ bound => exact ⟨_, readAtom_name rule bound only⟩

/-- Alternatives between brackets are read if they have no labels. -/
theorem legible_brackets {opening closing : String × Option String} {label : String} (place : Nat)
    (isGroup : label = "Group" ∨ label = "Option") {left right : String}
    (known : grammar.rules[5]?.bind (fun rule => rule.productions[place]?) =
      some (words [left, "alts", right] (some label)))
    (terminals : left ∉ grammar.ruleNames ∧ right ∉ grammar.ruleNames) (opens : opening.1 = left)
    (closes : closing.1 = right) (inside : Legible (.alternatives true) body) :
    Legible .atom (opening :: (body ++ [closing])) := by
  refine legible_node rfl fun word written => ?_
  rcases List.map_eq_cons_iff.mp written with ⟨first, more, rfl, isFirst, remaining⟩
  rcases List.map_eq_append_iff.mp remaining with ⟨inner, last, rfl, within, ending⟩
  rcases List.map_eq_singleton_iff.mp ending with ⟨final, rfl, isFinal⟩
  rcases inside.node (by decide) rfl within with ⟨name, children, forest, reads⟩
  have firstForest := forest_leaf ((congrArg Prod.fst isFirst).trans opens) terminals.1
  have finalForest := forest_leaf ((congrArg Prod.fst isFinal).trans closes) terminals.2
  refine ⟨label, [.leaf first, .node name children, .leaf final],
    forest_node 5 place rfl known (firstForest.append (forest.append finalForest)),
    fun rule bound enough => ?_⟩
  have below : (ParseTree.node name children).depth <
      (ParseTree.node label [.leaf first, .node name children, .leaf final]).depth :=
    ParseTree.depth_lt_of_child _ (by simp)
  cases bound with
  | zero => exact (Nat.not_lt_zero _ (Nat.lt_of_lt_of_le below enough)).elim
  | succ bound =>
      rcases reads rule bound (Nat.le_of_lt_succ (Nat.lt_of_lt_of_le below enough)) with
        ⟨branches, isRead, unlabelled⟩
      have bare : branches = (branches.map Branch.symbols).map fun branch => ⟨branch, none⟩ := by
        rw [List.map_map]
        refine (List.map_id' branches).symm.trans (List.map_congr_left fun branch member => ?_)
        have label := unlabelled branch member rfl
        cases branch
        cases label
        rfl
      rw [bare] at isRead
      rcases isGroup with isLabel | isLabel
      · exact ⟨_, (readAtom_group rule bound isRead).1 isLabel⟩
      · exact ⟨_, (readAtom_group rule bound isRead).2 isLabel⟩

/-! ## Suffixes -/

theorem value_of_digits (text : String) :
    text.toList.foldl (fun value c => value * 10 + (c.toNat - '0'.toNat)) 0 =
      Nat.ofDigitChars 10 text.toList 0 := by
  rw [Nat.ofDigitChars]
  simp only [Nat.mul_comm 10]

/-- A bound is read as its value. -/
theorem readNumber_of_isBound {token : Token} {value : Nat} (isBound : IsBound token.content value) :
    readNumber token = .ok value := by
  rcases isBound with ⟨_, digits, small⟩
  have isValue := (value_of_digits token.textOrEmpty).trans digits
  unfold readNumber
  rw [isValue]
  exact if_neg (Nat.not_lt.mpr (Nat.le_pred_of_lt small))

/-- A suffix is read if the numbers among its tokens are bounds that its label allows. -/
theorem legible_suffix {contents : List (String × Option String)} {names : List String}
    {label : String} (place : Nat)
    (known : grammar.rules[6]?.bind (fun rule => rule.productions[place]?) =
      some (words names (some label)))
    (terminals : forall name, name ∈ names -> name ∉ grammar.ruleNames)
    (named : contents.map Prod.fst = names)
    {counted : List (String × Option String)} (filtered : contents.filter (·.1 == "number") = counted)
    {numbers : List Nat} (bounds : List.Forall₂ IsBound counted numbers)
    (allowed : label = "AtLeast" ∨ numbers.getLast? ≠ some 0)
    (makes : forall body, Exists fun symbol => suffixed? label numbers body = some symbol) :
    Legible .suffix contents := by
  refine legible_node rfl fun word written => ?_
  have same : names = word.map Token.name := by
    rw [← named, ← written, List.map_map]
    rfl
  rw [same] at known terminals
  have forest := forest_words word fun token member => terminals token.name (List.mem_map_of_mem member)
  refine ⟨label, word.map .leaf, forest_node 6 place rfl known forest, fun symbol => ?_⟩
  rcases makes (sequenceOf symbol) with ⟨suffixed, made⟩
  refine ⟨suffixed, applySuffix_eq_ok.mpr ⟨numbers, mapM_eq_ok.mpr ?_, allowed, made⟩⟩
  have same : counted = (word.filter (·.name == "number")).map Token.content := by
    rw [← filtered, ← written, List.filter_map]
    rfl
  rw [same, List.forall₂_map_left_iff] at bounds
  rw [tokens_leaves]
  exact bounds.imp fun _ _ => readNumber_of_isBound

/-! ## Rules -/

/-- A rule is read if its alternatives are. -/
theorem legible_rule {name equals semicolon : String × Option String} (isName : name.1 = "ident")
    (isEquals : equals.1 = "=") (isSemicolon : semicolon.1 = ";") (text : name.2.isSome = true)
    (inside : Legible (.alternatives false) body) :
    Legible .rule (name :: equals :: (body ++ [semicolon])) := by
  refine legible_node rfl fun word written => ?_
  rcases List.map_eq_cons_iff.mp written with ⟨ident, others, rfl, isIdent, written⟩
  rcases List.map_eq_cons_iff.mp written with ⟨sign, others, rfl, isSign, written⟩
  rcases List.map_eq_append_iff.mp written with ⟨inner, last, rfl, within, ending⟩
  rcases List.map_eq_singleton_iff.mp ending with ⟨final, rfl, isFinal⟩
  rcases inside.node (by decide) rfl within with ⟨label, children, forest, reads⟩
  have named : ident.name = "ident" := (congrArg Prod.fst isIdent).trans isName
  have whole := (forest_leaf named (by decide)).append
    ((forest_leaf ((congrArg Prod.fst isSign).trans isEquals) (by decide)).append
      (forest.append (forest_leaf ((congrArg Prod.fst isFinal).trans isSemicolon) (by decide))))
  refine ⟨"rule", [.leaf ident, .leaf sign, .node label children, .leaf final],
    forest_node 1 0 rfl rfl whole, ?_⟩
  rcases Option.isSome_iff_exists.mp text with ⟨written, isWritten⟩
  have isText : (tokenNamed? (.node "rule" [.leaf ident, .leaf sign, .node label children,
      .leaf final]) "ident").bind (·.text) = some written := by
    change ([ident, sign, final].find? (·.name == "ident")).bind (·.text) = _
    rw [List.find?_cons_of_pos (by rw [named]; rfl)]
    exact (congrArg Prod.snd isIdent).trans isWritten
  have below : (ParseTree.node label children).depth <
      (ParseTree.node "rule" [.leaf ident, .leaf sign, .node label children, .leaf final]).depth :=
    ParseTree.depth_lt_of_child _ (by simp)
  rcases reads written _ (Nat.le_succ_of_le below.le) with ⟨branches, isRead, _⟩
  refine ⟨⟨written, branches.map productionOf⟩, ?_⟩
  unfold readRule
  rw [isText]
  change (readAlternatives written _ (.node label children) >>= fun branches =>
    pure (Rule.mk written (branches.map productionOf))) = _
  rw [isRead]
  rfl

/-- The label behind a sequence. -/
theorem forest_label {sign label : String × Option String} (isSign : sign.1 = "@")
    (isLabel : label.1 = "ident") {word : List Token}
    (written : word.map Token.content = [sign, label]) :
    NotationForest [.optional [.name "@", .name "ident"]] (word.map .leaf) word := by
  rcases List.map_eq_cons_iff.mp written with ⟨first, others, rfl, isFirst, remaining⟩
  rcases List.map_eq_singleton_iff.mp remaining with ⟨second, rfl, isSecond⟩
  exact forest_present ((forest_leaf ((congrArg Prod.fst isFirst).trans isSign) (by decide)).append
    (forest_leaf ((congrArg Prod.fst isSecond).trans isLabel) (by decide)))

end

/-- Every phrase is read whose tokens have texts. -/
theorem Phrase.legible {part : Part} {contents : List (String × Option String)}
    (phrase : Phrase part contents)
    (texts : forall content, content ∈ contents -> content.2.isSome = true) :
    Legible part contents := by
  induction phrase with
  | noRules | noItems | noOthers => exact legible_none rfl
  | rules front back _ _ first later =>
      exact (first fun content member => texts content (List.mem_append_left back member)).cons
        (later fun content member => texts content (List.mem_append_right front member)) rfl rfl rfl
        fun _ => Part.noConfusion
  | items front back _ _ first later =>
      exact (first fun content member => texts content (List.mem_append_left back member)).cons
        (later fun content member => texts content (List.mem_append_right front member)) rfl rfl rfl
        fun _ => Part.noConfusion
  | rule name equals semicolon body isName isEquals isSemicolon _ inside =>
      refine legible_rule isName isEquals isSemicolon (texts name List.mem_cons_self)
        (inside fun content member => texts content ?_)
      exact List.mem_cons_of_mem _ (List.mem_cons_of_mem _ (List.mem_append_left _ member))
  | alternatives nested front back _ _ first later =>
      exact legible_alternatives
        (first fun content member => texts content (List.mem_append_left back member))
        (later fun content member => texts content (List.mem_append_right front member))
  | others nested bar front back isBar _ _ first later =>
      refine (first fun content member => texts content ?_).others isBar
        (later fun content member => texts content ?_)
      · exact List.mem_cons_of_mem bar (List.mem_append_left back member)
      · exact List.mem_cons_of_mem bar (List.mem_append_right front member)
  | sequence nested body _ inside =>
      have bare : Legible (.sequence nested) (body ++ []) := by
        refine legible_sequence (inside texts) (fun _ => rfl) fun word nothing => ?_
        rw [List.map_eq_nil_iff.mp nothing]
        exact forest_absent _
      rwa [List.append_nil] at bare
  | labelled body sign label isSign isLabel _ inside =>
      exact legible_sequence
        (inside fun content member => texts content (List.mem_append_left _ member))
        (fun impossible => by cases impossible) fun _ => forest_label isSign isLabel
  | item body _ inside => exact legible_item (inside texts)
  | suffixed front back _ _ first later =>
      exact legible_suffixed
        (first fun content member => texts content (List.mem_append_left back member))
        (later fun content member => texts content (List.mem_append_right front member))
  | name token isName => exact legible_name isName
  | group opening closing body opens closes _ inside =>
      refine legible_brackets 2 (Or.inl rfl) rfl (by decide) opens closes
        (inside fun content member => texts content ?_)
      exact List.mem_cons_of_mem _ (List.mem_append_left _ member)
  | option opening closing body opens closes _ inside =>
      refine legible_brackets 3 (Or.inr rfl) rfl (by decide) opens closes
        (inside fun content member => texts content ?_)
      exact List.mem_cons_of_mem _ (List.mem_append_left _ member)
  | mark token isMark =>
      simp only [List.mem_cons, List.not_mem_nil, or_false] at isMark
      have unbounded : ([] : List Nat).getLast? ≠ some 0 := by simp
      rcases isMark with isMark | isMark | isMark
      · exact legible_suffix 0 rfl (by decide) (congrArg (fun name => [name]) isMark)
          (by simp [isMark]) .nil (Or.inr unbounded) fun _ => ⟨_, rfl⟩
      · exact legible_suffix 1 rfl (by decide) (congrArg (fun name => [name]) isMark)
          (by simp [isMark]) .nil (Or.inr unbounded) fun _ => ⟨_, rfl⟩
      · exact legible_suffix 2 rfl (by decide) (congrArg (fun name => [name]) isMark)
          (by simp [isMark]) .nil (Or.inr unbounded) fun _ => ⟨_, rfl⟩
  | exactly opening count closing number opens closes counts positive =>
      have last : [number].getLast? ≠ some 0 := by simp [positive]
      exact legible_suffix 3 rfl (by decide) (by simp [opens, counts.1, closes])
        (by simp [opens, counts.1, closes]) (.cons counts .nil) (Or.inr last) fun _ => ⟨_, rfl⟩
  | atLeast opening least comma closing number opens separates closes counts =>
      exact legible_suffix 4 rfl (by decide) (by simp [opens, counts.1, separates, closes])
        (by simp [opens, counts.1, separates, closes]) (.cons counts .nil) (Or.inl rfl)
        fun _ => ⟨_, rfl⟩
  | between opening least comma most closing low high opens separates closes fromLow toHigh positive =>
      have last : [low, high].getLast? ≠ some 0 := by simp [positive]
      exact legible_suffix 5 rfl (by decide) (by simp [opens, fromLow.1, separates, toHigh.1, closes])
        (by simp [opens, fromLow.1, separates, toHigh.1, closes]) (.cons fromLow (.cons toHigh .nil))
        (Or.inr last) fun _ => ⟨_, rfl⟩
  | atMost opening comma most closing high opens separates closes toHigh positive =>
      have last : [high].getLast? ≠ some 0 := by simp [positive]
      exact legible_suffix 6 rfl (by decide) (by simp [opens, separates, toHigh.1, closes])
        (by simp [opens, separates, toHigh.1, closes]) (.cons toHigh .nil) (Or.inr last)
        fun _ => ⟨_, rfl⟩

end Ebnf
end ShiftReduce
