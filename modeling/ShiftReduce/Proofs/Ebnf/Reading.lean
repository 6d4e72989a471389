import ShiftReduce.Proofs.Ebnf.Lexing
import ShiftReduce.Proofs.Grammar.Forests

namespace ShiftReduce

/-!
# Reading what has been printed

The tokens of a printed grammar are those of a parse tree of the notation, and reading this tree gives
the grammar back.  Every operator is printed with its own brackets, so that the tree of a symbol is
that of a group with a suffix.  What is read of the group is a choice between one branch, which the
suffix takes apart again.

The tree is described for each symbol by itself.  The induction is on the nesting of operators, which
is also what the reader's bound has to exceed.
-/

theorem ParseTree.depth_le_of_mem {tree : ParseTree} {trees : List ParseTree}
    (member : tree ∈ trees) : tree.depth ≤ ParseTree.depthOfEach trees := by
  induction trees with
  | nil => cases member
  | cons head rest inductionHypothesis =>
      rw [depthOfEach]
      rcases List.mem_cons.mp member with rfl | later
      · exact Nat.le_max_left _ _
      · exact Nat.le_trans (inductionHypothesis later) (Nat.le_max_right _ _)

namespace Ebnf

open ShiftReduce.Symbol DerivationTree

/-- A parse forest of the notation. -/
abbrev NotationForest : List Symbol -> List ParseTree -> List Token -> Prop :=
  Grammar.Forest grammar Symbol.Unfolds fun _ => true

/-! ## Building trees of the notation -/

theorem forest_leaf {token : Token} {name : String} (named : token.name = name)
    (terminal : name ∉ grammar.ruleNames) : NotationForest [.name name] [.leaf token] [token] := by
  subst named
  exact .token token [] [] [] terminal .nil

/-- A node of a production, which is given by its place and that of its rule. -/
theorem forest_node (number place : Nat) {rule : Rule} {production : Production}
    (listed : grammar.rules[number]? = some rule)
    (chosen : rule.productions[place]? = some production) {children : List ParseTree}
    {word : List Token} (forest : NotationForest production.symbols children word) :
    NotationForest [.name rule.name] [.node (production.label.getD rule.name) children] word := by
  have single := Grammar.Forest.rule rule production [] children [] word []
    (List.mem_of_getElem? listed) (List.mem_of_getElem? chosen) forest .nil
  rwa [List.append_nil] at single

/-- Forests of copies of a sequence, one behind the other. -/
def Copies (body : List Symbol) (trees : List ParseTree) (word : List Token) : Prop :=
  Exists fun count => NotationForest (List.replicate count body).flatten trees word

theorem Copies.nil (body : List Symbol) : Copies body [] [] := ⟨0, .nil⟩

theorem Copies.cons {body : List Symbol} {first trees : List ParseTree} {front word : List Token}
    (forest : NotationForest body first front) (later : Copies body trees word) :
    Copies body (first ++ trees) (front ++ word) := by
  rcases later with ⟨count, others⟩
  refine ⟨count + 1, ?_⟩
  rw [List.replicate_succ, List.flatten_cons]
  exact forest.append others

theorem Copies.repeat0 {body : List Symbol} {trees : List ParseTree} {word : List Token}
    (copies : Copies body trees word) : NotationForest [.repeat0 body] trees word := by
  rcases copies with ⟨count, forest⟩
  have single := Grammar.Forest.operator (.repeat0 body) _ [] trees [] word [] (.repeat0 body count)
    forest .nil
  rwa [List.append_nil, List.append_nil] at single

theorem forest_absent (body : List Symbol) : NotationForest [.optional body] [] [] :=
  .operator (.optional body) [] [] [] [] [] [] (.absent body) .nil .nil

theorem forest_present {body : List Symbol} {trees : List ParseTree} {word : List Token}
    (forest : NotationForest body trees word) : NotationForest [.optional body] trees word := by
  have single := Grammar.Forest.operator (.optional body) body [] trees [] word [] (.present body)
    forest .nil
  rwa [List.append_nil, List.append_nil] at single

/-! ## What can be read back -/

/-- Tokens with the contents of the symbol are those of an item, and the symbol is read from it. -/
def Readable (symbol : Symbol) : Prop :=
  forall word : List Token, word.map Token.content = contents symbol ->
    Exists fun children => NotationForest [.name "item"] [.node "item" children] word ∧
      symbol.depth ≤ (ParseTree.node "item" children).depth ∧
      forall rule bound, symbol.depth < bound ->
        readItem rule bound (.node "item" children) = .ok symbol

/-- Tokens with the contents of the sequence are those of items, and the sequence is read from
them. -/
def ReadableSequence (symbols : List Symbol) : Prop :=
  forall word : List Token, word.map Token.content = contentsOfSequence symbols ->
    Exists fun items : List (List ParseTree) =>
      Copies [.name "item"] (items.map (.node "item")) word ∧
      depthOfSequence symbols ≤ ParseTree.depthOfEach (items.map (.node "item")) ∧
      forall rule bound, depthOfSequence symbols < bound ->
        (items.map (ParseTree.node "item")).mapM (readItem rule bound) = .ok symbols

theorem readable_sequence {symbols : List Symbol}
    (each : forall symbol, symbol ∈ symbols -> Readable symbol) : ReadableSequence symbols := by
  induction symbols with
  | nil =>
      intro word written
      rw [contentsOfSequence, List.map_eq_nil_iff] at written
      subst written
      exact ⟨[], .nil _, Nat.le_refl _, fun _ _ _ => rfl⟩
  | cons symbol rest inductionHypothesis =>
      intro word written
      rw [contentsOfSequence] at written
      rcases List.map_eq_append_iff.mp written with ⟨front, back, rfl, first, later⟩
      rcases each symbol List.mem_cons_self front first with ⟨children, forest, deep, reads⟩
      rcases inductionHypothesis (fun other member => each other (List.mem_cons_of_mem _ member))
        back later with ⟨items, copies, deeper, others⟩
      refine ⟨children :: items, .cons forest copies, ?_, ?_⟩
      · rw [depthOfSequence, List.map_cons, ParseTree.depthOfEach]
        exact max_le_max deep deeper
      · intro rule bound enough
        rw [depthOfSequence] at enough
        rw [List.map_cons, List.mapM_cons, reads rule bound (by omega), others rule bound (by omega)]
        rfl

/-- The tree of an alternative: its items, and behind them the label if there is one. -/
def sequenceTree (items : List (List ParseTree)) (label : List Token) : ParseTree :=
  .node "seq" (items.map (.node "item") ++ label.map .leaf)

theorem nodes_sequenceTree (items : List (List ParseTree)) (label : List Token) :
    (sequenceTree items label).nodes = items.map (.node "item") := by
  induction items with
  | nil =>
      apply List.filter_eq_nil_iff.mpr
      intro tree member
      rcases List.mem_map.mp member with ⟨token, _, rfl⟩
      exact Bool.false_ne_true
  | cons children rest inductionHypothesis =>
      exact congrArg (ParseTree.node "item" children :: ·) inductionHypothesis

theorem tokens_sequenceTree (items : List (List ParseTree)) (label : List Token) :
    (sequenceTree items label).tokens = label := by
  induction items with
  | nil =>
      induction label with
      | nil => rfl
      | cons token rest inductionHypothesis => exact congrArg (token :: ·) inductionHypothesis
  | cons children rest inductionHypothesis => exact inductionHypothesis

theorem depth_sequenceTree (items : List (List ParseTree)) (label : List Token) :
    ParseTree.depthOfEach (items.map (.node "item")) ≤ (sequenceTree items label).depth := by
  unfold sequenceTree
  rw [ParseTree.depth]
  apply Nat.le_succ_of_le
  generalize items.map (ParseTree.node "item") = trees
  induction trees with
  | nil => exact Nat.zero_le _
  | cons tree rest inductionHypothesis =>
      rw [List.cons_append, ParseTree.depthOfEach, ParseTree.depthOfEach]
      exact max_le_max (Nat.le_refl _) inductionHypothesis

/-- An alternative is read back. -/
theorem readable_alternative {branch : Branch} (readable : ReadableSequence branch.symbols)
    {word : List Token} (written : word.map Token.content = contentsOfAlternative branch) :
    Exists fun tree => NotationForest [.name "seq"] [tree] word ∧ tree.isNode = true ∧
      depthOfSequence branch.symbols ≤ tree.depth ∧
      forall rule bound, depthOfSequence branch.symbols < bound ->
        readSequence rule bound tree = .ok branch := by
  rcases List.map_eq_append_iff.mp written with ⟨front, back, rfl, first, later⟩
  rcases readable front first with ⟨items, copies, deep, reads⟩
  -- The tokens behind the items are those of the label.
  have labelled : NotationForest [.optional [.name "@", .name "ident"]] (back.map .leaf) back ∧
      (back.find? fun token => token.name == "ident").bind (·.text) = branch.label := by
    cases isLabel : branch.label with
    | none =>
        rw [isLabel, List.map_eq_nil_iff] at later
        subst later
        exact ⟨forest_absent _, rfl⟩
    | some label =>
        rw [isLabel] at later
        rcases List.map_eq_cons_iff.mp later with ⟨sign, others, rfl, isSign, remaining⟩
        rcases List.map_eq_cons_iff.mp remaining with ⟨ident, nothing, rfl, isIdent, none⟩
        rw [List.map_eq_nil_iff] at none
        subst none
        rcases Prod.mk.inj isSign with ⟨signName, _⟩
        rcases Prod.mk.inj isIdent with ⟨identName, identText⟩
        refine ⟨forest_present ?_, ?_⟩
        · exact (forest_leaf signName (by decide)).append (forest_leaf identName (by decide))
        · rw [List.find?_cons_of_neg (by rw [signName]; decide),
            List.find?_cons_of_pos (by rw [identName]; decide)]
          exact identText
  refine ⟨sequenceTree items back, ?_, rfl, Nat.le_trans deep (depth_sequenceTree items back), ?_⟩
  · exact forest_node 3 0 rfl rfl (copies.repeat0.append labelled.1)
  · intro rule bound enough
    unfold readSequence
    rw [nodes_sequenceTree, reads rule bound enough]
    unfold tokenNamed?
    rw [tokens_sequenceTree, labelled.2]
    rfl

/-- Behind the first alternative, each has a bar in front. -/
theorem contentsOfAlternatives_cons (branch : Branch) (rest : List Branch) :
    contentsOfAlternatives (branch :: rest) = contentsOfAlternative branch ++
      rest.flatMap fun other => markContent "|" :: contentsOfAlternative other := by
  induction rest generalizing branch with
  | nil => exact (List.append_nil _).symm
  | cons next others inductionHypothesis =>
      have first : contentsOfAlternatives (branch :: next :: others) =
        contentsOfAlternative branch ++ markContent "|" :: contentsOfAlternatives (next :: others) := rfl
      rw [first, inductionHypothesis next, List.flatMap_cons]
      rfl

/-- Alternatives that have bars in front are read back. -/
theorem readable_others {branches : List Branch}
    (readable : forall branch, branch ∈ branches -> ReadableSequence branch.symbols)
    {word : List Token} (written : word.map Token.content =
      branches.flatMap fun branch => markContent "|" :: contentsOfAlternative branch) :
    Exists fun children => Copies [.name "|", .name "seq"] children word ∧
      (forall branch, branch ∈ branches ->
        depthOfSequence branch.symbols ≤ ParseTree.depthOfEach children) ∧
      forall rule bound, (forall branch, branch ∈ branches ->
          depthOfSequence branch.symbols < bound) ->
        (children.filter ParseTree.isNode).mapM (readSequence rule bound) = .ok branches := by
  induction branches generalizing word with
  | nil =>
      rw [List.flatMap_nil, List.map_eq_nil_iff] at written
      subst written
      exact ⟨[], .nil _, fun _ impossible => (List.not_mem_nil impossible).elim, fun _ _ _ => rfl⟩
  | cons branch rest inductionHypothesis =>
      rw [List.flatMap_cons, List.cons_append] at written
      rcases List.map_eq_cons_iff.mp written with ⟨bar, more, rfl, isBar, remaining⟩
      rcases List.map_eq_append_iff.mp remaining with ⟨front, back, rfl, first, later⟩
      rcases readable_alternative (readable branch List.mem_cons_self) first with
        ⟨tree, forest, isNode, deep, reads⟩
      rcases inductionHypothesis (fun other member => readable other (List.mem_cons_of_mem _ member))
        later with ⟨children, copies, deeper, others⟩
      have barForest := forest_leaf (Prod.mk.inj isBar).1 (by decide)
      refine ⟨.leaf bar :: tree :: children, .cons (barForest.append forest) copies, ?_, ?_⟩
      · intro other member
        rw [ParseTree.depthOfEach, ParseTree.depthOfEach]
        apply le_max_of_le_right
        rcases List.mem_cons.mp member with rfl | after
        · exact le_max_of_le_left deep
        · exact le_max_of_le_right (deeper other after)
      · intro rule bound enough
        rw [List.filter_cons_of_neg Bool.false_ne_true, List.filter_cons_of_pos isNode,
          List.mapM_cons, reads rule bound (enough branch List.mem_cons_self),
          others rule bound fun other member => enough other (List.mem_cons_of_mem _ member)]
        rfl

/-- Alternatives are read back. -/
theorem readable_alternatives {branches : List Branch} (inhabited : branches ≠ [])
    (readable : forall branch, branch ∈ branches -> ReadableSequence branch.symbols)
    {word : List Token} (written : word.map Token.content = contentsOfAlternatives branches) :
    Exists fun children => NotationForest [.name "alts"] [.node "alts" children] word ∧
      (forall branch, branch ∈ branches ->
        depthOfSequence branch.symbols ≤ (ParseTree.node "alts" children).depth) ∧
      forall rule bound, (forall branch, branch ∈ branches ->
          depthOfSequence branch.symbols < bound) ->
        readAlternatives rule bound (.node "alts" children) = .ok branches := by
  cases branches with
  | nil => exact (inhabited rfl).elim
  | cons branch rest =>
      rw [contentsOfAlternatives_cons] at written
      rcases List.map_eq_append_iff.mp written with ⟨front, back, rfl, first, later⟩
      rcases readable_alternative (readable branch List.mem_cons_self) first with
        ⟨tree, forest, isNode, deep, reads⟩
      rcases readable_others (fun other member => readable other (List.mem_cons_of_mem _ member))
        later with ⟨children, copies, deeper, others⟩
      refine ⟨tree :: children, forest_node 2 0 rfl rfl (forest.append copies.repeat0), ?_, ?_⟩
      · intro other member
        rw [ParseTree.depth, ParseTree.depthOfEach]
        apply Nat.le_succ_of_le
        rcases List.mem_cons.mp member with rfl | after
        · exact le_max_of_le_left deep
        · exact le_max_of_le_right (deeper other after)
      · intro rule bound enough
        unfold readAlternatives ParseTree.nodes ParseTree.children
        dsimp only
        rw [List.filter_cons_of_pos isNode, List.mapM_cons,
          reads rule bound (enough branch List.mem_cons_self),
          others rule bound fun other member => enough other (List.mem_cons_of_mem _ member)]
        rfl

/-! ## Atoms and suffixes -/

/-- Tokens with these contents are those of an atom, and the symbol is read from it. -/
def ReadableAtom (written : List (String × Option String)) (symbol : Symbol) : Prop :=
  forall word : List Token, word.map Token.content = written ->
    Exists fun label => Exists fun children =>
      NotationForest [.name "atom"] [.node label children] word ∧
      symbol.depth ≤ (ParseTree.node label children).depth ∧
      forall rule bound, symbol.depth < bound ->
        readAtom rule bound (.node label children) = .ok symbol

/-- Tokens with these contents are those of a suffix, which makes one symbol of another. -/
def ReadableSuffix (written : List (String × Option String)) (symbol suffixed : Symbol) : Prop :=
  forall word : List Token, word.map Token.content = written ->
    Exists fun label => Exists fun children =>
      NotationForest [.name "suffix"] [.node label children] word ∧
      applySuffix (.node label children) symbol = .ok suffixed

/-- An atom is an item. -/
theorem ReadableAtom.readable {written : List (String × Option String)} {symbol : Symbol}
    (atom : ReadableAtom written symbol) (same : contents symbol = written) : Readable symbol := by
  intro word are
  rcases atom word (are.trans same) with ⟨label, children, forest, deep, reads⟩
  have body := forest.append (forest_absent [.name "suffix"])
  rw [List.append_nil, List.append_nil] at body
  refine ⟨[.node label children], forest_node 4 0 rfl rfl body, ?_, ?_⟩
  · rw [ParseTree.depth, ParseTree.depthOfEach]
    exact Nat.le_succ_of_le (le_max_of_le_left deep)
  · intro rule bound enough
    unfold readItem
    change readAtom rule bound (.node label children) >>= pure = _
    rw [reads rule bound enough]
    rfl

/-- An atom and a suffix are an item. -/
theorem ReadableAtom.suffixed {symbol suffixed : Symbol}
    {front back : List (String × Option String)} (atom : ReadableAtom front symbol)
    (suffix : ReadableSuffix back symbol suffixed) (same : contents suffixed = front ++ back)
    (deep : suffixed.depth = symbol.depth) : Readable suffixed := by
  intro word written
  rw [same] at written
  rcases List.map_eq_append_iff.mp written with ⟨left, right, rfl, first, later⟩
  rcases atom left first with ⟨label, children, forest, deeper, reads⟩
  rcases suffix right later with ⟨mark, others, suffixForest, applies⟩
  refine ⟨[.node label children, .node mark others],
    forest_node 4 0 rfl rfl (forest.append (forest_present suffixForest)), ?_, ?_⟩
  · rw [ParseTree.depth, ParseTree.depthOfEach, deep]
    exact Nat.le_succ_of_le (le_max_of_le_left deeper)
  · intro rule bound enough
    unfold readItem
    change (readAtom rule bound (.node label children) >>= fun symbol =>
      applySuffix (.node mark others) symbol) = _
    rw [reads rule bound (deep ▸ enough)]
    exact applies

theorem readAtom_name (rule : String) (bound : Nat) (token : Token) :
    readAtom rule (bound + 1) (.node "Name" [.leaf token]) =
      .ok (.name (unquote token.textOrEmpty)) := by
  unfold readAtom
  rfl

theorem unquote_identifier {word : String} (identifier : isIdentifier word = true) :
    unquote word = word := by
  unfold isIdentifier at identifier
  unfold unquote
  cases letters : word.toList with
  | nil => rfl
  | cons c rest =>
      rw [letters] at identifier
      have start := (Bool.and_eq_true_iff.mp identifier).1
      dsimp only
      rw [if_neg]
      rintro (rfl | rfl) <;> exact absurd start (by decide)

theorem unquote_quoted {quote : Char} (isQuote : quote = '"' ∨ quote = '\x27') {word text : String}
    (letters : text.toList = quote :: (word.toList ++ [quote])) : unquote text = word := by
  unfold unquote
  rw [letters]
  dsimp only
  rw [if_pos isQuote, List.dropLast_concat, String.ofList_toList]

theorem unquote_displayName {word : String} (notIdentifier : ¬ isIdentifier word = true) :
    unquote (displayName word) = word := by
  unfold displayName
  rw [if_neg notIdentifier]
  split
  · refine unquote_quoted (Or.inl rfl) ?_
    rw [String.toList_append, String.toList_append]
    rfl
  · refine unquote_quoted (Or.inr rfl) ?_
    rw [String.toList_append, String.toList_append]
    rfl

/-- A name is an atom. -/
theorem readableAtom_name (word : String) : ReadableAtom [nameContent word] (.name word) := by
  intro tokens written
  rcases List.map_eq_singleton_iff.mp written with ⟨token, rfl, isName⟩
  unfold nameContent at isName
  have reads : forall text, token.text = some text -> unquote text = word ->
      forall rule bound, 0 < bound ->
        readAtom rule bound (.node "Name" [.leaf token]) = .ok (.name word) := by
    intro text isText unquoted rule bound positive
    cases bound with
    | zero => exact (Nat.lt_irrefl _ positive).elim
    | succ bound =>
        rw [readAtom_name, Token.textOrEmpty, isText, Option.getD_some, unquoted]
  split at isName
  next identifier =>
    rcases Prod.mk.inj isName with ⟨named, text⟩
    exact ⟨"Name", [.leaf token], forest_node 5 0 rfl rfl (forest_leaf named (by decide)),
      Nat.zero_le _, reads word text (unquote_identifier identifier)⟩
  next notIdentifier =>
    rcases Prod.mk.inj isName with ⟨named, text⟩
    exact ⟨"Name", [.leaf token], forest_node 5 1 rfl rfl (forest_leaf named (by decide)),
      Nat.zero_le _, reads _ text (unquote_displayName notIdentifier)⟩

theorem withoutLabels_eq (rule : String) (branches : List (List Symbol)) :
    withoutLabels rule (branches.map fun branch => ⟨branch, none⟩) = .ok branches := by
  induction branches with
  | nil => rfl
  | cons branch rest inductionHypothesis =>
      rw [List.map_cons, withoutLabels]
      dsimp only
      rw [inductionHypothesis]
      rfl

/-- What is read of alternatives between two brackets. -/
theorem readAtom_group (rule : String) (bound : Nat) {label : String} {opening closing : Token}
    {inner : String} {children : List ParseTree} {branches : List (List Symbol)}
    (reads : readAlternatives rule bound (.node inner children) =
      .ok (branches.map fun branch => ⟨branch, none⟩)) :
    (label = "Group" -> readAtom rule (bound + 1)
      (.node label [.leaf opening, .node inner children, .leaf closing]) =
        .ok (.alternation branches)) ∧
    (label = "Option" -> readAtom rule (bound + 1)
      (.node label [.leaf opening, .node inner children, .leaf closing]) =
        .ok (.optional (sequenceOf (.alternation branches)))) := by
  have group : (onlyNode (.node label [.leaf opening, .node inner children, .leaf closing]) >>=
      fun alternatives => readAlternatives rule bound alternatives >>= withoutLabels rule) =
        .ok branches := by
    change readAlternatives rule bound (.node inner children) >>= withoutLabels rule = _
    rw [reads]
    exact withoutLabels_eq rule branches
  constructor
  · rintro rfl
    unfold readAtom
    dsimp only [ParseTree.title]
    rw [group]
    rfl
  · rintro rfl
    unfold readAtom
    dsimp only [ParseTree.title]
    rw [group]
    rfl

theorem contentsOfBranches_eq (branches : List (List Symbol)) :
    contentsOfBranches branches =
      contentsOfAlternatives (branches.map fun branch => ⟨branch, none⟩) := by
  have one : forall branch : List Symbol,
      contentsOfAlternative ⟨branch, none⟩ = contentsOfSequence branch :=
    fun branch => List.append_nil _
  induction branches with
  | nil => rfl
  | cons branch rest inductionHypothesis =>
      cases rest with
      | nil => exact (one branch).symm
      | cons next others =>
          have first : contentsOfBranches (branch :: next :: others) =
            contentsOfSequence branch ++ markContent "|" :: contentsOfBranches (next :: others) := rfl
          rw [first, inductionHypothesis, ← one]
          rfl

private theorem depthOfBranches_le {branches : List (List Symbol)} {bound : Nat}
    (each : forall branch, branch ∈ branches -> depthOfSequence branch ≤ bound) :
    depthOfBranches branches ≤ bound := by
  induction branches with
  | nil => exact Nat.zero_le _
  | cons branch rest inductionHypothesis =>
      rw [depthOfBranches]
      exact Nat.max_le.mpr ⟨each branch List.mem_cons_self,
        inductionHypothesis fun other member => each other (List.mem_cons_of_mem _ member)⟩

/-- Alternatives between two brackets, which are three children of a node. -/
private theorem readable_between {branches : List (List Symbol)} (inhabited : branches ≠ [])
    (readable : forall branch, branch ∈ branches -> ReadableSequence branch) {left right : String}
    (leftTerminal : left ∉ grammar.ruleNames) (rightTerminal : right ∉ grammar.ruleNames)
    {word : List Token} (written : word.map Token.content =
      markContent left :: contentsOfBranches branches ++ [markContent right]) :
    Exists fun opening => Exists fun children => Exists fun closing =>
      NotationForest [.name left, .name "alts", .name right]
        [.leaf opening, .node "alts" children, .leaf closing] word ∧
      depthOfBranches branches ≤ (ParseTree.node "alts" children).depth ∧
      forall rule bound, depthOfBranches branches < bound ->
        readAlternatives rule bound (.node "alts" children) =
          .ok (branches.map fun branch => ⟨branch, none⟩) := by
  rw [List.cons_append, contentsOfBranches_eq] at written
  rcases List.map_eq_cons_iff.mp written with ⟨opening, more, rfl, isOpening, remaining⟩
  rcases List.map_eq_append_iff.mp remaining with ⟨inner, last, rfl, inside, ending⟩
  rcases List.map_eq_singleton_iff.mp ending with ⟨closing, rfl, isClosing⟩
  have all : forall branch, branch ∈ branches.map (fun branch => (⟨branch, none⟩ : Branch)) ->
      branch.symbols ∈ branches := by
    intro branch member
    rcases List.mem_map.mp member with ⟨symbols, listed, rfl⟩
    exact listed
  rcases readable_alternatives (fun empty => inhabited (List.map_eq_nil_iff.mp empty))
    (fun branch member => readable branch.symbols (all branch member)) inside with
    ⟨children, forest, deep, reads⟩
  have openingForest := forest_leaf (Prod.mk.inj isOpening).1 leftTerminal
  have closingForest := forest_leaf (Prod.mk.inj isClosing).1 rightTerminal
  refine ⟨opening, children, closing, openingForest.append (forest.append closingForest), ?_, ?_⟩
  · exact depthOfBranches_le fun branch listed => deep ⟨branch, none⟩ (List.mem_map_of_mem listed)
  · intro rule bound enough
    refine reads rule bound fun branch member => Nat.lt_of_le_of_lt ?_ enough
    exact Draft.depthOfSequence_le_of_branch (all branch member)

/-- A group is an atom. -/
theorem readableAtom_group {branches : List (List Symbol)} (inhabited : branches ≠ [])
    (readable : forall branch, branch ∈ branches -> ReadableSequence branch) :
    ReadableAtom (markContent "(" :: contentsOfBranches branches ++ [markContent ")"])
      (.alternation branches) := by
  intro word written
  rcases readable_between inhabited readable (by decide) (by decide) written with
    ⟨opening, children, closing, forest, deep, reads⟩
  refine ⟨"Group", _, forest_node 5 2 rfl rfl forest, ?_, ?_⟩
  · rw [Symbol.depth, ParseTree.depth]
    exact Nat.succ_le_succ (le_max_of_le_right (le_max_of_le_left deep))
  · intro rule bound enough
    cases bound with
    | zero => exact (Nat.not_lt_zero _ enough).elim
    | succ bound =>
        exact (readAtom_group rule bound (reads rule bound (Nat.lt_of_succ_lt_succ enough))).1 rfl

/-- An option is an atom. -/
theorem readableAtom_option {body : List Symbol} (readable : ReadableSequence body) :
    ReadableAtom (markContent "[" :: contentsOfSequence body ++ [markContent "]"])
      (.optional body) := by
  intro word written
  have only : forall branch, branch ∈ [body] -> ReadableSequence branch := fun branch member =>
    List.mem_singleton.mp member ▸ readable
  rcases readable_between (List.cons_ne_nil body []) only (by decide) (by decide) written with
    ⟨opening, children, closing, forest, deep, reads⟩
  have single : depthOfBranches [body] = depthOfSequence body := Nat.max_zero _
  rw [single] at deep reads
  refine ⟨"Option", _, forest_node 5 3 rfl rfl forest, ?_, ?_⟩
  · rw [Symbol.depth, ParseTree.depth]
    exact Nat.succ_le_succ (le_max_of_le_right (le_max_of_le_left deep))
  · intro rule bound enough
    cases bound with
    | zero => exact (Nat.not_lt_zero _ enough).elim
    | succ bound =>
        exact (readAtom_group rule bound (reads rule bound (Nat.lt_of_succ_lt_succ enough))).2 rfl

/-- What a suffix makes of a sequence, by its label and its numbers. -/
def suffixed? : String -> List Nat -> List Symbol -> Option Symbol
  | "Star", [], body => some (.repeat0 body)
  | "Plus", [], body => some (.repeat1 body)
  | "Question", [], body => some (.optional body)
  | "Exact", [count], body => some (.bounded count count body)
  | "AtLeast", [min], body => some (.bounded min 0 body)
  | "Between", [min, max], body => some (.bounded min max body)
  | "AtMost", [max], body => some (.bounded 0 max body)
  | _, _, _ => none

private theorem suffixed?_eq_some {suffix : ParseTree} {title : String} {numbers : List Nat}
    {body : List Symbol} {result : Symbol} :
    (match title, numbers with
      | "Star", [] => pure (.repeat0 body)
      | "Plus", [] => pure (.repeat1 body)
      | "Question", [] => pure (.optional body)
      | "Exact", [count] => pure (.bounded count count body)
      | "AtLeast", [min] => pure (.bounded min 0 body)
      | "Between", [min, max] => pure (.bounded min max body)
      | "AtMost", [max] => pure (.bounded 0 max body)
      | _, _ => misshapen suffix) = Except.ok result ↔ suffixed? title numbers body = some result := by
  unfold suffixed?
  split <;> simp [pure, Except.pure, misshapen]

/-- Beside the numbers themselves, only an upper bound of zero is refused. -/
theorem applySuffix_eq_ok {suffix : ParseTree} {symbol result : Symbol} :
    applySuffix suffix symbol = .ok result ↔ Exists fun numbers =>
      (suffix.tokens.filter (·.name == "number")).mapM readNumber = .ok numbers ∧
      (suffix.title = "AtLeast" ∨ numbers.getLast? ≠ some 0) ∧
      suffixed? suffix.title numbers (sequenceOf symbol) = some result := by
  unfold applySuffix
  dsimp only
  constructor
  · intro applied
    rcases of_bind_eq_ok applied with ⟨numbers, read, rest⟩
    refine ⟨numbers, read, ?_⟩
    have length := (mapM_eq_ok.mp read).length_eq
    split at rest
    · split at rest
      · cases rest
      next same => exact ⟨Or.inl (not_not.mp same), suffixed?_eq_some.mp rest⟩
    next different =>
      refine ⟨Or.inr fun isZero => ?_, suffixed?_eq_some.mp rest⟩
      cases last : (suffix.tokens.filter (·.name == "number")).getLast? with
      | none =>
          rw [List.getLast?_eq_none_iff.mp last] at length
          rw [List.eq_nil_of_length_eq_zero length.symm] at isZero
          cases isZero
      | some token => exact different token isZero last
  · rintro ⟨numbers, read, allowed, made⟩
    have continues : forall next : List Nat -> Except NotationError Symbol,
        (Except.ok numbers >>= next) = next numbers := fun _ => rfl
    rw [read, continues]
    split
    next isZero _ =>
      rw [if_neg fun other => allowed.elim other fun positive => positive isZero]
      exact suffixed?_eq_some.mpr made
    · exact suffixed?_eq_some.mpr made

theorem readNumber_toString {number : Nat} (small : number ≤ boundLimit) {token : Token}
    (content : token.content = numberContent number) : readNumber token = .ok number := by
  rcases Prod.mk.inj content with ⟨_, text⟩
  unfold readNumber Token.textOrEmpty
  rw [text, Option.getD_some]
  dsimp only
  rw [Decimal.value_toString, if_neg (Nat.not_lt.mpr small)]

private theorem readNumbers {numbers : List Nat}
    (small : forall number, number ∈ numbers -> number ≤ boundLimit) {tokens : List Token}
    (contents : tokens.map Token.content = numbers.map numberContent) :
    tokens.mapM readNumber = .ok numbers := by
  apply mapM_eq_ok.mpr
  induction numbers generalizing tokens with
  | nil =>
      rw [List.map_nil, List.map_eq_nil_iff] at contents
      subst contents
      exact .nil
  | cons number rest inductionHypothesis =>
      rcases List.map_eq_cons_iff.mp contents with ⟨token, others, rfl, first, later⟩
      exact .cons (readNumber_toString (small number List.mem_cons_self) first)
        (inductionHypothesis (fun other member => small other (List.mem_cons_of_mem _ member)) later)

theorem forest_words (word : List Token)
    (terminals : forall token, token ∈ word -> token.name ∉ grammar.ruleNames) :
    NotationForest ((word.map Token.name).map .name) (word.map .leaf) word := by
  induction word with
  | nil => exact .nil
  | cons token rest inductionHypothesis =>
      exact (forest_leaf rfl (terminals token List.mem_cons_self)).append
        (inductionHypothesis fun other member => terminals other (List.mem_cons_of_mem _ member))

theorem tokens_leaves (label : String) (word : List Token) :
    (ParseTree.node label (word.map .leaf)).tokens = word := by
  unfold ParseTree.tokens ParseTree.children
  rw [List.filterMap_map]
  exact List.filterMap_some

/-- Tokens with the names of a production of suffixes are a suffix. -/
theorem readableSuffix_words {contents : List (String × Option String)} {label : String}
    (place : Nat) (known : grammar.rules[6]?.bind (fun rule => rule.productions[place]?) =
      some (words (contents.map Prod.fst) (some label)))
    (terminals : forall content, content ∈ contents -> content.1 ∉ grammar.ruleNames)
    (numbers : List Nat)
    (are : contents.filter (fun content => content.1 == "number") = numbers.map numberContent)
    (small : forall number, number ∈ numbers -> number ≤ boundLimit)
    (allowed : label = "AtLeast" ∨ numbers.getLast? ≠ some 0) {symbol suffixed : Symbol}
    (makes : suffixed? label numbers (sequenceOf symbol) = some suffixed) :
    ReadableSuffix contents symbol suffixed := by
  intro word written
  have names : contents.map Prod.fst = word.map Token.name := by
    rw [← written, List.map_map]
    rfl
  have forest := forest_words word fun token member =>
    terminals token.content (written ▸ List.mem_map_of_mem member)
  rw [names] at known
  refine ⟨label, word.map .leaf, forest_node 6 place rfl known forest,
    applySuffix_eq_ok.mpr ⟨numbers, ?_, allowed, makes⟩⟩
  rw [tokens_leaves]
  refine readNumbers small ?_
  rw [← are, ← written, List.filter_map]
  rfl

/-- The bounds of a repetition are a suffix. -/
theorem readableSuffix_bounds {min max : Nat} (minSmall : min ≤ boundLimit)
    (maxSmall : max ≤ boundLimit) (body : List Symbol) :
    ReadableSuffix (boundsContents min max) (.alternation [body]) (.bounded min max body) := by
  have both : forall number, number ∈ [min, max] -> number ≤ boundLimit := by
    rintro number member
    rcases List.mem_pair.mp member with rfl | rfl
    · exact minSmall
    · exact maxSmall
  have one : forall number, number ∈ [min] -> number ≤ boundLimit :=
    fun number member => List.mem_singleton.mp member ▸ minSmall
  unfold boundsContents
  split
  next unlimited =>
    subst unlimited
    refine readableSuffix_words 4 rfl ?_ [min] rfl one (Or.inl rfl) rfl
    simp [markContent, numberContent, grammar, rules, Grammar.ruleNames]
  next limited =>
    have positive : forall numbers : List Nat, numbers.getLast? = some max ->
        numbers.getLast? ≠ some 0 := by
      intro numbers last
      rw [last]
      exact fun isZero => limited (Option.some.inj isZero)
    split
    next same =>
      subst same
      refine readableSuffix_words 3 rfl ?_ [min] rfl one (Or.inr (positive _ rfl)) rfl
      simp [markContent, numberContent, grammar, rules, Grammar.ruleNames]
    next different =>
      refine readableSuffix_words 5 rfl ?_ [min, max] rfl both (Or.inr (positive _ rfl)) rfl
      simp [markContent, numberContent, grammar, rules, Grammar.ruleNames]

/-! ## Symbols, rules and grammars -/

/-- Every symbol that can be written is read back. -/
theorem readable_symbol {symbol : Symbol} (spelled : symbol.Everywhere Symbol.Spelled) :
    Readable symbol := by
  induction symbol using induction_on_children with
  | step symbol inductionHypothesis =>
      rcases everywhere_iff.mp spelled with ⟨own, below⟩
      have inside : forall inner, inner ∈ symbol.children -> Readable inner := fun inner member =>
        inductionHypothesis inner member (below inner member)
      have single : forall body : List Symbol, (forall inner, inner ∈ body -> Readable inner) ->
          ReadableAtom (markContent "(" :: contentsOfSequence body ++ [markContent ")"])
            (.alternation [body]) := by
        intro body each
        refine readableAtom_group (List.cons_ne_nil body []) fun branch member => ?_
        rw [List.mem_singleton.mp member]
        exact readable_sequence each
      have nested : forall body : List Symbol,
          (Symbol.alternation [body]).depth = depthOfSequence body + 1 :=
        fun body => congrArg Nat.succ (Nat.max_zero _)
      cases symbol with
      | name word => exact (readableAtom_name word).readable rfl
      | repeat0 body =>
          have star : ReadableSuffix [markContent "*"] (.alternation [body]) (.repeat0 body) :=
            readableSuffix_words 0 rfl (by decide) [] rfl (by simp) (Or.inr (by simp)) rfl
          exact (single body inside).suffixed star (by simp [contents]) (nested body).symm
      | repeat1 body =>
          have plus : ReadableSuffix [markContent "+"] (.alternation [body]) (.repeat1 body) :=
            readableSuffix_words 1 rfl (by decide) [] rfl (by simp) (Or.inr (by simp)) rfl
          exact (single body inside).suffixed plus (by simp [contents]) (nested body).symm
      | optional body => exact (readableAtom_option (readable_sequence inside)).readable rfl
      | alternation branches =>
          refine (readableAtom_group own fun branch member => ?_).readable rfl
          exact readable_sequence fun inner listed =>
            inside inner (List.mem_flatten.mpr ⟨branch, member, listed⟩)
      | bounded min max body =>
          exact (single body inside).suffixed (readableSuffix_bounds own.1 own.2 body)
            (by simp [contents]) (nested body).symm

theorem productionOf_branchOf {production : Production} (spelled : production.Spelled) :
    productionOf (branchOf production) = production := by
  rcases production with ⟨symbols, emit, label⟩
  rcases spelled.emit with isReport | ⟨isSilent, unlabelled⟩
  · have isReport : emit = .report := isReport
    subst isReport
    cases label with
    | none => rfl
    | some word =>
        have other := (spelled.label word rfl).2
        unfold productionOf branchOf
        dsimp only [Emit.innermost]
        split
        next same => exact (other (Option.some.inj same)).elim
        next same =>
          rw [Option.some.inj same]
        next same => cases same
  · have isSilent : emit = .none := isSilent
    have unlabelled : label = none := unlabelled
    subst isSilent
    subst unlabelled
    rfl

/-- Every rule that can be written is read back. -/
theorem readable_rule {rule : Rule} (spelled : rule.Spelled)
    {word : List Token} (written : word.map Token.content = contentsOfRule rule) :
    Exists fun children => NotationForest [.name "rule"] [.node "rule" children] word ∧
      readRule (.node "rule" children) = .ok rule := by
  unfold contentsOfRule at written
  rw [List.cons_append, List.cons_append] at written
  rcases List.map_eq_cons_iff.mp written with ⟨ident, others, rfl, isIdent, written⟩
  rcases List.map_eq_cons_iff.mp written with ⟨equals, others, rfl, isEquals, written⟩
  rcases List.map_eq_append_iff.mp written with ⟨inner, last, rfl, inside, ending⟩
  rcases List.map_eq_singleton_iff.mp ending with ⟨semicolon, rfl, isSemicolon⟩
  rcases Prod.mk.inj isIdent with ⟨identName, identText⟩
  have printed : forall branch, branch ∈ rule.productions.map branchOf ->
      ReadableSequence branch.symbols := by
    intro branch member
    rcases List.mem_map.mp member with ⟨production, chosen, rfl⟩
    exact readable_sequence fun symbol listed =>
      readable_symbol ((spelled.productions production chosen).symbols symbol listed)
  rcases readable_alternatives (fun empty => spelled.inhabited (List.map_eq_nil_iff.mp empty)) printed
    inside with ⟨children, forest, deep, reads⟩
  have body := (forest_leaf identName (by decide)).append
    ((forest_leaf (Prod.mk.inj isEquals).1 (by decide)).append
      (forest.append (forest_leaf (Prod.mk.inj isSemicolon).1 (by decide))))
  refine ⟨[.leaf ident, .leaf equals, .node "alts" children, .leaf semicolon],
    forest_node 1 0 rfl rfl body, ?_⟩
  have named : (tokenNamed? (.node "rule" [.leaf ident, .leaf equals, .node "alts" children,
      .leaf semicolon]) "ident").bind (·.text) = some rule.name := by
    change ([ident, equals, semicolon].find? (·.name == "ident")).bind (·.text) = _
    rw [List.find?_cons_of_pos (by rw [identName]; rfl)]
    exact identText
  have readsAll : readAlternatives rule.name ((ParseTree.node "rule" [.leaf ident, .leaf equals,
      .node "alts" children, .leaf semicolon]).depth + 1) (.node "alts" children) =
        .ok (rule.productions.map branchOf) := by
    refine reads rule.name _ fun branch member => Nat.lt_succ_of_le ?_
    refine Nat.le_trans (deep branch member) (Nat.le_succ_of_le ?_)
    exact ParseTree.depth_le_of_mem (by simp)
  unfold readRule
  rw [named]
  change (readAlternatives rule.name _ (.node "alts" children) >>= fun branches =>
    pure (Rule.mk rule.name (branches.map productionOf))) = _
  rw [readsAll]
  have back : (rule.productions.map branchOf).map productionOf = rule.productions := by
    rw [List.map_map]
    exact (List.map_congr_left fun production chosen =>
      productionOf_branchOf (spelled.productions production chosen)).trans (List.map_id _)
  change Except.ok (Rule.mk rule.name ((rule.productions.map branchOf).map productionOf)) = _
  rw [back]

/-- Every grammar that can be written is read back, rule by rule. -/
theorem readable_grammar {written : Grammar} (expressible : written.Expressible)
    {word : List Token} (contents : word.map Token.content = written.rules.flatMap contentsOfRule) :
    Exists fun children =>
      NotationForest [.name "grammar"] [.node "Grammar" children] word ∧
      (ParseTree.node "Grammar" children).nodes.mapM readRule = .ok written.rules := by
  have each : forall (rules : List Rule) (word : List Token),
      (forall rule, rule ∈ rules -> rule.Spelled) ->
      word.map Token.content = rules.flatMap contentsOfRule ->
      Exists fun children => Copies [.name "rule"] children word ∧
        (children.filter ParseTree.isNode).mapM readRule = .ok rules := by
    intro rules
    induction rules with
    | nil =>
        intro word _ nothing
        rw [List.flatMap_nil, List.map_eq_nil_iff] at nothing
        subst nothing
        exact ⟨[], .nil _, rfl⟩
    | cons rule rest inductionHypothesis =>
        intro word spelled all
        rw [List.flatMap_cons] at all
        rcases List.map_eq_append_iff.mp all with ⟨front, back, rfl, first, later⟩
        rcases readable_rule (spelled rule List.mem_cons_self) first with ⟨children, forest, reads⟩
        rcases inductionHypothesis back
          (fun other member => spelled other (List.mem_cons_of_mem _ member)) later with
          ⟨others, copies, readsOthers⟩
        refine ⟨.node "rule" children :: others, .cons forest copies, ?_⟩
        rw [List.filter_cons_of_pos rfl, List.mapM_cons, reads, readsOthers]
        rfl
  rcases each written.rules word expressible contents with ⟨children, copies, reads⟩
  exact ⟨children, forest_node 0 0 rfl rfl copies.repeat0, reads⟩

end Ebnf

end ShiftReduce
