import ShiftReduce.Proofs.Ebnf.Parsing

namespace ShiftReduce

/-!
# What is read can be written

The reader relies on the shape of the trees that the notation is parsed into, and what it makes of them
is a grammar that the notation can express: names come from identifiers or from between quotes, bounds
have been checked, and neither a rule nor a group is without alternatives.

Of a tree only two things matter: which names its nodes and tokens have, and that each node is in turn
such a tree for its own name.
-/

namespace Ebnf

open NotationText ShiftReduce.Symbol

/-! ## The shape of trees -/

/-- The trees are those of the symbols, over tokens of the notation. -/
def Row (symbols : List Symbol) (trees : List ParseTree) : Prop :=
  Exists fun word : List Token => (forall token, token ∈ word -> Lexical token.content) ∧
    grammar.Forest Symbol.Admits (fun _ => true) symbols trees word

/-- The tree is that of the name. -/
inductive Under : String -> ParseTree -> Prop where
  | leaf (token : Token) (terminal : token.name ∉ grammar.ruleNames)
      (lexical : Lexical token.content) : Under token.name (.leaf token)
  | node (rule : Rule) (production : Production) (children : List ParseTree)
      (listed : rule ∈ grammar.rules) (chosen : production ∈ rule.productions)
      (row : Row production.symbols children) :
      Under rule.name (.node (production.label.getD rule.name) children)

/-- Every tree of a row is that of a name inside one of the symbols. -/
theorem Row.under {symbols : List Symbol} {trees : List ParseTree} (row : Row symbols trees)
    {tree : ParseTree} (member : tree ∈ trees) :
    Exists fun name => name ∈ symbols.flatMap Symbol.names ∧ Under name tree := by
  have inside : Exists fun name => Under name tree ∧
      Exists fun symbol => symbol ∈ symbols ∧ Contains symbol (.name name) := by
    rcases row with ⟨word, lexical, forest⟩
    induction forest with
    | nil => cases member
    | token token rest trees back terminal _ inductionHypothesis =>
        rcases List.mem_cons.mp member with rfl | later
        · exact ⟨token.name, .leaf token terminal (lexical token List.mem_cons_self), _,
            List.mem_cons_self, .refl _⟩
        · rcases inductionHypothesis later fun other listed =>
            lexical other (List.mem_cons_of_mem _ listed) with ⟨name, under, symbol, listed, contains⟩
          exact ⟨name, under, symbol, List.mem_cons_of_mem _ listed, contains⟩
    | rule rule production rest children trees front back listed chosen body _ _
        inductionHypothesis =>
        rcases List.mem_cons.mp member with rfl | later
        · have row : Row production.symbols children :=
            ⟨front, fun token listed => lexical token (List.mem_append_left _ listed), body⟩
          exact ⟨rule.name, .node rule production children listed chosen row, _,
            List.mem_cons_self, .refl _⟩
        · rcases inductionHypothesis later fun other listed =>
            lexical other (List.mem_append_right _ listed) with ⟨name, under, symbol, listed, contains⟩
          exact ⟨name, under, symbol, List.mem_cons_of_mem _ listed, contains⟩
    | operator symbol unfolded rest inner trees front back opened _ _ bodyHypothesis
        laterHypothesis =>
        rcases List.mem_append.mp member with here | later
        · rcases bodyHypothesis here fun other listed =>
            lexical other (List.mem_append_left _ listed) with ⟨name, under, child, listed, contains⟩
          exact ⟨name, under, symbol, List.mem_cons_self,
            .child symbol child _ (opened.mem_children listed) contains⟩
        · rcases laterHypothesis later fun other listed =>
            lexical other (List.mem_append_right _ listed) with ⟨name, under, symbol, listed, contains⟩
          exact ⟨name, under, symbol, List.mem_cons_of_mem _ listed, contains⟩
  rcases inside with ⟨name, under, symbol, listed, contains⟩
  exact ⟨name, List.mem_flatMap.mpr ⟨symbol, listed, mem_names_iff.mpr contains⟩, under⟩

/-- A row of symbols that begin with a name begins with a tree of this name. -/
theorem Row.head {name : String} {rest : List Symbol} {trees : List ParseTree}
    (row : Row (.name name :: rest) trees) :
    Exists fun tree => Exists fun others => trees = tree :: others ∧ Under name tree := by
  rcases row with ⟨word, lexical, forest⟩
  generalize symbols : Symbol.name name :: rest = row at forest
  cases forest with
  | nil => cases symbols
  | token token rest trees back terminal later =>
      cases symbols
      exact ⟨.leaf token, trees, rfl, .leaf token terminal (lexical token List.mem_cons_self)⟩
  | rule rule production rest children trees front back listed chosen body later =>
      cases symbols
      exact ⟨_, trees, rfl, .node rule production children listed chosen
        ⟨front, fun token member => lexical token (List.mem_append_left _ member), body⟩⟩
  | operator symbol unfolded rest inner trees front back opened body later =>
      cases symbols
      cases asName?_of_admits opened

/-- A tree of a rule is a node of one of its productions. -/
theorem Under.production {name : String} {tree : ParseTree} (under : Under name tree)
    (isRule : name ∈ grammar.ruleNames) : Exists fun rule => rule ∈ grammar.rules ∧
      rule.name = name ∧ Exists fun production => production ∈ rule.productions ∧
        Exists fun children => tree = .node (production.label.getD name) children ∧
          Row production.symbols children := by
  cases under with
  | leaf token terminal => exact (terminal isRule).elim
  | node rule production children listed chosen row =>
      exact ⟨rule, listed, rfl, production, chosen, children, rfl, row⟩

/-- A tree of a rule is a node. -/
theorem Under.isNode {name : String} {tree : ParseTree} (under : Under name tree)
    (isRule : name ∈ grammar.ruleNames) : tree.isNode = true := by
  cases under with
  | leaf token terminal => exact (terminal isRule).elim
  | node => rfl

/-- A tree of any other name is a leaf. -/
theorem Under.token {name : String} {tree : ParseTree} (under : Under name tree)
    (terminal : name ∉ grammar.ruleNames) : Exists fun token =>
      tree = .leaf token ∧ token.name = name ∧ Lexical token.content := by
  cases under with
  | leaf token _ lexical => exact ⟨token, rfl, rfl, lexical⟩
  | node rule production children listed => exact (terminal (List.mem_map_of_mem listed)).elim

/-- The names that the rules of a name mention. -/
def mentioned (name : String) : List String :=
  (grammar.rules.filter fun rule => rule.name = name).flatMap Grammar.namesOfRule

/-- What is directly below a tree has a name that its rule mentions. -/
theorem Under.below {name : String} {tree child : ParseTree} (under : Under name tree)
    (member : child ∈ tree.children) :
    Exists fun inner => inner ∈ mentioned name ∧ Under inner child := by
  cases under with
  | leaf token => cases member
  | node rule production children listed chosen row =>
      rcases row.under member with ⟨inner, inside, below⟩
      refine ⟨inner, List.mem_flatMap.mpr ⟨rule, ?_, ?_⟩, below⟩
      · exact List.mem_filter.mpr ⟨listed, decide_eq_true rfl⟩
      · exact List.mem_flatMap.mpr ⟨production, chosen, inside⟩

/-- A node has the name of a rule that is mentioned. -/
theorem Under.node_mem {name : String} {tree node : ParseTree} (under : Under name tree)
    (member : node ∈ tree.nodes) : Exists fun inner =>
      inner ∈ (mentioned name).filter (· ∈ grammar.ruleNames) ∧ Under inner node := by
  rcases List.mem_filter.mp member with ⟨below, isNode⟩
  rcases under.below below with ⟨inner, mention, inside⟩
  refine ⟨inner, List.mem_filter.mpr ⟨mention, decide_eq_true ?_⟩, inside⟩
  cases inside with
  | leaf token => cases isNode
  | node rule production children listed => exact List.mem_map_of_mem listed

/-- A token has the name of a token that is mentioned. -/
theorem Under.token_mem {name : String} {tree : ParseTree} {token : Token} (under : Under name tree)
    (member : token ∈ tree.tokens) : token.name ∈ mentioned name ∧ Lexical token.content := by
  rcases List.mem_filterMap.mp member with ⟨child, below, isLeaf⟩
  rcases under.below below with ⟨inner, mention, inside⟩
  cases inside with
  | leaf other terminal lexical =>
      cases isLeaf
      exact ⟨mention, lexical⟩
  | node => cases isLeaf

/-! ## Names and bounds -/

/-- The text of an identifier is one. -/
theorem isIdentifier_of_lexical {token : Token} (lexical : Lexical token.content)
    (named : token.name = "ident") {text : String} (isText : token.text = some text) :
    isIdentifier text = true := by
  rcases lexical with ⟨lexeme, isLexeme, same⟩
  have isLexeme : IsLexeme token.name lexeme := isLexeme
  have same : some text = some (String.ofList lexeme) := isText.symm.trans same
  generalize token.name = name at isLexeme named
  cases isLexeme with
  | ident c rest start parts =>
      rw [Option.some.inj same, isIdentifier, String.toList_ofList]
      exact Bool.and_eq_true_iff.mpr ⟨start, parts⟩
  | number => exact absurd named (by decide)
  | quoted => exact absurd named (by decide)
  | mark _ c rest isMark => exact absurd (named ▸ isMark) (by decide)

/-- The label of an alternative and the name of a rule are identifiers. -/
theorem isIdentifier_of_tokenNamed {name : String} {tree : ParseTree} (under : Under name tree)
    {text : String} (isText : (tokenNamed? tree "ident").bind (·.text) = some text) :
    isIdentifier text = true := by
  rcases Option.bind_eq_some_iff.mp isText with ⟨token, found, same⟩
  have named : token.name = "ident" := eq_of_beq (List.find?_some found :)
  exact isIdentifier_of_lexical (under.token_mem (List.mem_of_find?_eq_some found)).2 named same

private theorem quote_outside {word : List Char} (parts : word.all isIdentifierPart = true)
    {c : Char} (isQuote : isIdentifierPart c = false) : c ∉ word :=
  fun member => Bool.false_ne_true (isQuote.symm.trans (List.all_eq_true.mp parts c member))

/-- The name in a token can be written. -/
theorem writable_unquote {token : Token} (lexical : Lexical token.content)
    (named : token.name = "ident" ∨ token.name = "quoted") : Writable (unquote token.textOrEmpty) := by
  rcases lexical with ⟨lexeme, isLexeme, same⟩
  have isLexeme : IsLexeme token.name lexeme := isLexeme
  have text : token.textOrEmpty = String.ofList lexeme := congrArg (Option.getD · "") same
  rw [text, unquote, String.toList_ofList]
  generalize token.name = name at isLexeme named
  cases isLexeme with
  | ident c rest start parts =>
      have inside := isIdentifierPart_of_start start
      have notQuote : ¬ (c = '"' ∨ c = '\x27') := by
        rintro (rfl | rfl)
        · exact absurd start (by decide)
        · exact absurd start (by decide)
      dsimp only
      rw [if_neg notQuote]
      refine ⟨fun empty => ?_, fun quotes => ?_⟩
      · cases String.ofList_eq_empty_iff.mp empty
      · rw [String.toList_ofList] at quotes
        have all : (c :: rest).all isIdentifierPart = true :=
          Bool.and_eq_true_iff.mpr ⟨inside, parts⟩
        exact quote_outside all (by decide) quotes.1
  | number => exact absurd named (by decide)
  | quoted quote inside isQuote notEmpty outside =>
      dsimp only [List.cons_append]
      rw [if_pos isQuote, List.dropLast_concat]
      refine ⟨fun empty => notEmpty (String.ofList_eq_empty_iff.mp empty), fun quotes => ?_⟩
      rw [String.toList_ofList] at quotes
      rcases isQuote with rfl | rfl
      · exact outside quotes.2
      · exact outside quotes.1
  | mark _ c rest isMark =>
      rcases named with rfl | rfl
      · exact absurd isMark (by decide)
      · exact absurd isMark (by decide)

theorem le_of_readNumber {token : Token} {number : Nat} (read : readNumber token = .ok number) :
    number ≤ boundLimit := by
  unfold readNumber at read
  dsimp only at read
  split at read
  · cases read
  next small =>
    rw [← Except.ok.inj read]
    exact Nat.le_of_not_lt small

/-! ## Symbols -/

/-- The alternative can be written. -/
structure Branch.Spelled (branch : Branch) : Prop where
  symbols : forall symbol, symbol ∈ branch.symbols -> symbol.Everywhere Symbol.Spelled
  label : forall label, branch.label = some label -> isIdentifier label = true

theorem spelled_sequenceOf {symbol : Symbol} (spelled : symbol.Everywhere Symbol.Spelled)
    {inner : Symbol} (member : inner ∈ sequenceOf symbol) : inner.Everywhere Symbol.Spelled := by
  unfold sequenceOf at member
  split at member
  next branch =>
    exact (everywhere_iff.mp spelled).2 inner
      (List.mem_flatten.mpr ⟨branch, List.mem_singleton_self _, member⟩)
  · rwa [List.mem_singleton.mp member]

/-- A suffix makes a symbol that can be written, since the reader has checked its numbers. -/
theorem spelled_applySuffix {suffix : ParseTree} {symbol result : Symbol}
    (spelled : symbol.Everywhere Symbol.Spelled) (applied : applySuffix suffix symbol = .ok result) :
    result.Everywhere Symbol.Spelled := by
  rcases applySuffix_eq_ok.mp applied with ⟨numbers, read, _, makes⟩
  have small : forall number, number ∈ numbers -> number ≤ boundLimit := by
    intro number member
    rcases mem_of_mapM read member with ⟨token, _, isNumber⟩
    exact le_of_readNumber isNumber
  have body : forall inner, inner ∈ sequenceOf symbol -> inner.Everywhere Symbol.Spelled :=
    fun _ => spelled_sequenceOf spelled
  unfold suffixed? at makes
  split at makes
  case h_8 => cases makes
  all_goals
    cases makes
    refine everywhere_iff.mpr ⟨?_, body⟩
  · exact trivial
  · exact trivial
  · exact trivial
  · exact ⟨small _ List.mem_cons_self, small _ List.mem_cons_self⟩
  · exact ⟨small _ List.mem_cons_self, Nat.zero_le _⟩
  · exact ⟨small _ List.mem_cons_self, small _ (List.mem_cons_of_mem _ List.mem_cons_self)⟩
  · exact ⟨Nat.zero_le _, small _ List.mem_cons_self⟩

theorem eq_of_withoutLabels {rule : String} {branches : List Branch} {sequences : List (List Symbol)}
    (read : withoutLabels rule branches = .ok sequences) :
    sequences = branches.map Branch.symbols := by
  induction branches generalizing sequences with
  | nil => exact (Except.ok.inj read).symm
  | cons branch rest inductionHypothesis =>
      rw [withoutLabels] at read
      split at read
      · cases read
      · rcases of_bind_eq_ok read with ⟨others, later, made⟩
        cases made
        rw [inductionHypothesis later, List.map_cons]

theorem mem_of_onlyNode {tree node : ParseTree} (only : onlyNode tree = .ok node) :
    node ∈ tree.nodes := by
  unfold onlyNode at only
  split at only
  next first rest nodes =>
    cases only
    rw [nodes]
    exact List.mem_cons_self
  · cases only

/-- What is read of a name or a group, nested so deep at most, can be written. -/
def ReadsSpelled (rule : String) (bound : Nat) : Prop :=
  forall (tree : ParseTree) (symbol : Symbol), Under "atom" tree ->
    readAtom rule bound tree = .ok symbol -> symbol.Everywhere Symbol.Spelled

/-- What is read of an item can be written. -/
theorem spelled_readItem {rule : String} {bound : Nat} (reads : ReadsSpelled rule bound)
    {tree : ParseTree} (under : Under "item" tree) {symbol : Symbol}
    (read : readItem rule bound tree = .ok symbol) : symbol.Everywhere Symbol.Spelled := by
  have begins : forall rule, rule ∈ grammar.rules -> rule.name = "item" -> forall production,
      production ∈ rule.productions ->
      production.symbols = [.name "atom", .optional [.name "suffix"]] := by decide
  rcases under.production (by decide) with
    ⟨written, listed, named, production, chosen, children, rfl, row⟩
  rw [begins written listed named production chosen] at row
  rcases row.head with ⟨atom, others, rfl, below⟩
  unfold readItem at read
  have nodes : (ParseTree.node (production.label.getD "item") (atom :: others)).nodes =
      atom :: others.filter ParseTree.isNode :=
    List.filter_cons_of_pos (below.isNode (by decide))
  rw [nodes] at read
  rcases of_bind_eq_ok read with ⟨inner, isInner, remaining⟩
  have spelled := reads atom inner below isInner
  split at remaining
  · cases remaining
    exact spelled
  · exact spelled_applySuffix spelled remaining

/-- What is read of an alternative can be written. -/
theorem spelled_readSequence {rule : String} {bound : Nat} (reads : ReadsSpelled rule bound)
    {tree : ParseTree} (under : Under "seq" tree) {branch : Branch}
    (read : readSequence rule bound tree = .ok branch) : branch.Spelled := by
  unfold readSequence at read
  rcases of_bind_eq_ok read with ⟨symbols, items, made⟩
  cases made
  refine ⟨fun symbol member => ?_, fun label => isIdentifier_of_tokenNamed under⟩
  rcases mem_of_mapM items member with ⟨item, inside, isItem⟩
  rcases under.node_mem inside with ⟨inner, mention, below⟩
  have each : forall name, name ∈ (mentioned "seq").filter (· ∈ grammar.ruleNames) ->
      name = "item" := by decide
  exact spelled_readItem reads (each inner mention ▸ below) isItem

/-- What is read of alternatives can be written, and there is one at least. -/
theorem spelled_readAlternatives {rule : String} {bound : Nat} (reads : ReadsSpelled rule bound)
    {tree : ParseTree} (under : Under "alts" tree) {branches : List Branch}
    (read : readAlternatives rule bound tree = .ok branches) :
    branches ≠ [] ∧ forall branch, branch ∈ branches -> branch.Spelled := by
  unfold readAlternatives at read
  constructor
  · have begins : forall rule, rule ∈ grammar.rules -> rule.name = "alts" -> forall production,
        production ∈ rule.productions ->
        production.symbols = [.name "seq", .repeat0 [.name "|", .name "seq"]] := by decide
    rcases under.production (by decide) with
      ⟨written, listed, named, production, chosen, children, rfl, row⟩
    rw [begins written listed named production chosen] at row
    rcases row.head with ⟨sequence, others, rfl, below⟩
    rintro rfl
    have nodes : (ParseTree.node (production.label.getD "alts") (sequence :: others)).nodes =
        sequence :: others.filter ParseTree.isNode :=
      List.filter_cons_of_pos (below.isNode (by decide))
    rw [nodes] at read
    cases mapM_eq_ok.mp read
  · intro branch member
    rcases mem_of_mapM read member with ⟨sequence, inside, isBranch⟩
    rcases under.node_mem inside with ⟨inner, mention, below⟩
    have each : forall name, name ∈ (mentioned "alts").filter (· ∈ grammar.ruleNames) ->
        name = "seq" := by decide
    exact spelled_readSequence reads (each inner mention ▸ below) isBranch

/-- What is read of the alternatives between two brackets can be written. -/
theorem spelled_group {rule : String} {bound : Nat} (reads : ReadsSpelled rule bound)
    {tree : ParseTree} (under : Under "atom" tree) {branches : List (List Symbol)}
    (read : (onlyNode tree >>= fun alternatives =>
      readAlternatives rule bound alternatives >>= withoutLabels rule) = .ok branches) :
    (Symbol.alternation branches).Everywhere Symbol.Spelled := by
  rcases of_bind_eq_ok read with ⟨alternatives, only, remaining⟩
  rcases of_bind_eq_ok remaining with ⟨labelled, isLabelled, without⟩
  rcases under.node_mem (mem_of_onlyNode only) with ⟨inner, mention, below⟩
  have isAlternatives : inner = "alts" := by
    have each : forall name, name ∈ (mentioned "atom").filter (· ∈ grammar.ruleNames) ->
        name = "alts" := by decide
    exact each inner mention
  rcases spelled_readAlternatives reads (isAlternatives ▸ below) isLabelled with ⟨inhabited, spelled⟩
  rw [eq_of_withoutLabels without]
  refine everywhere_iff.mpr ⟨fun empty => inhabited (List.map_eq_nil_iff.mp empty), ?_⟩
  intro child member
  rcases List.mem_flatten.mp member with ⟨sequence, listed, inside⟩
  rcases List.mem_map.mp listed with ⟨branch, chosen, rfl⟩
  exact (spelled branch chosen).symbols child inside

/-- What is read of a name or a group can be written. -/
theorem spelled_readAtom {rule : String} {bound : Nat} (reads : ReadsSpelled rule bound)
    {tree : ParseTree} (under : Under "atom" tree) {symbol : Symbol}
    (read : readAtom rule (bound + 1) tree = .ok symbol) : symbol.Everywhere Symbol.Spelled := by
  unfold readAtom at read
  dsimp only at read
  split at read
  next isName =>
    -- A name is an identifier or quoted.
    cases read
    have names : forall rule, rule ∈ grammar.rules -> rule.name = "atom" -> forall production,
        production ∈ rule.productions -> production.label.getD "atom" = "Name" ->
        Exists fun name => name ∈ ["ident", "quoted"] ∧ production.symbols = [.name name] := by decide
    have terminals : forall name, name ∈ ["ident", "quoted"] -> name ∉ grammar.ruleNames := by decide
    rcases under.production (by decide) with
      ⟨rule, listed, named, production, chosen, children, rfl, row⟩
    rcases names rule listed named production chosen isName with ⟨name, which, symbols⟩
    rw [symbols] at row
    rcases row.head with ⟨tree, others, rfl, below⟩
    rcases below.token (terminals name which) with ⟨token, rfl, rfl, lexical⟩
    have written := writable_unquote lexical (List.mem_pair.mp which)
    exact everywhere_iff.mpr ⟨written, fun _ impossible => (List.not_mem_nil impossible).elim⟩
  next =>
    rcases of_bind_eq_ok read with ⟨branches, group, made⟩
    cases made
    exact spelled_group reads under group
  next =>
    rcases of_bind_eq_ok read with ⟨branches, group, made⟩
    cases made
    exact everywhere_iff.mpr ⟨trivial, fun inner => spelled_sequenceOf (spelled_group reads under group)⟩
  next => cases read

/-- Names and groups that are read can be written, however deep they are nested. -/
theorem readsSpelled (rule : String) (bound : Nat) : ReadsSpelled rule bound := by
  induction bound with
  | zero =>
      intro tree symbol _ read
      unfold readAtom at read
      cases read
  | succ bound inductionHypothesis =>
      exact fun tree symbol under read => spelled_readAtom inductionHypothesis under read

/-! ## Rules -/

theorem spelled_productionOf {branch : Branch} (spelled : branch.Spelled) :
    (productionOf branch).Spelled := by
  unfold productionOf
  split
  · exact ⟨Or.inr ⟨rfl, rfl⟩, nofun, spelled.symbols⟩
  next label notSilent isLabel =>
    refine ⟨Or.inl rfl, fun other same => ?_, spelled.symbols⟩
    cases same
    exact ⟨spelled.label label isLabel, notSilent⟩
  · exact ⟨Or.inl rfl, nofun, spelled.symbols⟩

/-- What is read of a rule can be written. -/
theorem spelled_readRule {tree : ParseTree} (under : Under "rule" tree) {rule : Rule}
    (read : readRule tree = .ok rule) : rule.Spelled := by
  unfold readRule at read
  split at read
  · cases read
  next name named =>
    rcases of_bind_eq_ok read with ⟨alternatives, only, remaining⟩
    rcases of_bind_eq_ok remaining with ⟨branches, isBranches, made⟩
    cases made
    rcases under.node_mem (mem_of_onlyNode only) with ⟨inner, mention, below⟩
    have each : forall name, name ∈ (mentioned "rule").filter (· ∈ grammar.ruleNames) ->
        name = "alts" := by decide
    rcases spelled_readAlternatives (readsSpelled name (tree.depth + 1))
      (each inner mention ▸ below) isBranches with ⟨inhabited, spelled⟩
    refine ⟨isIdentifier_of_tokenNamed under named,
      fun empty => inhabited (List.map_eq_nil_iff.mp empty), fun production chosen => ?_⟩
    rcases List.mem_map.mp chosen with ⟨branch, listed, rfl⟩
    exact spelled_productionOf (spelled branch listed)

/-- The rules that are read of a text can be written. -/
theorem spelled_of_parseText {text : String} {tree : ParseTree} (parsed : parseText text = .ok tree)
    {rules : List Rule} (read : tree.nodes.mapM readRule = .ok rules) {rule : Rule}
    (member : rule ∈ rules) : rule.Spelled := by
  rcases forest_of_parseText parsed with ⟨word, lexical, forest⟩
  have row : Row [.name "grammar"] [tree] := ⟨word, lexical, forest⟩
  rcases row.head with ⟨only, others, same, under⟩
  cases same
  rcases mem_of_mapM read member with ⟨node, inside, isRule⟩
  rcases under.node_mem inside with ⟨inner, mention, below⟩
  have each : forall name, name ∈ (mentioned "grammar").filter (· ∈ grammar.ruleNames) ->
      name = "rule" := by decide
  exact spelled_readRule (each inner mention ▸ below) isRule

end Ebnf

end ShiftReduce
