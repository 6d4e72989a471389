import ShiftReduce.Proofs.Ebnf.Phrases

namespace ShiftReduce

/-!
# What the reader refuses

The reader is given trees of the notation and nothing else.  On each of them it succeeds, and then the
tokens of the tree are a phrase, or it refuses a label or a bound; it never meets a tree that it does
not know.  As in the reader, the induction is on how deep groups are nested, and everything else follows
the children of a node.
-/

/-- What the reader may refuse in a text that follows the grammar of the notation. -/
def NotationError.IsRefusal : NotationError -> Prop
  | .misplacedLabel _ _ => True
  | .invalidBound _ _ => True
  | _ => False

namespace Ebnf

/-! ## Judgements -/

/-- The reader succeeds with something of which that is true, or it refuses a label or a bound. -/
def Judged {α : Type} (holds : α -> Prop) : Except NotationError α -> Prop
  | .ok result => holds result
  | .error failure => failure.IsRefusal

section

variable {α β : Type} {holds : α -> Prop} {later : β -> Prop}

theorem Judged.bind {value : Except NotationError α} {next : α -> Except NotationError β}
    (judged : Judged holds value) (goesOn : forall result, holds result -> Judged later (next result)) :
    Judged later (value >>= next) := by
  cases value with
  | error failure => exact judged
  | ok result => exact goesOn result judged

theorem Judged.imp {other : α -> Prop} {value : Except NotationError α} (judged : Judged holds value)
    (implies : forall result, holds result -> other result) : Judged other value := by
  cases value with
  | error failure => exact judged
  | ok result => exact implies result judged

/-- A computation on all elements of a list is judged one by one. -/
theorem judged_mapM {compute : α -> Except NotationError β} {values : List α}
    {holds : α -> β -> Prop} (each : forall value, value ∈ values ->
      Judged (holds value) (compute value)) :
    Judged (List.Forall₂ holds values) (values.mapM compute) := by
  induction values with
  | nil => exact List.Forall₂.nil
  | cons value rest inductionHypothesis =>
      rw [List.mapM_cons]
      refine (each value List.mem_cons_self).bind fun result first => ?_
      refine (inductionHypothesis fun other member => each other (List.mem_cons_of_mem _ member)).bind
        fun results others => ?_
      exact List.Forall₂.cons first others

end

/-! ## Trees of the notation over their tokens -/

/-- The trees are those of the symbols over the word, whose tokens have texts. -/
structure Shapes (symbols : List Symbol) (trees : List ParseTree) (word : List Token) : Prop where
  texts : forall token, token ∈ word -> token.text.isSome = true
  forest : grammar.Forest Symbol.Admits (fun _ => true) symbols trees word

variable {rest body : List Symbol} {trees : List ParseTree} {word : List Token}

theorem Shapes.eq_nil (shapes : Shapes [] trees word) : trees = [] ∧ word = [] := by
  rcases shapes with ⟨_, forest⟩
  generalize nothing : ([] : List Symbol) = symbols at forest
  cases forest with
  | nil => exact ⟨rfl, rfl⟩
  | token | rule | operator => cases nothing

/-- A name of a token stands for a leaf. -/
theorem Shapes.leaf {name : String} (terminal : name ∉ grammar.ruleNames)
    (shapes : Shapes (.name name :: rest) trees word) :
    Exists fun token => Exists fun others => Exists fun back => trees = .leaf token :: others ∧
      word = token :: back ∧ token.name = name ∧ token.text.isSome = true ∧
      Shapes rest others back := by
  rcases shapes with ⟨texts, forest⟩
  generalize symbols : Symbol.name name :: rest = row at forest
  cases forest with
  | nil => cases symbols
  | token token _ others back _ later =>
      cases symbols
      exact ⟨token, others, back, rfl, rfl, rfl, texts token List.mem_cons_self,
        fun other member => texts other (List.mem_cons_of_mem _ member), later⟩
  | rule rule production _ children others front back listed =>
      cases symbols
      exact (terminal (List.mem_map_of_mem listed)).elim
  | operator symbol unfolded _ inner others front back opened =>
      cases symbols
      cases opened

/-- The productions of the rules of that name. -/
def productionsOf (name : String) : List Production :=
  (grammar.rules.filter (·.name == name)).flatMap Rule.productions

/-- The name of a rule stands for a node of one of its productions. -/
theorem Shapes.node {name : String} (isRule : name ∈ grammar.ruleNames)
    (shapes : Shapes (.name name :: rest) trees word) :
    Exists fun production => Exists fun children => Exists fun others => Exists fun front =>
      Exists fun back => production ∈ productionsOf name ∧
        trees = .node (production.label.getD name) children :: others ∧ word = front ++ back ∧
        Shapes production.symbols children front ∧ Shapes rest others back := by
  rcases shapes with ⟨texts, forest⟩
  generalize symbols : Symbol.name name :: rest = row at forest
  cases forest with
  | nil => cases symbols
  | token token _ others back terminal later =>
      cases symbols
      exact (terminal isRule).elim
  | rule rule production _ children others front back listed chosen inner later =>
      cases symbols
      refine ⟨production, children, others, front, back, ?_, rfl, rfl,
        ⟨fun token member => texts token (List.mem_append_left _ member), inner⟩,
        ⟨fun token member => texts token (List.mem_append_right _ member), later⟩⟩
      exact List.mem_flatMap.mpr ⟨rule, List.mem_filter.mpr ⟨listed, beq_self_eq_true _⟩, chosen⟩
  | operator symbol unfolded _ inner others front back opened =>
      cases symbols
      cases opened

/-- An operator stands for a sequence that it admits. -/
theorem Shapes.operator {symbol : Symbol} (operator : symbol.asName? = none)
    (shapes : Shapes (symbol :: rest) trees word) :
    Exists fun unfolded => Exists fun inner => Exists fun others => Exists fun front =>
      Exists fun back => symbol.Admits unfolded ∧ trees = inner ++ others ∧ word = front ++ back ∧
        Shapes unfolded inner front ∧ Shapes rest others back := by
  rcases shapes with ⟨texts, forest⟩
  generalize symbols : symbol :: rest = row at forest
  cases forest with
  | nil => cases symbols
  | token token _ others back =>
      cases symbols
      cases operator
  | rule rule production _ children others front back =>
      cases symbols
      cases operator
  | operator symbol unfolded _ inner others front back opened within later =>
      cases symbols
      exact ⟨unfolded, inner, others, front, back, opened, rfl, rfl,
        ⟨fun token member => texts token (List.mem_append_left _ member), within⟩,
        ⟨fun token member => texts token (List.mem_append_right _ member), later⟩⟩

/-- A repetition stands for copies. -/
theorem Shapes.repeat0 (shapes : Shapes (.repeat0 body :: rest) trees word) :
    Exists fun count => Exists fun inner => Exists fun others => Exists fun front =>
      Exists fun back => trees = inner ++ others ∧ word = front ++ back ∧
        Shapes (List.replicate count body).flatten inner front ∧ Shapes rest others back := by
  rcases shapes.operator rfl with ⟨_, inner, others, front, back, admits, rfl, rfl, within, later⟩
  cases admits with
  | repeat0 _ count => exact ⟨count, inner, others, front, back, rfl, rfl, within, later⟩

/-- An option stands for what is inside it or for nothing. -/
theorem Shapes.optional (shapes : Shapes (.optional body :: rest) trees word) :
    Shapes rest trees word ∨ Exists fun inner => Exists fun others => Exists fun front =>
      Exists fun back => trees = inner ++ others ∧ word = front ++ back ∧
        Shapes body inner front ∧ Shapes rest others back := by
  rcases shapes.operator rfl with ⟨_, inner, others, front, back, admits, rfl, rfl, within, later⟩
  cases admits with
  | absent =>
      rcases within.eq_nil with ⟨rfl, rfl⟩
      exact Or.inl later
  | present => exact Or.inr ⟨inner, others, front, back, rfl, rfl, within, later⟩

/-- Names of tokens stand for leaves with these names. -/
theorem Shapes.leaves {names : List String}
    (terminals : forall name, name ∈ names -> name ∉ grammar.ruleNames)
    (shapes : Shapes (names.map .name ++ rest) trees word) :
    Exists fun front => Exists fun others => Exists fun back => trees = front.map .leaf ++ others ∧
      word = front ++ back ∧ front.map Token.name = names ∧ Shapes rest others back := by
  induction names generalizing trees word with
  | nil => exact ⟨[], trees, word, rfl, rfl, rfl, shapes⟩
  | cons name names inductionHypothesis =>
      rcases shapes.leaf (terminals name List.mem_cons_self) with
        ⟨token, others, back, rfl, rfl, named, _, later⟩
      rcases inductionHypothesis (fun other member => terminals other (List.mem_cons_of_mem _ member))
        later with ⟨front, others, back, rfl, rfl, same, remaining⟩
      exact ⟨token :: front, others, back, rfl, rfl, congrArg₂ List.cons named same, remaining⟩

/-- Every tree under the name of a rule is judged, if it is not too deep. -/
def Judges {α : Type} (name : String) (bound : Nat) (read : ParseTree -> Except NotationError α)
    (holds : List (String × Option String) -> α -> Prop) : Prop :=
  forall (rest : List Symbol) (trees : List ParseTree) (word : List Token),
    Shapes (.name name :: rest) trees word ->
    Exists fun tree => Exists fun others => Exists fun front => Exists fun back =>
      trees = tree :: others ∧ word = front ++ back ∧ tree.isNode = true ∧ Shapes rest others back ∧
      (tree.depth ≤ bound -> Judged (holds (front.map Token.content)) (read tree))

/-- Trees under the name of a rule are judged production by production. -/
theorem judges_of_productions {α : Type} {name : String} {bound : Nat}
    {read : ParseTree -> Except NotationError α} {holds : List (String × Option String) -> α -> Prop}
    (isRule : name ∈ grammar.ruleNames)
    (each : forall production, production ∈ productionsOf name -> forall children word,
      Shapes production.symbols children word -> 0 < bound ->
      (forall child, child ∈ children -> child.depth < bound) ->
      Judged (holds (word.map Token.content)) (read (.node (production.label.getD name) children))) :
    Judges name bound read holds := by
  intro rest trees word shapes
  rcases shapes.node isRule with
    ⟨production, children, others, front, back, chosen, rfl, rfl, inside, later⟩
  refine ⟨_, others, front, back, rfl, rfl, rfl, later, fun enough => ?_⟩
  have positive : 0 < (ParseTree.node (production.label.getD name) children).depth := by
    rw [ParseTree.depth]
    exact Nat.succ_pos _
  exact each production chosen children front inside (Nat.lt_of_lt_of_le positive enough)
    fun child member => Nat.lt_of_lt_of_le (ParseTree.depth_lt_of_child _ member) enough

/-- Copies of a name, perhaps with marks in front of each, are judged one by one. -/
theorem Judges.copies {α : Type} {name : String} {bound : Nat}
    {read : ParseTree -> Except NotationError α} {holds : List (String × Option String) -> α -> Prop}
    (judges : Judges name bound read holds) (marks : List String)
    (terminals : forall mark, mark ∈ marks -> mark ∉ grammar.ruleNames)
    (many : List (String × Option String) -> List α -> Prop) (nothing : many [] [])
    (more : forall before front back result results, before.map Prod.fst = marks ->
      holds front result -> many back results -> many (before ++ (front ++ back)) (result :: results))
    {count : Nat}
    (shapes : Shapes (List.replicate count (marks.map .name ++ [.name name])).flatten trees word)
    (shallow : forall tree, tree ∈ trees -> tree.depth ≤ bound) :
    (marks = [] -> forall tree, tree ∈ trees -> tree.isNode = true) ∧
      Judged (many (word.map Token.content)) ((trees.filter ParseTree.isNode).mapM read) := by
  induction count generalizing trees word with
  | zero =>
      rcases shapes.eq_nil with ⟨rfl, rfl⟩
      exact ⟨fun _ _ impossible => (List.not_mem_nil impossible).elim, nothing⟩
  | succ count inductionHypothesis =>
      rw [List.replicate_succ, List.flatten_cons, List.append_assoc] at shapes
      rcases shapes.leaves terminals with ⟨before, others, back, rfl, rfl, named, later⟩
      rcases judges _ _ _ later with
        ⟨tree, others, front, back, rfl, rfl, isNode, remaining, judged⟩
      have first := judged (shallow tree (List.mem_append_right _ List.mem_cons_self))
      rcases inductionHypothesis remaining fun other member =>
        shallow other (List.mem_append_right _ (List.mem_cons_of_mem _ member)) with
        ⟨areNodes, judgedOthers⟩
      constructor
      · intro unmarked other member
        rw [unmarked, List.map_eq_nil_iff] at named
        rw [named, List.map_nil, List.nil_append] at member
        rcases List.mem_cons.mp member with rfl | behind
        · exact isNode
        · exact areNodes unmarked other behind
      · have names : (before.map Token.content).map Prod.fst = marks := by
          rw [List.map_map]
          exact named
        rw [List.filter_append, filter_leaves, List.nil_append, List.filter_cons_of_pos isNode,
          List.mapM_cons, List.map_append, List.map_append]
        refine first.bind fun result isFirst => judgedOthers.bind fun results areOthers => ?_
        exact more _ _ _ result results names isFirst areOthers

/-! ## Suffixes -/

theorem judged_readNumber {token : Token} (named : token.name = "number") :
    Judged (IsBound token.content) (readNumber token) := by
  unfold readNumber
  dsimp only
  split
  · exact trivial
  next small =>
    refine ⟨named, (value_of_digits token.textOrEmpty).symm, ?_⟩
    exact Nat.lt_of_le_pred (by decide) (Nat.le_of_not_lt small)

/-- If a suffix makes something of its numbers, then only an upper bound of zero is refused. -/
theorem judged_applySuffix {suffix : ParseTree} {numbers : List Nat}
    (read : (suffix.tokens.filter (·.name == "number")).mapM readNumber = .ok numbers)
    {symbol result : Symbol}
    (makes : suffixed? suffix.title numbers (sequenceOf symbol) = some result) :
    Judged (fun _ => suffix.title = "AtLeast" ∨ numbers.getLast? ≠ some 0)
      (applySuffix suffix symbol) := by
  by_cases allowed : suffix.title = "AtLeast" ∨ numbers.getLast? ≠ some 0
  · rw [applySuffix_eq_ok.mpr ⟨numbers, read, allowed, makes⟩]
    exact allowed
  · rw [not_or, not_not] at allowed
    rcases allowed with ⟨other, isZero⟩
    have length := (mapM_eq_ok.mp read).length_eq
    have continues : forall next : List Nat -> Except NotationError Symbol,
        (Except.ok numbers >>= next) = next numbers := fun _ => rfl
    unfold applySuffix
    dsimp only
    rw [read, continues]
    cases last : (suffix.tokens.filter (·.name == "number")).getLast? with
    | none =>
        rw [List.getLast?_eq_none_iff.mp last] at length
        rw [List.eq_nil_of_length_eq_zero length.symm] at isZero
        cases isZero
    | some token =>
        rw [isZero]
        exact (congrArg _ (if_pos other)).mpr trivial

/-- A suffix with these tokens is a phrase if its numbers are bounds that its label allows. -/
theorem judged_suffix {label : String} {word : List Token} (symbol : Symbol)
    (each : forall numbers,
      List.Forall₂ (fun token => IsBound (Token.content token))
        (word.filter (·.name == "number")) numbers ->
      (Exists fun result => suffixed? label numbers (sequenceOf symbol) = some result) ∧
        (label = "AtLeast" ∨ numbers.getLast? ≠ some 0 ->
          Phrase .suffix (word.map Token.content))) :
    Judged (fun _ => Phrase .suffix (word.map Token.content))
      (applySuffix (.node label (word.map .leaf)) symbol) := by
  have bounds : Judged (List.Forall₂ (fun token => IsBound (Token.content token))
      (word.filter (·.name == "number"))) ((word.filter (·.name == "number")).mapM readNumber) :=
    judged_mapM fun token member => judged_readNumber (eq_of_beq (List.mem_filter.mp member).2)
  cases read : (word.filter (·.name == "number")).mapM readNumber with
  | error failure =>
      rw [read] at bounds
      unfold applySuffix
      dsimp only
      rw [tokens_leaves, read]
      exact bounds
  | ok numbers =>
      rw [read] at bounds
      rcases each numbers bounds with ⟨⟨result, makes⟩, phrase⟩
      have read : ((ParseTree.node label (word.map .leaf)).tokens.filter (·.name == "number")).mapM
          readNumber = .ok numbers := by
        rw [tokens_leaves]
        exact read
      exact (judged_applySuffix read makes).imp fun _ => phrase

/-- The labels of suffixes, and the names of their tokens. -/
def suffixes : List (String × List String) :=
  [("Star", ["*"]), ("Plus", ["+"]), ("Question", ["?"]), ("Exact", ["\x7b", "number", "\x7d"]),
    ("AtLeast", ["\x7b", "number", ",", "\x7d"]),
    ("Between", ["\x7b", "number", ",", "number", "\x7d"]), ("AtMost", ["\x7b", ",", "number", "\x7d"])]

/-- A mark is a suffix by itself. -/
theorem judged_mark {label mark : String} (isMark : mark ∈ ["*", "+", "?"])
    (named : word.map Token.name = [mark]) (makes : forall body, Exists fun result =>
      suffixed? label [] body = some result) (symbol : Symbol) :
    Judged (fun _ => Phrase .suffix (word.map Token.content))
      (applySuffix (.node label (word.map .leaf)) symbol) := by
  rcases List.map_eq_singleton_iff.mp named with ⟨token, rfl, rfl⟩
  refine judged_suffix symbol fun numbers bounds => ?_
  have nothing : [token].filter (·.name == "number") = [] := by
    refine List.filter_cons_of_neg fun isNumber => ?_
    rw [eq_of_beq isNumber] at isMark
    exact absurd isMark (by decide)
  rw [nothing] at bounds
  cases bounds
  exact ⟨makes _, fun _ => .mark _ isMark⟩

/-- The tokens of a suffix are one, unless one of its bounds is refused. -/
theorem judged_words {label : String} {names : List String} (known : (label, names) ∈ suffixes)
    (named : word.map Token.name = names) (symbol : Symbol) :
    Judged (fun _ => Phrase .suffix (word.map Token.content))
      (applySuffix (.node label (word.map .leaf)) symbol) := by
  simp only [suffixes, List.mem_cons, List.not_mem_nil, or_false, Prod.mk.injEq] at known
  rcases known with ⟨rfl, rfl⟩ | ⟨rfl, rfl⟩ | ⟨rfl, rfl⟩ | ⟨rfl, rfl⟩ | ⟨rfl, rfl⟩ | ⟨rfl, rfl⟩ |
    ⟨rfl, rfl⟩
  · exact judged_mark (by decide) named (fun _ => ⟨_, rfl⟩) symbol
  · exact judged_mark (by decide) named (fun _ => ⟨_, rfl⟩) symbol
  · exact judged_mark (by decide) named (fun _ => ⟨_, rfl⟩) symbol
  · simp only [List.map_eq_cons_iff, List.map_eq_nil_iff] at named
    rcases named with ⟨opening, _, rfl, opens, count, _, rfl, isCount, closing, _, rfl, closes, rfl⟩
    refine judged_suffix symbol fun numbers bounds => ?_
    have counted : [opening, count, closing].filter (·.name == "number") = [count] := by
      simp [opens, isCount, closes]
    rw [counted] at bounds
    rcases List.forall₂_cons_left_iff.mp bounds with ⟨number, _, isBound, nothing, rfl⟩
    cases nothing
    exact ⟨⟨_, rfl⟩, fun allowed =>
      .exactly _ _ _ number opens closes isBound (by simpa using allowed)⟩
  · simp only [List.map_eq_cons_iff, List.map_eq_nil_iff] at named
    rcases named with ⟨opening, _, rfl, opens, least, _, rfl, isLeast, comma, _, rfl, separates,
      closing, _, rfl, closes, rfl⟩
    refine judged_suffix symbol fun numbers bounds => ?_
    have counted : [opening, least, comma, closing].filter (·.name == "number") = [least] := by
      simp [opens, isLeast, separates, closes]
    rw [counted] at bounds
    rcases List.forall₂_cons_left_iff.mp bounds with ⟨number, _, isBound, nothing, rfl⟩
    cases nothing
    exact ⟨⟨_, rfl⟩, fun _ => .atLeast _ _ _ _ number opens separates closes isBound⟩
  · simp only [List.map_eq_cons_iff, List.map_eq_nil_iff] at named
    rcases named with ⟨opening, _, rfl, opens, least, _, rfl, isLeast, comma, _, rfl, separates,
      most, _, rfl, isMost, closing, _, rfl, closes, rfl⟩
    refine judged_suffix symbol fun numbers bounds => ?_
    have counted : [opening, least, comma, most, closing].filter (·.name == "number") =
        [least, most] := by
      simp [opens, isLeast, separates, isMost, closes]
    rw [counted] at bounds
    rcases List.forall₂_cons_left_iff.mp bounds with ⟨low, _, fromLow, remaining, rfl⟩
    rcases List.forall₂_cons_left_iff.mp remaining with ⟨high, _, toHigh, nothing, rfl⟩
    cases nothing
    exact ⟨⟨_, rfl⟩, fun allowed =>
      .between _ _ _ _ _ low high opens separates closes fromLow toHigh (by simpa using allowed)⟩
  · simp only [List.map_eq_cons_iff, List.map_eq_nil_iff] at named
    rcases named with ⟨opening, _, rfl, opens, comma, _, rfl, separates, most, _, rfl, isMost,
      closing, _, rfl, closes, rfl⟩
    refine judged_suffix symbol fun numbers bounds => ?_
    have counted : [opening, comma, most, closing].filter (·.name == "number") = [most] := by
      simp [opens, separates, isMost, closes]
    rw [counted] at bounds
    rcases List.forall₂_cons_left_iff.mp bounds with ⟨high, _, toHigh, nothing, rfl⟩
    cases nothing
    exact ⟨⟨_, rfl⟩, fun allowed =>
      .atMost _ _ _ _ high opens separates closes toHigh (by simpa using allowed)⟩

/-- A suffix is a phrase, or one of its bounds is refused. -/
theorem judges_suffix (bound : Nat) (symbol : Symbol) :
    Judges "suffix" bound (applySuffix · symbol) fun contents _ => Phrase .suffix contents := by
  refine judges_of_productions (by decide) fun production chosen children word inside _ _ => ?_
  have all : productionsOf "suffix" = suffixes.map fun suffix => words suffix.2 (some suffix.1) := by
    decide
  have terminals : forall suffix, suffix ∈ suffixes -> forall name, name ∈ suffix.2 ->
      name ∉ grammar.ruleNames := by decide
  rw [all] at chosen
  rcases List.mem_map.mp chosen with ⟨⟨label, names⟩, known, rfl⟩
  have inside : Shapes (names.map .name ++ []) children word := by rwa [List.append_nil]
  rcases inside.leaves (terminals _ known) with ⟨front, others, back, rfl, rfl, named, nothing⟩
  rcases nothing.eq_nil with ⟨rfl, rfl⟩
  rw [List.append_nil, List.append_nil]
  exact judged_words known named symbol

/-! ## Items and alternatives -/

section

variable {rule : String} {bound : Nat}

/-- Names and groups are judged that are nested so deep at most. -/
abbrev JudgesAtoms (rule : String) (bound : Nat) : Prop :=
  Judges "atom" bound (readAtom rule bound) fun contents _ => Phrase .atom contents

theorem judges_item (atoms : JudgesAtoms rule bound) :
    Judges "item" bound (readItem rule bound) fun contents _ => Phrase .item contents := by
  refine judges_of_productions (by decide) fun production chosen children word inside _ shallow => ?_
  have only : productionsOf "item" =
      [{ symbols := [.name "atom", .optional [.name "suffix"]] }] := by decide
  rw [only, List.mem_singleton] at chosen
  subst chosen
  rcases atoms _ _ _ inside with ⟨atom, others, front, back, rfl, rfl, isNode, later, judged⟩
  have first := judged (shallow atom List.mem_cons_self).le
  have nodes : (ParseTree.node "item" (atom :: others)).nodes =
      atom :: others.filter ParseTree.isNode := List.filter_cons_of_pos isNode
  rw [List.map_append]
  change Judged _ (readItem rule bound (.node "item" (atom :: others)))
  unfold readItem
  rw [nodes]
  refine first.bind fun symbol phrase => ?_
  rcases later.optional with absent | ⟨inner, _, middle, _, rfl, rfl, suffix, nothing⟩
  · rcases absent.eq_nil with ⟨rfl, rfl⟩
    rw [List.map_nil, List.append_nil]
    exact .item _ phrase
  · rcases nothing.eq_nil with ⟨rfl, rfl⟩
    rcases judges_suffix bound symbol _ _ _ suffix with
      ⟨tree, _, ending, _, rfl, rfl, isSuffix, nothing, judgedSuffix⟩
    rcases nothing.eq_nil with ⟨rfl, rfl⟩
    simp only [List.append_nil, List.filter_cons_of_pos isSuffix]
    exact (judgedSuffix (shallow tree (by simp)).le).imp fun _ later => .suffixed _ _ phrase later

/-- Branches may stand for such a part, inside a group only if none of them has a label. -/
def Fits (part : Bool -> Part) (contents : List (String × Option String)) (branches : List Branch) :
    Prop :=
  forall nested, (forall branch, branch ∈ branches -> nested = true -> branch.label = none) ->
    Phrase (part nested) contents

theorem judges_sequence (atoms : JudgesAtoms rule bound) :
    Judges "seq" bound (readSequence rule bound) fun contents branch =>
      Fits .sequence contents [branch] := by
  refine judges_of_productions (by decide) fun production chosen children word inside _ shallow => ?_
  have only : productionsOf "seq" =
      [{ symbols := [.repeat0 [.name "item"], .optional [.name "@", .name "ident"]] }] := by decide
  rw [only, List.mem_singleton] at chosen
  subst chosen
  rcases inside.repeat0 with ⟨count, trees, others, front, back, rfl, rfl, items, later⟩
  have judged := (judges_item atoms).copies [] (fun _ impossible => (List.not_mem_nil impossible).elim)
    (fun contents _ => Phrase .items contents) .noItems
    (fun before front back _ _ unmarked first others => by
      rw [List.map_eq_nil_iff.mp unmarked]
      exact .items front back first others)
    items fun tree member => (shallow tree (List.mem_append_left _ member)).le
  rcases judged with ⟨areNodes, judgedItems⟩
  rw [List.filter_eq_self.mpr (areNodes rfl)] at judgedItems
  have labelled : Exists fun label : List Token => others = label.map .leaf ∧ back = label ∧
      forall items, Phrase .items items -> forall symbols, Fits .sequence (items ++ label.map Token.content)
        [⟨symbols, (label.find? (·.name == "ident")).bind (·.text)⟩] := by
    rcases later.optional with absent | ⟨_, _, _, _, rfl, rfl, label, nothing⟩
    · rcases absent.eq_nil with ⟨rfl, rfl⟩
      refine ⟨[], rfl, rfl, fun items phrase symbols nested _ => ?_⟩
      rw [List.map_nil, List.append_nil]
      exact .sequence nested items phrase
    · rcases nothing.eq_nil with ⟨rfl, rfl⟩
      rcases label.leaf (by decide) with ⟨sign, _, _, rfl, rfl, isSign, _, label⟩
      rcases label.leaf (by decide) with ⟨name, _, _, rfl, rfl, isName, text, nothing⟩
      rcases nothing.eq_nil with ⟨rfl, rfl⟩
      refine ⟨[sign, name], rfl, rfl, fun items phrase symbols nested bare => ?_⟩
      have found : [sign, name].find? (·.name == "ident") = some name := by
        simp [isSign, isName]
      cases nested with
      | true =>
          have absent := bare _ (List.mem_singleton_self _) rfl
          rw [found] at absent
          rw [show name.text = none from absent] at text
          cases text
      | false => exact .labelled items sign.content name.content isSign isName phrase
  rcases labelled with ⟨_, rfl, rfl, fits⟩
  rcases parts_of_nodes "seq" (areNodes rfl) back with ⟨nodes, tokens⟩
  have reads : readSequence rule bound (.node "seq" (trees ++ back.map .leaf)) =
      (trees.mapM (readItem rule bound) >>= fun symbols =>
        pure ⟨symbols, (back.find? (·.name == "ident")).bind (·.text)⟩) := by
    unfold readSequence tokenNamed?
    rw [nodes, tokens]
  rw [List.map_append]
  refine (congrArg (Judged _) reads).mpr (judgedItems.bind fun symbols phrase => ?_)
  exact fits _ phrase symbols

/-- Alternatives are a phrase, inside a group only if none of them has a label. -/
theorem judges_alternatives (atoms : JudgesAtoms rule bound) :
    Judges "alts" bound (readAlternatives rule bound) (Fits .alternatives) := by
  refine judges_of_productions (by decide) fun production chosen children word inside _ shallow => ?_
  have only : productionsOf "alts" =
      [{ symbols := [.name "seq", .repeat0 [.name "|", .name "seq"]] }] := by decide
  rw [only, List.mem_singleton] at chosen
  subst chosen
  rcases judges_sequence atoms _ _ _ inside with
    ⟨tree, others, front, back, rfl, rfl, isNode, later, judged⟩
  have first := judged (shallow tree List.mem_cons_self).le
  rcases later.repeat0 with ⟨count, trees, _, middle, _, rfl, rfl, copies, nothing⟩
  rcases nothing.eq_nil with ⟨rfl, rfl⟩
  have judgedOthers := ((judges_sequence atoms).copies ["|"] (by decide) (Fits .others)
    (fun nested _ => .noOthers nested)
    (fun before front back branch branches isBar first later nested bare => by
      rcases List.map_eq_singleton_iff.mp isBar with ⟨bar, rfl, named⟩
      refine .others nested bar front back named (first nested fun other member => ?_)
        (later nested fun other member => bare other (List.mem_cons_of_mem _ member))
      rw [List.mem_singleton.mp member]
      exact bare branch List.mem_cons_self)
    copies fun other member =>
      (shallow other (List.mem_cons_of_mem _ (List.mem_append_left _ member))).le).2
  have reads : readAlternatives rule bound (.node "alts" (tree :: (trees ++ []))) =
      (readSequence rule bound tree >>= fun branch =>
        (trees.filter ParseTree.isNode).mapM (readSequence rule bound) >>= fun branches =>
          pure (branch :: branches)) := by
    unfold readAlternatives
    rw [← List.mapM_cons, ← List.filter_cons_of_pos isNode, List.append_nil]
    rfl
  rw [List.map_append, List.append_nil]
  refine (congrArg (Judged _) reads).mpr (first.bind fun branch fits => ?_)
  refine judgedOthers.bind fun branches fitOthers nested bare => ?_
  refine .alternatives nested _ _ (fits nested fun other member => ?_)
    (fitOthers nested fun other member => bare other (List.mem_cons_of_mem _ member))
  rw [List.mem_singleton.mp member]
  exact bare branch List.mem_cons_self

/-! ## Groups -/

/-- Only branches that have no labels are taken into a group. -/
theorem judged_withoutLabels (rule : String) (branches : List Branch) :
    Judged (fun _ => forall branch, branch ∈ branches -> branch.label = none)
      (withoutLabels rule branches) := by
  induction branches with
  | nil => exact fun _ impossible => (List.not_mem_nil impossible).elim
  | cons branch rest inductionHypothesis =>
      rw [withoutLabels]
      cases label : branch.label with
      | some name => exact trivial
      | none =>
          refine inductionHypothesis.bind fun others bare other member => ?_
          rcases List.mem_cons.mp member with rfl | behind
          · exact label
          · exact bare other behind

/-- The first node is found behind leaves. -/
theorem onlyNode_behind (label : String) (before : List Token) {tree : ParseTree}
    (isNode : tree.isNode = true) (after : List ParseTree) :
    onlyNode (.node label (before.map .leaf ++ tree :: after)) = .ok tree := by
  have nodes : (ParseTree.node label (before.map .leaf ++ tree :: after)).nodes =
      tree :: after.filter ParseTree.isNode := by
    unfold ParseTree.nodes
    rw [ParseTree.children, List.filter_append, filter_leaves, List.nil_append,
      List.filter_cons_of_pos isNode]
  unfold onlyNode
  rw [nodes]

/-- Alternatives between two marks are taken into a group only if they are a phrase there. -/
theorem judged_brackets (atoms : JudgesAtoms rule bound) {left right : String}
    (terminals : left ∉ grammar.ruleNames ∧ right ∉ grammar.ruleNames)
    (shapes : Shapes ([left, "alts", right].map .name) trees word)
    (shallow : forall tree, tree ∈ trees -> tree.depth < bound + 1) (label : String) :
    Exists fun opening => Exists fun body => Exists fun closing =>
      word.map Token.content = opening :: (body ++ [closing]) ∧ opening.1 = left ∧
        closing.1 = right ∧
        Judged (fun _ => Phrase (.alternatives true) body)
          (onlyNode (.node label trees) >>= fun alternatives =>
            readAlternatives rule bound alternatives >>= withoutLabels rule) := by
  rcases shapes.leaf terminals.1 with ⟨opening, _, _, rfl, rfl, opens, _, later⟩
  rcases judges_alternatives atoms _ _ _ later with
    ⟨tree, _, body, _, rfl, rfl, isNode, later, judged⟩
  rcases later.leaf terminals.2 with ⟨closing, _, _, rfl, rfl, closes, _, nothing⟩
  rcases nothing.eq_nil with ⟨rfl, rfl⟩
  have read := judged (Nat.lt_succ_iff.mp (shallow tree (by simp)))
  have only : onlyNode (.node label [.leaf opening, tree, .leaf closing]) = .ok tree :=
    onlyNode_behind label [opening] isNode _
  refine ⟨opening.content, body.map Token.content, closing.content, by simp, opens, closes, ?_⟩
  rw [only]
  refine read.bind fun branches fits => ?_
  exact (judged_withoutLabels rule branches).imp fun _ bare =>
    fits true fun branch member _ => bare branch member

/-- A name or a group is a phrase, unless something inside it is refused. -/
theorem judges_atom (rule : String) (bound : Nat) : JudgesAtoms rule bound := by
  induction bound with
  | zero =>
      exact judges_of_productions (by decide) fun _ _ _ _ _ impossible _ =>
        (Nat.lt_irrefl 0 impossible).elim
  | succ bound inductionHypothesis =>
      refine judges_of_productions (by decide) fun production chosen children word inside _ shallow => ?_
      have all : productionsOf "atom" = [words ["ident"] (some "Name"), words ["quoted"] (some "Name"),
          words ["(", "alts", ")"] (some "Group"), words ["[", "alts", "]"] (some "Option")] := by
        decide
      have named : forall name, (name = "ident" ∨ name = "quoted") -> name ∉ grammar.ruleNames ->
          Shapes [.name name] children word -> Judged (fun _ => Phrase .atom (word.map Token.content))
            (readAtom rule (bound + 1) (.node "Name" children)) := by
        intro name isName terminal single
        rcases single.leaf terminal with ⟨token, _, _, rfl, rfl, rfl, _, nothing⟩
        rcases nothing.eq_nil with ⟨rfl, rfl⟩
        rw [readAtom_name]
        exact .name token.content isName
      simp only [all, List.mem_cons, List.not_mem_nil, or_false] at chosen
      rcases chosen with rfl | rfl | rfl | rfl
      · exact named "ident" (Or.inl rfl) (by decide) inside
      · exact named "quoted" (Or.inr rfl) (by decide) inside
      · rcases judged_brackets inductionHypothesis (by decide) inside shallow "Group" with
          ⟨opening, body, closing, contents, opens, closes, judged⟩
        rw [contents]
        unfold readAtom
        exact judged.bind fun _ phrase => .group opening closing body opens closes phrase
      · rcases judged_brackets inductionHypothesis (by decide) inside shallow "Option" with
          ⟨opening, body, closing, contents, opens, closes, judged⟩
        rw [contents]
        unfold readAtom
        exact judged.bind fun _ phrase => .option opening closing body opens closes phrase

end

/-! ## Rules -/

/-- A rule is a phrase, unless something inside it is refused. -/
theorem judges_rule (bound : Nat) :
    Judges "rule" bound readRule fun contents _ => Phrase .rule contents := by
  refine judges_of_productions (by decide) fun production chosen children word inside _ _ => ?_
  have only : productionsOf "rule" = [words ["ident", "=", "alts", ";"]] := by decide
  rw [only, List.mem_singleton] at chosen
  subst chosen
  have inside : Shapes [.name "ident", .name "=", .name "alts", .name ";"] children word := inside
  rcases inside.leaf (by decide) with ⟨name, _, _, rfl, rfl, isName, text, later⟩
  rcases later.leaf (by decide) with ⟨equals, others, _, rfl, rfl, isEquals, _, later⟩
  rcases Option.isSome_iff_exists.mp text with ⟨rule, isText⟩
  have atoms := judges_atom rule
    ((ParseTree.node "rule" (.leaf name :: .leaf equals :: others)).depth + 1)
  rcases judges_alternatives atoms _ _ _ later with
    ⟨tree, _, body, _, rfl, rfl, isNode, later, judged⟩
  rcases later.leaf (by decide) with ⟨semicolon, _, _, rfl, rfl, isSemicolon, _, nothing⟩
  rcases nothing.eq_nil with ⟨rfl, rfl⟩
  have below : tree.depth <
      (ParseTree.node "rule" [.leaf name, .leaf equals, tree, .leaf semicolon]).depth :=
    ParseTree.depth_lt_of_child _ (by simp)
  have named : (tokenNamed? (.node "rule" [.leaf name, .leaf equals, tree, .leaf semicolon])
      "ident").bind (·.text) = some rule := by
    have first : tokenNamed? (.node "rule" [.leaf name, .leaf equals, tree, .leaf semicolon])
        "ident" = some name := List.find?_cons_of_pos (beq_iff_eq.mpr isName)
    rw [first]
    exact isText
  have only : onlyNode (.node "rule" [.leaf name, .leaf equals, tree, .leaf semicolon]) =
      .ok tree := onlyNode_behind "rule" [name, equals] isNode _
  have reads : readRule (.node "rule" [.leaf name, .leaf equals, tree, .leaf semicolon]) =
      (readAlternatives rule ((ParseTree.node "rule"
        [.leaf name, .leaf equals, tree, .leaf semicolon]).depth + 1) tree >>= fun branches =>
          pure ⟨rule, branches.map productionOf⟩) := by
    unfold readRule
    rw [named, only]
    rfl
  have phrase : forall branches, Fits .alternatives (body.map Token.content) branches ->
      Phrase .rule ((name :: equals :: (body ++ [semicolon])).map Token.content) := by
    intro branches fits
    rw [List.map_cons, List.map_cons, List.map_append]
    exact .rule _ _ _ _ isName isEquals isSemicolon
      (fits false fun _ _ impossible => (Bool.false_ne_true impossible).elim)
  refine (congrArg (Judged _) reads).mpr ?_
  exact (judged (Nat.le_succ_of_le below.le)).bind phrase

/-- The reader makes rules of the tree of a word, and then the word is a phrase, or it refuses a label
or a bound that is written there. -/
theorem judged_grammar {tree : ParseTree} {word : List Token}
    (shapes : Shapes [.name "grammar"] [tree] word) :
    Judged (fun _ => Phrase .grammar (word.map Token.content)) (tree.nodes.mapM readRule) := by
  rcases shapes.node (by decide) with
    ⟨production, children, _, front, _, chosen, same, rfl, inside, nothing⟩
  rcases List.cons_eq_cons.mp same with ⟨rfl, rfl⟩
  rcases nothing.eq_nil with ⟨_, rfl⟩
  have only : productionsOf "grammar" =
      [{ symbols := [.repeat0 [.name "rule"]], label := some "Grammar" }] := by decide
  rw [only, List.mem_singleton] at chosen
  subst chosen
  rcases inside.repeat0 with ⟨count, trees, _, word, _, rfl, rfl, rules, nothing⟩
  rcases nothing.eq_nil with ⟨rfl, rfl⟩
  simp only [List.append_nil]
  have judged := (judges_rule (ParseTree.depthOfEach trees)).copies []
    (fun _ impossible => (List.not_mem_nil impossible).elim)
    (fun contents _ => Phrase .grammar contents) .noRules
    (fun before front back _ _ unmarked first others => by
      rw [List.map_eq_nil_iff.mp unmarked]
      exact .rules front back first others)
    rules fun tree member => ParseTree.depth_le_of_mem member
  exact judged.2

end Ebnf
end ShiftReduce
