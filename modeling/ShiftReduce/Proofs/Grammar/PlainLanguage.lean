import ShiftReduce.Proofs.Grammar.Forests

namespace ShiftReduce

/-!
# The language of the plain grammar

Putting helpers in the place of operators keeps the language, up to one thing.  A helper grows by one
more copy of its body at a time and has no way to stop at an upper bound; it is the collection of the
repetition that counts, when the helper is reduced.  So the plain grammar stands for the language in
which an upper bound only matters if it is the lower bound as well, since such a repetition does not
grow at all.

Nothing else is asked of the grammar but that its names are apart from those of its helpers, and that
the copies that a repetition has to start with are all there.  Names may be empty, and productions may
have any effect.
-/

namespace Grammar

open Draft DerivationTree

/-- The strings of names that a sequence stands for if repetitions are free to grow beyond an upper
bound that is not the lower one. -/
inductive Generates (grammar : Grammar) : List Symbol -> List String -> Prop where
  | nil : Generates grammar [] []
  | token (name : String) (rest : List Symbol) (back : List String)
      (terminal : name ∉ grammar.ruleNames) (later : Generates grammar rest back) :
      Generates grammar (.name name :: rest) (name :: back)
  | rule (rule : Rule) (production : Production) (rest : List Symbol) (front back : List String)
      (listed : rule ∈ grammar.rules) (chosen : production ∈ rule.productions)
      (body : Generates grammar production.symbols front) (later : Generates grammar rest back) :
      Generates grammar (.name rule.name :: rest) (front ++ back)
  | operator (symbol : Symbol) (unfolded rest : List Symbol) (front back : List String)
      (admits : symbol.Admits unfolded) (body : Generates grammar unfolded front)
      (later : Generates grammar rest back) : Generates grammar (symbol :: rest) (front ++ back)

variable {grammar : Grammar} {plain : PlainGrammar} {keep : Token -> Bool}

/-- The word of a forest is generated. -/
theorem Forest.generates {symbols : List Symbol} {trees : List ParseTree} {word : List Token}
    (forest : Forest grammar Symbol.Admits keep symbols trees word) :
    grammar.Generates symbols (word.map Token.name) := by
  induction forest with
  | nil => exact .nil
  | token token rest trees back terminal _ inductionHypothesis =>
      exact .token token.name rest _ terminal inductionHypothesis
  | rule rule production rest children trees front back listed chosen _ _ bodyHypothesis
      laterHypothesis =>
      rw [List.map_append]
      exact .rule rule production rest _ _ listed chosen bodyHypothesis laterHypothesis
  | operator symbol unfolded rest inner trees front back opened _ _ bodyHypothesis
      laterHypothesis =>
      rw [List.map_append]
      exact .operator symbol unfolded rest _ _ opened bodyHypothesis laterHypothesis

/-- Tokens with these names make a forest. -/
theorem Generates.forest (keep : Token -> Bool) {symbols : List Symbol} {names : List String}
    (generates : grammar.Generates symbols names) {word : List Token}
    (named : word.map Token.name = names) :
    Exists fun trees => Forest grammar Symbol.Admits keep symbols trees word := by
  induction generates generalizing word with
  | nil =>
      rw [List.map_eq_nil_iff.mp named]
      exact ⟨[], .nil⟩
  | token name rest back terminal _ inductionHypothesis =>
      rcases List.map_eq_cons_iff.mp named with ⟨token, others, rfl, rfl, othersNamed⟩
      rcases inductionHypothesis othersNamed with ⟨trees, forest⟩
      exact ⟨_, .token token rest trees others terminal forest⟩
  | rule rule production rest front back listed chosen _ _ bodyHypothesis laterHypothesis =>
      rcases List.map_eq_append_iff.mp named with ⟨inner, others, rfl, innerNamed, othersNamed⟩
      rcases bodyHypothesis innerNamed with ⟨children, below⟩
      rcases laterHypothesis othersNamed with ⟨trees, forest⟩
      exact ⟨_, .rule rule production rest children trees inner others listed chosen below forest⟩
  | operator symbol unfolded rest front back admits _ _ bodyHypothesis laterHypothesis =>
      rcases List.map_eq_append_iff.mp named with ⟨inner, others, rfl, innerNamed, othersNamed⟩
      rcases bodyHypothesis innerNamed with ⟨children, below⟩
      rcases laterHypothesis othersNamed with ⟨trees, forest⟩
      exact ⟨_, .operator symbol unfolded rest children trees inner others admits below forest⟩

theorem Derives.generates {symbols : List Symbol} {word : List String}
    (derives : grammar.Derives symbols word) : grammar.Generates symbols word := by
  induction derives with
  | nil => exact .nil
  | token name rest back terminal _ inductionHypothesis =>
      exact .token name rest back terminal inductionHypothesis
  | rule rule production rest front back listed chosen _ _ bodyHypothesis laterHypothesis =>
      exact .rule rule production rest front back listed chosen bodyHypothesis laterHypothesis
  | operator symbol unfolded rest front back unfolds _ _ bodyHypothesis laterHypothesis =>
      exact .operator symbol unfolded rest front back unfolds.admits bodyHypothesis laterHypothesis

theorem Generates.append {left right : List Symbol} {front back : List String}
    (first : grammar.Generates left front) (second : grammar.Generates right back) :
    grammar.Generates (left ++ right) (front ++ back) := by
  induction first with
  | nil => exact second
  | token name rest middle terminal _ inductionHypothesis =>
      exact .token name (rest ++ right) (middle ++ back) terminal inductionHypothesis
  | rule rule production rest inner middle listed chosen body _ _ inductionHypothesis =>
      rw [List.append_assoc]
      exact .rule rule production (rest ++ right) inner (middle ++ back) listed chosen body
        inductionHypothesis
  | operator symbol unfolded rest inner middle admits body _ _ inductionHypothesis =>
      rw [List.append_assoc]
      exact .operator symbol unfolded (rest ++ right) inner (middle ++ back) admits body
        inductionHypothesis

/-- What is generated by symbols of the grammar consists of names in it that are not those of rules. -/
theorem Generates.terminals {symbols : List Symbol} {word : List String}
    (generates : grammar.Generates symbols word)
    (writes : forall symbol, symbol ∈ symbols -> grammar.Writes symbol) :
    forall name, name ∈ word -> name ∉ grammar.ruleNames ∧ name ∈ grammar.names := by
  induction generates with
  | nil => exact fun _ impossible => (List.not_mem_nil impossible).elim
  | token name rest back terminal _ inductionHypothesis =>
      intro other member
      rcases List.mem_cons.mp member with rfl | after
      · exact ⟨terminal, mem_names_of_writes (writes _ List.mem_cons_self)⟩
      · exact inductionHypothesis
          (fun symbol inside => writes symbol (List.mem_cons_of_mem _ inside)) other after
  | rule rule production rest front back listed chosen _ _ bodyHypothesis laterHypothesis =>
      intro other member
      rcases List.mem_append.mp member with here | after
      · exact bodyHypothesis
          (fun symbol inside => ⟨rule, production, symbol, listed, chosen, inside, .refl symbol⟩)
          other here
      · exact laterHypothesis
          (fun symbol inside => writes symbol (List.mem_cons_of_mem _ inside)) other after
  | operator symbol unfolded rest front back admits _ _ bodyHypothesis laterHypothesis =>
      intro other member
      rcases List.mem_append.mp member with here | after
      · have outer := writes symbol List.mem_cons_self
        exact bodyHypothesis (fun inner inside => outer.child (admits.mem_children inside)) other here
      · exact laterHypothesis
          (fun symbol inside => writes symbol (List.mem_cons_of_mem _ inside)) other after

/-- What the name of a rule generates is generated by one of its productions. -/
theorem Generates.production {name : String} (isRule : name ∈ grammar.ruleNames)
    {word : List String} (generates : grammar.Generates [.name name] word) :
    Exists fun rule => Exists fun production => rule ∈ grammar.rules ∧ rule.name = name ∧
      production ∈ rule.productions ∧ grammar.Generates production.symbols word := by
  cases generates with
  | token _ _ back terminal _ => exact (terminal isRule).elim
  | rule rule production _ front back listed chosen body later =>
      cases later
      rw [List.append_nil]
      exact ⟨rule, production, listed, rfl, chosen, body⟩
  | operator _ unfolded _ front back admits => cases admits

/-- A sentence consists of names that are written. -/
theorem Sentence.written {word : List String} (sentence : grammar.Sentence word) :
    forall name, name ∈ word -> name ∈ grammar.names := by
  rcases sentence.production with ⟨rule, production, listed, _, chosen, derives⟩
  exact fun name member => (derives.generates.terminals (fun symbol inside =>
    ⟨rule, production, symbol, listed, chosen, inside, .refl symbol⟩) name member).2

/-- What a terminal and further symbols generate has the terminal at its front. -/
theorem Generates.of_terminal {name : String} (terminal : name ∉ grammar.ruleNames)
    {rest : List Symbol} {word : List String}
    (generates : grammar.Generates (.name name :: rest) word) : word.head? = some name := by
  cases generates with
  | token => rfl
  | rule rule _ _ _ _ listed => exact (terminal (List.mem_map_of_mem listed)).elim
  | operator _ _ _ _ _ admits => cases admits

/-- Tokens that bear these names. -/
private def tokensNamed (word : List String) : List Token :=
  word.map fun name => ⟨name, none, default⟩

private theorem map_name_tokensNamed (word : List String) :
    (tokensNamed word).map Token.name = word := by
  rw [tokensNamed, List.map_map]
  exact List.map_id word

/-- What a rule derives in the plain grammar, it generates. -/
theorem generates_of_derives (fits : grammar.FloorsFit) (apart : grammar.HelpersApart)
    (made : grammar.toPlain = .ok plain) {name : String} (isRule : name ∈ grammar.ruleNames)
    {word : List String} (derives : plain.Derives [name] word)
    (terminals : forall terminal, terminal ∈ word -> terminal ∉ grammar.allRuleNames) :
    grammar.Generates [.name name] word := by
  rw [← map_name_tokensNamed word] at derives terminals ⊢
  have outside : forall token, token ∈ tokensNamed word -> token.name ∉ grammar.allRuleNames :=
    fun token member => terminals token.name (List.mem_map_of_mem member)
  rcases derives.grows fun token member => not_nonterminal_of_outside made (outside token member)
    with ⟨trees, grows⟩
  rcases List.length_eq_one_iff.mp grows.length with ⟨tree, rfl⟩
  have written : name ∈ grammar.names := List.mem_append_left _ isRule
  have forest : grammar.Forest Symbol.Admits (fun _ => true) [.name name] _ (tokensNamed word) :=
    grows.forest fits apart made written outside
  exact forest.generates

/-- What a rule generates, it derives in the plain grammar. -/
theorem derives_of_generates (fits : grammar.FloorsFit) (apart : grammar.HelpersApart)
    (made : grammar.toPlain = .ok plain) {name : String} (isRule : name ∈ grammar.ruleNames)
    {word : List String} (generates : grammar.Generates [.name name] word) :
    plain.Derives [name] word ∧
      forall terminal, terminal ∈ word -> terminal ∉ grammar.allRuleNames := by
  rcases generates.production isRule with ⟨rule, production, listed, _, chosen, body⟩
  have written := body.terminals fun symbol inside =>
    ⟨rule, production, symbol, listed, chosen, inside, .refl symbol⟩
  rcases generates.forest (fun _ => true) (map_name_tokensNamed word) with ⟨trees, forest⟩
  rcases forest.grows fits apart made (fun _ _ admits => admits) isRule with ⟨tree, grows, _⟩
  have derives := grows.derives
  rw [map_name_tokensNamed] at derives
  exact ⟨derives, fun terminal member =>
    not_mem_allRuleNames apart made (written terminal member).1 (written terminal member).2⟩

/-- A rule of the author's derives the same strings of terminals in the plain grammar as it stands for
in the grammar, if nothing is lost in a floor. -/
theorem derives_iff_generates (fits : grammar.FloorsFit) (apart : grammar.HelpersApart)
    (made : grammar.toPlain = .ok plain) {name : String} (isRule : name ∈ grammar.ruleNames)
    (word : List String) :
    (plain.Derives [name] word ∧
        forall terminal, terminal ∈ word -> terminal ∉ plain.rules.map PlainRule.name) ↔
      grammar.Generates [.name name] word := by
  have all : plain.rules.map PlainRule.name = grammar.allRuleNames := by
    unfold allRuleNames
    rw [made]
  rw [all]
  constructor
  · exact fun parts => generates_of_derives fits apart made isRule parts.1 parts.2
  · exact fun generates => derives_of_generates fits apart made isRule generates

/-! ## Two items and more -/

/-- A list of two items, each maybe with a comma, and of further items and lists in parentheses. -/
def nested : Grammar :=
  ⟨[⟨"list", [{ symbols := [.bounded 2 2 [.name "item", .optional [.name "comma"]],
    .repeat0 [.alternation [[.name "item"], [.name "open", .name "list", .name "close"]]]] }]⟩],
    List.nodup_singleton _⟩

theorem helpersApart_nested : nested.HelpersApart :=
  helpersApart_of_markless (by decide +kernel)

/-- The shortest lists but for one comma. -/
theorem generates_nested : nested.Generates [.name "list"] ["item", "comma", "item"] := by
  have terminal : forall name, name ∈ ["item", "comma"] -> name ∉ nested.ruleNames := by decide
  have comma : nested.Generates [.name "comma"] ["comma"] :=
    .token "comma" [] [] (terminal _ (by decide)) .nil
  have first : nested.Generates [.name "item", .optional [.name "comma"]] ["item", "comma"] :=
    .token "item" _ _ (terminal _ (by decide))
      (.operator _ _ [] ["comma"] [] (.present [.name "comma"]) comma .nil)
  have second : nested.Generates [.name "item", .optional [.name "comma"]] ["item"] :=
    .token "item" _ _ (terminal _ (by decide))
      (.operator _ _ [] [] [] (.absent [.name "comma"]) .nil .nil)
  have both : nested.Generates (List.replicate 2 [.name "item", .optional [.name "comma"]]).flatten
      ["item", "comma", "item"] := first.append second
  have nothing : nested.Generates
      [.repeat0 [.alternation [[.name "item"], [.name "open", .name "list", .name "close"]]]] [] :=
    .operator _ _ [] [] [] (.repeat0 _ 0) .nil .nil
  refine .rule nested.rules.head! _ [] ["item", "comma", "item"] [] List.mem_cons_self
    List.mem_cons_self ?_ .nil
  exact .operator _ _ _ _ [] (.bounded 2 2 _ 2 (Nat.le_refl 2) fun _ _ => rfl) both nothing

/-- The plain grammar of these lists derives it as well. -/
theorem derives_iff_generates_nested :
    Exists fun plain => nested.toPlain = .ok plain ∧
      plain.Derives ["list"] ["item", "comma", "item"] := by
  have made : nested.toPlain = .ok (nested.toPlain.toOption.getD default) :=
    eq_ok_of_isOk (by decide +kernel)
  have same := derives_iff_generates (by decide) helpersApart_nested made
    (List.mem_singleton_self "list") ["item", "comma", "item"]
  exact ⟨_, made, (same.mpr generates_nested).1⟩

/-! ## Copies that are lost -/

theorem helpersApart_emptyFloor (most : Nat) : (emptyFloor most).HelpersApart := by
  have markless : forall name, name ∈ ["A", "a", "b"] -> '#' ∉ name.toList := by decide
  exact helpersApart_of_markless markless

/-- There has to be a copy, and it begins with a name. -/
theorem not_generates_emptyFloor (most : Nat) : ¬ (emptyFloor most).Generates [.name "A"] [] := by
  intro generates
  rcases generates.production (List.mem_singleton_self "A") with
    ⟨rule, production, listed, _, chosen, body⟩
  rw [List.mem_singleton.mp listed] at chosen
  rw [List.mem_singleton.mp chosen] at body
  generalize empty : ([] : List String) = word at body
  cases body with
  | operator _ unfolded _ front back admits inner later =>
      cases admits with
      | bounded _ _ _ count enough _ =>
          cases count with
          | zero => exact absurd enough (by decide)
          | succ others =>
              have outside : "a" ∉ ["A"] := by decide
              have first := inner.of_terminal outside
              rw [(List.append_eq_nil_iff.mp empty.symm).1] at first
              cases first

/-- The plain grammar of such a repetition without an upper bound.  Its helper starts with nothing. -/
def emptyFloorPlain : PlainGrammar :=
  ⟨[⟨"A", [⟨["A#0#0"], .merge .report, none⟩], false⟩,
    ⟨"A#0#0", [⟨[], .repetition "A#0#0" 0 2, none⟩,
      ⟨["A#0#0", "a", "b"], .repetition "A#0#0" 0 2, none⟩], true⟩]⟩

/-- The plain grammar derives the empty string, which has no copy at all. -/
theorem derives_ne_generates_emptyFloor :
    (emptyFloor 0).HelpersApart ∧
    Exists fun plain => (emptyFloor 0).toPlain = .ok plain ∧ plain.Derives ["A"] [] ∧
      ¬ (emptyFloor 0).Generates [.name "A"] [] := by
  refine ⟨helpersApart_emptyFloor 0, emptyFloorPlain, by decide +kernel, ?_,
    not_generates_emptyFloor 0⟩
  have outer : _ ∈ emptyFloorPlain.productions := List.mem_cons_self
  have inner : _ ∈ emptyFloorPlain.productions := List.mem_cons_of_mem _ List.mem_cons_self
  exact (PlainGrammar.Derives.production outer).trans (PlainGrammar.Derives.production inner)

end Grammar

end ShiftReduce
