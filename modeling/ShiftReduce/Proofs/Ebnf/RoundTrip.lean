import ShiftReduce.Proofs.Ebnf.Spelling

namespace ShiftReduce

/-!
# Printing and reading

What is printed of a grammar is read back, if the notation can express the grammar and the grammar is
in normal form.  Whatever is read has both properties: the reader makes nothing that cannot be written,
and it simplifies what it has made.

The texts that are read are not only those that are printed.  A text can name a rule twice, nest groups
without need and quote identifiers; what is printed of its grammar is then another text for the same
grammar.
-/

/-! ## Grammars of rules that can be written -/

theorem Rule.Spelled.append {name : String} {first second : List Production}
    (left : (Rule.mk name first).Spelled) (right : (Rule.mk name second).Spelled) :
    (Rule.mk name (first ++ second)).Spelled := by
  refine ⟨left.name, fun empty => left.inhabited (List.append_eq_nil_iff.mp empty).1, ?_⟩
  intro production chosen
  exact (List.mem_append.mp chosen).elim (left.productions production) (right.productions production)

/-- Simplification does not change whether a symbol by itself can be written. -/
theorem Symbol.Spelled.simplify {symbol : Symbol} (spelled : symbol.Spelled) :
    symbol.simplify.Spelled := by
  cases symbol with
  | name word => exact spelled
  | repeat0 body => exact trivial
  | repeat1 body => exact trivial
  | optional body => exact trivial
  | alternation branches =>
      rw [Symbol.simplify, simplifyBranches_eq_map]
      exact flattenChoices_ne_nil fun empty => spelled (List.map_eq_nil_iff.mp empty)
  | bounded least most body => exact spelled

namespace Grammar

theorem extend_of_new {name : String} (productions : List Production) {rules : List Rule}
    (new : name ∉ rules.map Rule.name) :
    extend name productions rules = rules ++ [⟨name, productions⟩] := by
  induction rules with
  | nil => rfl
  | cons rule rest inductionHypothesis =>
      rw [List.map_cons, List.mem_cons, not_or] at new
      rw [extend, if_neg (Ne.symm new.1), inductionHypothesis new.2, List.cons_append]

/-- A grammar is that of its rules. -/
theorem ofRules_rules (grammar : Grammar) : ofRules grammar.rules = grammar := by
  have later : forall (rules : List Rule) (made : Grammar),
      ((made.rules ++ rules).map Rule.name).Nodup ->
      (rules.foldl (fun grammar rule => grammar.addRule rule.name rule.productions) made).rules =
        made.rules ++ rules := by
    intro rules
    induction rules with
    | nil => exact fun made _ => (List.append_nil _).symm
    | cons rule rest inductionHypothesis =>
        intro made distinct
        have new : rule.name ∉ made.rules.map Rule.name := by
          rw [List.map_append, List.map_cons] at distinct
          exact fun member => List.disjoint_of_nodup_append distinct member List.mem_cons_self
        have added : (made.addRule rule.name rule.productions).rules = made.rules ++ [rule] :=
          extend_of_new rule.productions new
        rw [List.foldl_cons, inductionHypothesis _ (by rwa [added, List.append_assoc]), added,
          List.append_assoc]
        rfl
  exact eq_of_rules (later grammar.rules empty grammar.distinct)

/-- Productions that are added to a grammar keep it in the notation. -/
theorem Expressible.addRule {grammar : Grammar} (expressible : grammar.Expressible) {rule : Rule}
    (spelled : rule.Spelled) : (grammar.addRule rule.name rule.productions).Expressible := by
  have extended : forall rules : List Rule, (forall other, other ∈ rules -> other.Spelled) ->
      forall other, other ∈ extend rule.name rule.productions rules -> other.Spelled := by
    intro rules
    induction rules with
    | nil =>
        intro _ other member
        rw [List.mem_singleton.mp member]
        exact spelled
    | cons first rest inductionHypothesis =>
        intro each other member
        have own := each first List.mem_cons_self
        have rest := inductionHypothesis fun other member => each other (List.mem_cons_of_mem _ member)
        rw [extend] at member
        split at member
        next same =>
          rcases List.mem_cons.mp member with rfl | later
          · exact own.append (same ▸ spelled)
          · exact each other (List.mem_cons_of_mem _ later)
        · rcases List.mem_cons.mp member with rfl | later
          · exact own
          · exact rest other later
  exact extended grammar.rules expressible

theorem expressible_ofRules {rules : List Rule} (spelled : forall rule, rule ∈ rules -> rule.Spelled) :
    (ofRules rules).Expressible := by
  have later : forall (rules : List Rule), (forall rule, rule ∈ rules -> rule.Spelled) ->
      forall made : Grammar, made.Expressible ->
      (rules.foldl (fun grammar rule => grammar.addRule rule.name rule.productions)
        made).Expressible := by
    intro rules
    induction rules with
    | nil => exact fun _ made expressible => expressible
    | cons rule rest inductionHypothesis =>
        intro spelled made expressible
        exact inductionHypothesis (fun other member => spelled other (List.mem_cons_of_mem _ member)) _
          (expressible.addRule (spelled rule List.mem_cons_self))
  exact later rules spelled empty fun _ impossible => (List.not_mem_nil impossible).elim

/-- Simplification keeps a grammar in the notation. -/
theorem Expressible.simplify {grammar : Grammar} (expressible : grammar.Expressible) :
    grammar.simplify.Expressible := by
  intro rule member
  rcases List.mem_map.mp member with ⟨original, listed, rfl⟩
  have spelled := expressible original listed
  refine ⟨spelled.name, fun empty => spelled.inhabited (List.map_eq_nil_iff.mp empty), ?_⟩
  intro production chosen
  rcases List.mem_map.mp chosen with ⟨written, inOriginal, rfl⟩
  have own := spelled.productions written inOriginal
  refine ⟨own.emit, own.label, fun symbol inside => ?_⟩
  have keeps : forall symbol : Symbol, symbol.Spelled -> symbol.simplify.Spelled :=
    fun _ => Symbol.Spelled.simplify
  exact Symbol.everywhere_simplifySequence keeps own.symbols inside

end Grammar

/-! ## Reading what is printed -/

namespace NotationText

/-- The tokens of a text are tokens of the notation. -/
theorem Lexes.lexical {text : List Char} {contents : List (String × Option String)}
    (lexes : Lexes text contents) {content : String × Option String} (member : content ∈ contents) :
    Lexical content := by
  induction lexes with
  | nil => cases member
  | cons text lexeme rest name more here reads _ inductionHypothesis =>
      rcases List.mem_cons.mp member with rfl | later
      · exact ⟨lexeme, isLexeme_of_lexeme? reads, rfl⟩
      · exact inductionHypothesis later

end NotationText

namespace Grammar

open Ebnf ShiftReduce.Symbol

theorem ofText_eq_ok {text : String} {grammar : Grammar} : ofText text = .ok grammar ↔
    Exists fun tree => parseText text = .ok tree ∧ Exists fun rules =>
      tree.nodes.mapM readRule = .ok rules ∧ (ofRules rules).simplify = grammar := by
  unfold ofText
  constructor
  · intro read
    rcases of_bind_eq_ok read with ⟨tree, parsed, remaining⟩
    rcases of_bind_eq_ok remaining with ⟨rules, isRules, made⟩
    exact ⟨tree, parsed, rules, isRules, Except.ok.inj made⟩
  · rintro ⟨tree, parsed, rules, isRules, rfl⟩
    rw [parsed]
    change (tree.nodes.mapM readRule >>= fun rules => pure (ofRules rules).simplify) = _
    rw [isRules]
    rfl

/-- What is printed of a grammar that the notation can express is read as its normal form. -/
theorem ofText_display_of_expressible {grammar : Grammar} (expressible : grammar.Expressible) :
    ofText grammar.display = .ok grammar.simplify := by
  have lexes := NotationText.lexes_display expressible
  rcases lexes.yields .start with ⟨tokens, contents, yields⟩
  rcases readable_grammar expressible contents with ⟨children, forest, reads⟩
  have parsed := parseText_of_forest yields
    (fun token member => lexes.lexical (contents ▸ List.mem_map_of_mem member)) forest
  exact ofText_eq_ok.mpr ⟨_, parsed, grammar.rules, reads, congrArg simplify (ofRules_rules grammar)⟩

/-- What is read of a text is in normal form, and the notation can express it. -/
theorem expressible_of_ofText {text : String} {grammar : Grammar} (read : ofText text = .ok grammar) :
    grammar.simplify = grammar ∧ grammar.Expressible := by
  rcases ofText_eq_ok.mp read with ⟨tree, parsed, rules, isRules, rfl⟩
  have spelled : forall rule, rule ∈ rules -> rule.Spelled := fun _ =>
    spelled_of_parseText parsed isRules
  exact ⟨simplify_simplify _, (expressible_ofRules spelled).simplify⟩

/-- Printing and reading are inverse for grammars in normal form that the notation can express. Every
grammar that has been read is one. -/
theorem ofText_display (grammar : Grammar) :
    (grammar.simplify = grammar -> grammar.Expressible ->
      ofText grammar.display = .ok grammar) ∧
    forall text, ofText text = .ok grammar ->
      grammar.simplify = grammar ∧ grammar.Expressible ∧ ofText grammar.display = .ok grammar := by
  have inverse : grammar.simplify = grammar -> grammar.Expressible ->
      ofText grammar.display = .ok grammar := by
    intro normal expressible
    rw [ofText_display_of_expressible expressible, normal]
  refine ⟨inverse, fun text read => ?_⟩
  rcases expressible_of_ofText read with ⟨normal, expressible⟩
  exact ⟨normal, expressible, inverse normal expressible⟩

/-- Items behind an apostrophe, the last of which may stand two or three times; or nothing. -/
def quotedItems : Grammar :=
  ⟨[⟨"list", [{ symbols := [.name "\x27", .repeat0 [.name "item"],
      .bounded 2 3 [.alternation [[.name "item"], []]]], label := some "List" },
    { symbols := [], emit := .none }]⟩], List.nodup_singleton _⟩

theorem expressible_quotedItems : quotedItems.Expressible := by
  have item : (Symbol.name "item").Everywhere Symbol.Spelled :=
    everywhere_iff.mpr ⟨⟨by decide, by decide⟩, nofun⟩
  have choice : (Symbol.alternation [[.name "item"], []]).Everywhere Symbol.Spelled := by
    refine everywhere_iff.mpr ⟨List.cons_ne_nil _ _, fun child member => ?_⟩
    rwa [List.mem_singleton.mp member]
  intro rule member
  rw [List.mem_singleton.mp member]
  refine ⟨by decide, by decide, fun production chosen => ?_⟩
  rcases List.mem_pair.mp chosen with rfl | rfl
  · refine ⟨Or.inl rfl, ?_, fun symbol inside => ?_⟩
    · rintro label same
      cases same
      decide
    · rcases List.mem_cons.mp inside with rfl | inside
      · exact everywhere_iff.mpr ⟨⟨by decide, by decide⟩, nofun⟩
      · rcases List.mem_pair.mp inside with rfl | rfl
        · refine everywhere_iff.mpr ⟨trivial, fun child member => ?_⟩
          rwa [List.mem_singleton.mp member]
        · refine everywhere_iff.mpr ⟨⟨by decide, by decide⟩, fun child member => ?_⟩
          rwa [List.mem_singleton.mp member]
  · exact ⟨Or.inr ⟨rfl, rfl⟩, nofun, nofun⟩

/-- The grammar of quoted items is read back, and then as what has been read. -/
theorem ofText_display_quotedItems :
    quotedItems.simplify = quotedItems ∧ quotedItems.Expressible ∧
      ofText quotedItems.display = .ok quotedItems := by
  have normal : quotedItems.simplify = quotedItems := by decide
  rcases ofText_display quotedItems with ⟨inverse, ofRead⟩
  exact ofRead quotedItems.display (inverse normal expressible_quotedItems)

end Grammar

end ShiftReduce
