import ShiftReduce.Proofs.Ebnf.Reading
import ShiftReduce.Proofs.Ebnf.Splitting
import ShiftReduce.Proofs.Parse.Trees

namespace ShiftReduce

/-!
# Parsing the notation

The grammar of the notation has no conflicts, so that a text is parsed into the tree that its tokens
have, and into no other.  Its derivation trees are small: a production is paid for by the tokens below
it, if a token pays five.  A parse therefore never runs into the limit on its steps.
-/

namespace NotationText

/-! ## What a token can be -/

/-- The names of the marks. -/
def markNames : List String :=
  ["=", ";", "|", "*", "+", "?", "(", ")", "[", "]", "\x7b", "\x7d", ",", "@"]

/-- What the characters of a token are, by its name. -/
inductive IsLexeme : String -> List Char -> Prop where
  | ident (c : Char) (rest : List Char) (start : isIdentifierStart c = true)
      (parts : rest.all isIdentifierPart = true) : IsLexeme "ident" (c :: rest)
  | number (c : Char) (rest : List Char) : IsLexeme "number" (c :: rest)
  | quoted (quote : Char) (inside : List Char) (isQuote : quote = '"' ∨ quote = '\x27')
      (notEmpty : inside ≠ []) (outside : quote ∉ inside) :
      IsLexeme "quoted" (quote :: inside ++ [quote])
  | mark (name : String) (c : Char) (rest : List Char) (isMark : name ∈ markNames) :
      IsLexeme name (c :: rest)

/-- What is read at the beginning of a text is a lexeme. -/
theorem isLexeme_of_lexeme? {text lexeme : List Char} {name : String}
    (read : lexeme? text = some (name, lexeme)) : IsLexeme name lexeme := by
  have marks : (['=', ';', '|', '*', '+', '?', '(', ')', '[', ']', '{', '}', ',', '@'].all
      fun mark => decide (mark.toString ∈ markNames)) = true := by decide
  cases (matches_of_lexeme? read).1 with
  | identifier c rest begins goesOn =>
      refine .ident c rest (isIdentifierStart_iff.mpr begins) (List.all_eq_true.mpr ?_)
      exact fun d member => isIdentifierPart_iff.mpr (goesOn d member)
  | number c rest => exact .number c rest
  | quoted quote inside isQuote notEmpty outside => exact .quoted quote inside isQuote notEmpty outside
  | defines => exact .mark "=" ':' [':', '='] (by decide)
  | mark c isMark =>
      exact .mark c.toString c [] (of_decide_eq_true (List.all_eq_true.mp marks c isMark))

theorem IsLexeme.ne_nil {name : String} {lexeme : List Char} (isLexeme : IsLexeme name lexeme) :
    lexeme ≠ [] := by
  cases isLexeme <;> exact List.cons_ne_nil _ _

/-- The content is that of a token of the notation. -/
def Lexical (content : String × Option String) : Prop :=
  Exists fun lexeme => IsLexeme content.1 lexeme ∧ content.2 = some (String.ofList lexeme)

/-- Whatever the source gives is a token of the notation. -/
theorem lexical_of_next {text : NotationText} {preference : Preference} {token : Token}
    (gives : (source.next text preference).1 = .ok (some token)) : Lexical token.content := by
  dsimp only [source, next] at gives
  split at gives
  · cases gives
  · split at gives
    · cases gives
    next name lexeme read =>
      cases gives
      exact ⟨lexeme, isLexeme_of_lexeme? read, rfl⟩

theorem skipBlanks_append (comment : Bool) (text : List Char) :
    (skipBlanks comment text).1 ++ (skipBlanks comment text).2 = text := by
  induction text generalizing comment with
  | nil => rfl
  | cons c rest inductionHypothesis =>
      have either : skipBlanks comment (c :: rest) = ([], c :: rest) ∨ Exists fun inside =>
          skipBlanks comment (c :: rest) =
            (c :: (skipBlanks inside rest).1, (skipBlanks inside rest).2) := by
        rw [skipBlanks]
        dsimp only
        by_cases taken : (decide (if comment then c ≠ '\n' else isBlank c = true) || comment) = true
        · exact Or.inr ⟨comment && c ≠ '\n', if_pos taken⟩
        · rw [if_neg taken]
          by_cases slashes : c = '/' ∧ rest.head? = some '/'
          · exact Or.inr ⟨true, if_pos slashes⟩
          · exact Or.inl (if_neg slashes)
      rcases either with same | ⟨inside, same⟩
      · rw [same]
        rfl
      · rw [same]
        exact congrArg (c :: ·) (inductionHypothesis inside)

/-- A token takes something away from the text. -/
theorem length_lt_of_lexeme? {text lexeme rest : List Char} {name : String}
    (here : (skipBlanks false text).2 = lexeme ++ rest)
    (reads : lexeme? (lexeme ++ rest) = some (name, lexeme)) : rest.length < text.length := by
  have whole := congrArg List.length (skipBlanks_append false text)
  have positive := List.length_pos_of_ne_nil (isLexeme_of_lexeme? reads).ne_nil
  rw [List.length_append, here, List.length_append] at whole
  omega

end NotationText

namespace Ebnf

open NotationText

/-! ## The grammar of the notation -/

/-- The plain grammar of the notation. -/
def plain : PlainGrammar := (grammar.toPlain.toOption).getD default

theorem toPlain_grammar : grammar.toPlain = .ok plain :=
  eq_ok_of_isOk (by decide)

theorem admissible_grammar : grammar.Admissible :=
  Grammar.admissible_of_reports (by decide) (by decide) (by decide)

theorem floorsFit_grammar : grammar.FloorsFit := by decide

/-- The grammar of the notation is accepted, and no conflict is resolved. -/
theorem compile_grammar : grammar.compile = .ok table ∧ table.conflicts = [] := by
  have unconflicted : grammar.compile.toOption.map Table.conflicts = some [] := by decide +kernel
  unfold table
  cases compiled : grammar.compile with
  | error failure =>
      rw [compiled] at unconflicted
      cases unconflicted
  | ok made =>
      rw [compiled] at unconflicted
      exact ⟨rfl, Option.some.inj unconflicted⟩

/-- What the rules of the plain grammar weigh. -/
def weights : List (String × Int) :=
  [("grammar", 2), ("rule", -9), ("alts", 5), ("seq", 3), ("item", -2), ("atom", -4),
    ("suffix", -4), ("grammar#0#0", 1), ("alts#0#1", 1), ("seq#0#0", 1), ("seq#0#1", 1),
    ("item#0#1", 1)]

/-- What a name weighs. A token pays for the productions above it. -/
def weight (name : String) : Int := (weights.lookup name).getD (-5)

/-- Every production weighs less than its name. -/
theorem productions_pay : forall pair, pair ∈ plain.productions ->
    (pair.2.symbols.map weight).sum + 1 ≤ weight pair.1.name := by decide

/-! ## Parsing -/

/-- The names of tokens are not those of rules. -/
theorem terminal_of_lexical {token : Token} (lexical : Lexical token.content) :
    token.text.isSome = true ∧ token.name ∉ grammar.allRuleNames := by
  have names : forall name, name ∈ ["ident", "number", "quoted"] ++ markNames ->
      name ∉ grammar.allRuleNames := by decide
  rcases lexical with ⟨lexeme, isLexeme, text⟩
  have isText : token.text = some (String.ofList lexeme) := text
  refine ⟨by rw [isText]; rfl, names token.name ?_⟩
  have isLexeme : IsLexeme token.name lexeme := isLexeme
  generalize token.name = name at isLexeme
  cases isLexeme with
  | ident => decide
  | number => decide
  | quoted => decide
  | mark _ c rest isMark => exact List.mem_append_right _ isMark

theorem root_plain : plain.root = "grammar" := by
  decide

/-- No row of symbols rewrites to itself, and no choice between productions is ever open. -/
theorem resolute_plain : plain.Resolute ∧
    ¬ Relation.TransGen plain.Rewrites [plain.root] [plain.root] := by
  have absent : forall pair, pair ∈ plain.productions -> plain.root ∉ pair.2.symbols := by
    decide
  rcases compile_grammar with ⟨compiled, unresolved⟩
  rcases of_bind_eq_ok compiled with ⟨made, isMade, tabled⟩
  have same : plain = made := Except.ok.inj (toPlain_grammar.symm.trans isMade)
  subst same
  exact ⟨PlainGrammar.resolute_of_toTable plain (admissible_grammar.plain_named toPlain_grammar)
    tabled unresolved, PlainGrammar.not_rewrites_to_itself absent⟩

/-- The table was made for the plain grammar and decides every choice. -/
theorem prepared_setting : Prepared grammar plain setting.table ∧
    Decides plain setting.table plain.kernels := by
  have both : Prepared grammar plain table ∧ Decides plain table plain.kernels := by
    rcases compile_grammar with ⟨compiled, unresolved⟩
    rcases prepared_of_compile admissible_grammar compiled with ⟨made, prepared, decides⟩
    have same : plain = made := Except.ok.inj (toPlain_grammar.symm.trans prepared.made)
    subst same
    exact ⟨prepared, decides unresolved⟩
  exact both

theorem unskipped_setting (tokens : List Token) : setting.unskipped tokens = tokens :=
  List.filter_eq_self.mpr fun _ _ => rfl

theorem parseText_eq_ok {text : String} {tree : ParseTree} : parseText text = .ok tree ↔
    (setting.parseTree (.start text)).tree = .ok tree := by
  rw [parseText]
  generalize (setting.parseTree (.start text)).tree = parsed
  rcases parsed with outcome | found
  · refine iff_of_false (fun read => ?_) fun read => nomatch read
    unfold treeOrReport at read
    split at read
    next impossible => cases impossible
    · cases read
    · cases read
  · rw [treeOrReport, Except.ok.injEq, Except.ok.injEq]

/-- If the tokens of a text are those of a tree, the text is parsed into this tree. -/
theorem parseText_of_forest {text : String} {tokens : List Token}
    (yields : NotationText.source.Yields tokens (.start text))
    (lexical : forall token, token ∈ tokens -> Lexical token.content)
    {tree : ParseTree} (forest : NotationForest [.name "grammar"] [tree] tokens) :
    parseText text = .ok tree := by
  have terminals := fun token member => terminal_of_lexical (lexical token member)
  rw [← root_plain] at forest
  exact parseText_eq_ok.mpr (Setting.parseTree_of_forest prepared_setting.1 prepared_setting.2
    floorsFit_grammar resolute_plain.1 resolute_plain.2 rfl yields terminals
    (by rwa [unskipped_setting]))

/-- What a text is parsed into is a tree of tokens of the notation. -/
theorem forest_of_parseText {text : String} {tree : ParseTree}
    (parsed : parseText text = .ok tree) :
    Exists fun word : List Token => (forall token, token ∈ word -> Lexical token.content) ∧
      grammar.Forest Symbol.Admits (fun _ => true) [.name "grammar"] [tree] word := by
  have result := parseText_eq_ok.mp parsed
  have gives : forall state preference token,
      (setting.source.next state preference).1 = .ok (some token) -> Lexical token.content :=
    fun _ _ _ => lexical_of_next
  rcases Setting.forest_of_parseTree prepared_setting.1 floorsFit_grammar rfl
    (fun state preference token given => terminal_of_lexical (gives state preference token given))
    result with ⟨word, given, forest⟩
  rw [unskipped_setting, root_plain] at forest
  refine ⟨word, fun token member => ?_, forest⟩
  rcases given token member with ⟨state, preference, asked⟩
  exact gives state preference token asked

end Ebnf

end ShiftReduce
