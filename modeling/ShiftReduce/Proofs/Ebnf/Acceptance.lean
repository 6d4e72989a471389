import ShiftReduce.Proofs.Ebnf.Judging
import ShiftReduce.Proofs.Ebnf.RoundTrip
import ShiftReduce.Proofs.Ebnf.Splitting
import ShiftReduce.Proofs.Parse.Budget
import ShiftReduce.Proofs.Parse.Safety
import ShiftReduce.Proofs.Text.Tilings

namespace ShiftReduce

/-!
# The texts that are accepted

A text is read exactly if it is split into tokens that are a phrase of the notation.  Everything else is
refused for a reason in the text: the parser fails at a token or a character, or the reader refuses a
label or a bound.

For a text that is refused, it is not enough that the parser is complete.  It must also come to an end
before the limit on its steps, which is shown with a budget: every state of the table has a height, and
what is on the stack weighs no more.
-/

namespace NotationText

/-! ## What the source answers -/

/-- What the source answers to a question, and where it goes on: it is at the end, gives a token, or
meets a character that no token begins with. -/
inductive Replies (text : NotationText) : Answer -> NotationText -> Prop where
  | ended (blank : (skipBlanks false text.rest).2 = []) :
      Replies text (.ok none) ⟨[], text.place.advance (skipBlanks false text.rest).1⟩
  | token (name : String) (lexeme rest : List Char)
      (here : (skipBlanks false text.rest).2 = lexeme ++ rest)
      (reads : lexeme? (lexeme ++ rest) = some (name, lexeme)) :
      Replies text
        (.ok (some ⟨name, some (String.ofList lexeme),
          text.place.advance (skipBlanks false text.rest).1⟩))
        ⟨rest, (text.place.advance (skipBlanks false text.rest).1).advance lexeme⟩
  | failed (c : Char) (rest : List Char) (here : (skipBlanks false text.rest).2 = c :: rest) :
      Replies text (.error (.lex ⟨c, text.place.advance (skipBlanks false text.rest).1⟩)) text

theorem replies_next (text : NotationText) (preference : Preference) :
    Replies text (source.next text preference).1 (source.next text preference).2 := by
  dsimp only [source, next]
  split
  next blank => exact .ended blank
  next c others visible =>
    split
    · exact .failed c others visible
    next name lexeme reads =>
      rcases (matches_of_lexeme? reads).2 with ⟨rest, divided⟩
      have here : (skipBlanks false text.rest).2 = lexeme ++ rest := divided.symm
      rw [here] at reads ⊢
      dsimp only
      rw [List.drop_left]
      exact .token name lexeme rest here reads

theorem Replies.of_next {text later : NotationText} {preference : Preference} {answer : Answer}
    (reply : source.next text preference = (answer, later)) : Replies text answer later := by
  have replies := replies_next text preference
  rwa [reply] at replies

/-- The source gives no more tokens than there are characters. -/
theorem length_le_of_gives {text : NotationText} {answers : List Answer} {tokens : List Token}
    (gives : source.Gives text answers)
    (front : tokens.map (fun token => .ok (some token)) <+: answers) :
    tokens.length ≤ text.rest.length := by
  induction tokens generalizing text answers with
  | nil => exact Nat.zero_le _
  | cons token others inductionHypothesis =>
      cases gives with
      | nil =>
          rw [List.map_cons, List.prefix_nil] at front
          cases front
      | cons _ later preference answer answers reply gives =>
          rcases List.cons_prefix_cons.mp front with ⟨rfl, behind⟩
          have replies := Replies.of_next reply
          cases replies with
          | token name lexeme rest here reads =>
              rw [List.length_cons]
              exact Nat.lt_of_le_of_lt (inductionHypothesis gives behind)
                (length_lt_of_lexeme? here reads)

/-- A text of which the source gives all tokens consists of them. -/
theorem lexes_of_gives {text : NotationText} {tokens : List Token}
    (gives : source.Gives text (tokens.map (fun token => .ok (some token)) ++ [.ok none])) :
    Lexes text.rest (tokens.map Token.content) := by
  induction tokens generalizing text with
  | nil =>
      cases gives with
      | cons _ later preference _ _ reply =>
          have replies := Replies.of_next reply
          cases replies with
          | ended blank => exact .nil _ blank
  | cons token others inductionHypothesis =>
      cases gives with
      | cons _ later preference _ _ reply gives =>
          have replies := Replies.of_next reply
          cases replies with
          | token name lexeme rest here reads =>
              exact .cons _ lexeme rest name _ here reads (inductionHypothesis gives)

/-! ## Where the source stands -/

/-- The source comes to stand there in the text, whatever it is asked for. -/
def Reached (text : String) : NotationText -> Prop :=
  Relation.ReflTransGen (fun before after => Exists fun preference =>
    (source.next before preference).2 = after) (.start text)

/-- The rest of the text begins at the place of the source. -/
def Within (text : List Char) (state : NotationText) : Prop :=
  Exists fun before => text = before ++ state.rest ∧ state.place = Position.start.advance before

theorem within_start (text : String) : (start text).Within text.toList :=
  ⟨[], rfl, rfl⟩

/-- The rest of the text behind white space and comments begins where these end. -/
theorem Within.blanks {text : List Char} {state : NotationText} (within : state.Within text) :
    Exists fun before => text = before ++ (skipBlanks false state.rest).2 ∧
      state.place.advance (skipBlanks false state.rest).1 = Position.start.advance before := by
  rcases within with ⟨before, whole, place⟩
  refine ⟨before ++ (skipBlanks false state.rest).1, ?_, ?_⟩
  · rw [List.append_assoc, skipBlanks_append]
    exact whole
  · rw [place, Position.advance_append]

/-- Whatever the source answers, it still stands in the text. -/
theorem Within.next {text : List Char} {state later : NotationText} {answer : Answer}
    (within : state.Within text) (replies : Replies state answer later) : later.Within text := by
  rcases within.blanks with ⟨before, whole, place⟩
  cases replies with
  | failed => exact within
  | ended blank =>
      rw [blank] at whole
      exact ⟨before, whole, place⟩
  | token name lexeme rest here =>
      rw [here] at whole
      refine ⟨before ++ lexeme, ?_, ?_⟩
      · rw [whole, List.append_assoc]
      · rw [place, Position.advance_append]

theorem Reached.within {text : String} {state : NotationText} (reached : Reached text state) :
    state.Within text.toList := by
  induction reached with
  | refl => exact within_start text
  | tail _ asked inductionHypothesis =>
      rcases asked with ⟨preference, rfl⟩
      exact inductionHypothesis.next (replies_next _ preference)

/-- What stands between the source and the next token is a slice of the text. -/
theorem slice?_blanks {text : String} {state : NotationText} (reached : Reached text state) :
    Text.slice? text.toList state.place.offset
      (state.place.advance (skipBlanks false state.rest).1).offset =
        some (skipBlanks false state.rest).1 := by
  rcases reached.within with ⟨before, whole, place⟩
  have divided : text.toList =
      before ++ (skipBlanks false state.rest).1 ++ (skipBlanks false state.rest).2 := by
    rw [whole, List.append_assoc, skipBlanks_append]
  rw [Position.offset_advance, place, Position.offset_advance_start, divided]
  exact Text.slice?_piece before _ _

/-- A name in quotes has something inside, which is a slice of it and the name without them. -/
theorem slice?_quoted {name text : String} {piece : List Char}
    (matched : Matches (some name) piece) (isText : text.toList = piece) {quote : Char}
    (isQuote : quote = '"' ∨ quote = '\x27') (begins : piece.head? = some quote) :
    Text.slice? text.toList 1 (Text.byteSize text.toList - 1) =
      some (Ebnf.unquote text).toList := by
  rw [isText]
  cases matched with
  | quoted first inside isFirst =>
      cases begins
      have unquoted : (Ebnf.unquote text).toList = inside := by
        unfold Ebnf.unquote
        rw [isText]
        dsimp only [List.cons_append]
        rw [if_pos isQuote, List.dropLast_concat, String.toList_ofList]
      have one : Text.byteSize [quote] = 1 := by rcases isQuote with rfl | rfl <;> decide
      have last : Text.byteSize (quote :: inside ++ [quote]) - 1 =
          Text.byteSize [quote] + Text.byteSize inside := by
        rw [Text.byteSize_append, ← List.singleton_append, Text.byteSize_append, one,
          Nat.add_sub_cancel]
      have between := Text.slice?_piece [quote] inside [quote]
      rw [← last, one] at between
      rw [unquoted]
      exact between
  | identifier c rest start =>
      cases begins
      rcases isQuote with rfl | rfl <;> exact absurd start (by decide)
  | number c rest digits =>
      cases begins
      have digit := digits quote List.mem_cons_self
      rcases isQuote with rfl | rfl <;> exact absurd digit (by decide)
  | defines =>
      cases begins
      exact absurd isQuote (by decide)
  | mark c isMark =>
      cases begins
      rcases isQuote with rfl | rfl <;> exact absurd isMark (by decide)

end NotationText

/-- The error is about the text: the parser met a token or a character that does not belong there, or
the reader refuses a label or a bound. -/
def NotationError.BlamesText : NotationError -> Prop
  | .parse error => error.IsExternal
  | failure => failure.IsRefusal

theorem NotationError.IsRefusal.blamesText {failure : NotationError} (refusal : failure.IsRefusal) :
    failure.BlamesText := by
  cases failure with
  | parse => exact refusal.elim
  | grammar | misplacedLabel | invalidBound | misshapenTree => exact refusal

namespace Ebnf

open NotationText

/-! ## Parses of texts come to an end -/

/-- How high the states of the table are. No stack that ends in a state weighs more. -/
def heights : List Int :=
  [0, 1, -8, -4, -9, -4, -6, -8, -9, -5, -13, -7, -10, -12, -13, -13, -13, -13, -10, -11, -16, -17,
    -17, -17, -17, -8, -8, -18, -7, -22, -22, -13, -13, -27, -27, -27, -32, -32, -32, -37]

/-- How high a state is. What the table lacks is as high as its start. -/
def height (state : Nat) : Int := heights.getD state 0

theorem climbs_table : Climbs table weight height := by
  have all : (table.states.toList.zipIdx.all fun row => row.1.shift.all fun entry =>
      decide (height row.2 + weight entry.1 ≤ height entry.2)) = true := by decide +kernel
  refine ⟨by decide, fun state row name target found entered => ?_⟩
  have listed : (row, state) ∈ table.states.toList.zipIdx := by
    rw [List.mk_mem_zipIdx_iff_getElem?, Array.getElem?_toList]
    exact found
  have each := List.all_eq_true.mp all _ listed
  exact of_decide_eq_true (List.all_eq_true.mp each _ (NameMap.mem_of_get? entered))

/-- No name is cheaper than a rule or dearer than its alternatives, and no state is high. -/
theorem bounded_table : Bounded weight height 9 5 1 := by
  have names : forall pair, pair ∈ weights -> -9 ≤ pair.2 ∧ pair.2 ≤ 5 := by decide
  have states : forall high, high ∈ heights -> high ≤ 1 := by decide
  have weighed : forall name, -9 ≤ weight name ∧ weight name ≤ 5 := by
    intro name
    unfold weight
    cases found : weights.lookup name with
    | none => exact ⟨by decide, by decide⟩
    | some value => exact names _ (mem_of_lookup found)
  refine ⟨fun name => (weighed name).1, fun name => (weighed name).2, fun state => ?_⟩
  unfold height
  rw [List.getD_eq_getElem?_getD]
  cases found : heights[state]? with
  | none => exact Int.zero_le_ofNat 1
  | some high => exact states high (List.mem_of_getElem? found)

/-- The notation is read without unions of patterns. -/
theorem claimed_next {text : NotationText} {preference : Preference} :
    (source.next text preference).1 ≠ .error .unclaimed := by
  intro breaksOff
  have replies := replies_next text preference
  rw [breaksOff] at replies
  cases replies

/-- The parse of a text comes to an end after a few steps for each character. -/
theorem run_finished (text : String) :
    (setting.run (20 * text.toList.length + 14) (.start (.start text))).1 ≠ .unfinished := by
  intro unfinished
  have offers : forall state preference token,
      (setting.source.next state preference).1 = .ok (some token) ->
      token.isSynthetic = false ∧ ¬ plain.IsNonterminal token.name := by
    intro state preference token gives
    rcases terminal_of_lexical (lexical_of_next gives) with ⟨isText, outside⟩
    exact ⟨Token.real_of_text isText, Grammar.not_nonterminal_of_outside toPlain_grammar outside⟩
  rcases Setting.limit_le_of_unfinished prepared_setting.1.drives productions_pay climbs_table
    bounded_table offers unfinished with ⟨tokens, heard, small⟩
  have few : tokens.length ≤ text.toList.length :=
    length_le_of_gives (setting.gives_answers _ (.start (.start text))) heard
  omega

/-! ## Parsing -/

/-- What a text is parsed into is a tree of all of its tokens. -/
theorem lexes_of_parseText {text : String} {tree : ParseTree} (parsed : parseText text = .ok tree) :
    Exists fun word : List Token => Lexes text.toList (word.map Token.content) ∧
      grammar.Forest Symbol.Admits (fun _ => true) [.name "grammar"] [tree] word := by
  rcases Setting.answers_of_parseTree prepared_setting.1 floorsFit_grammar rfl
    (fun _ _ _ gives => terminal_of_lexical (lexical_of_next gives)) (parseText_eq_ok.mp parsed) with
    ⟨word, ⟨limit, answers⟩, forest⟩
  rw [unskipped_setting, root_plain] at forest
  have gives := setting.gives_answers limit (.start (.start text))
  rw [answers] at gives
  exact ⟨word, lexes_of_gives gives, forest⟩

/-- A text is not parsed only because of what is wrong in it. -/
theorem blamesText_of_parseText {text : String} {failure : NotationError}
    (failed : parseText text = .error failure) : failure.BlamesText := by
  have compiled : grammar.compile = .ok setting.table := compile_grammar.1
  have result := Setting.parseTree_external admissible_grammar compiled rfl (fun token asked => by
    rcases Setting.next_of_answers asked with ⟨state, preference, gives⟩
    exact (terminal_of_lexical (lexical_of_next gives)).1) (fun asked => by
    rcases Setting.next_of_answers asked with ⟨state, preference, breaksOff⟩
    exact claimed_next breaksOff) (run_finished text)
  unfold parseText at failed
  rcases result with ⟨tree, parsed⟩ | ⟨error, isExternal, stopped⟩
  · rw [parsed] at failed
    cases failed
  · rw [stopped] at failed
    cases failed
    exact isExternal

/-- The reader judges the tree that a text is parsed into by the tokens of the text. -/
theorem judged_of_parseText {text : String} {tree : ParseTree} (parsed : parseText text = .ok tree) :
    Exists fun word : List Token => Splits text.toList (word.map Token.content) ∧
      tree.leaves = word ∧
      Judged (fun _ => Phrase .grammar (word.map Token.content)) (tree.nodes.mapM readRule) := by
  rcases lexes_of_parseText parsed with ⟨word, lexes, forest⟩
  have leaves := forest.leaves
  rw [ParseTree.leavesOfEach, ParseTree.leavesOfEach, List.append_nil,
    List.filter_eq_self.mpr fun _ _ => rfl] at leaves
  refine ⟨word, lexes.splits, leaves, judged_grammar ⟨fun token member => ?_, forest⟩⟩
  exact (terminal_of_lexical (lexes.lexical (List.mem_map_of_mem member))).1

end Ebnf

namespace Grammar

open Ebnf NotationText

/-! ## Acceptance -/

/-- A text whose tokens are a phrase is read. -/
theorem ofText_of_phrase {text : String} {contents : List (String × Option String)}
    (splits : Splits text.toList contents) (phrase : Phrase .grammar contents) :
    Exists fun grammar => ofText text = .ok grammar := by
  have lexes := splits.lexes
  rcases lexes.yields .start with ⟨tokens, rfl, yields⟩
  have lexical : forall token, token ∈ tokens -> Lexical token.content := fun _ member =>
    lexes.lexical (List.mem_map_of_mem member)
  have texts : forall content, content ∈ tokens.map Token.content -> content.2.isSome = true := by
    intro content member
    rcases List.mem_map.mp member with ⟨token, given, rfl⟩
    exact (terminal_of_lexical (lexical token given)).1
  rcases phrase.legible texts tokens rfl with ⟨trees, copies, reads⟩
  have parsed := parseText_of_forest yields lexical
    (forest_node 0 0 rfl rfl (Copies.repeat0 copies))
  have each : forall node, node ∈ trees.filter ParseTree.isNode ->
      Exists fun rule => readRule node = .ok rule := by
    intro node member
    rcases List.mem_filter.mp member with ⟨among, isNode⟩
    exact (reads node among).2 isNode
  rcases mapM_of_ok each with ⟨rules, isRead⟩
  exact ⟨_, ofText_eq_ok.mpr ⟨_, parsed, rules, isRead, rfl⟩⟩

/-- The tokens of a text that is read are a phrase. -/
theorem phrase_of_ofText {text : String} {grammar : Grammar} (read : ofText text = .ok grammar) :
    Exists fun contents => Splits text.toList contents ∧ Phrase .grammar contents := by
  rcases ofText_eq_ok.mp read with ⟨tree, parsed, rules, isRead, _⟩
  rcases judged_of_parseText parsed with ⟨word, splits, _, judged⟩
  rw [isRead] at judged
  exact ⟨_, splits, judged⟩

/-- A text is refused only because of what is wrong in it. -/
theorem blamesText_of_ofText {text : String} {failure : NotationError}
    (failed : ofText text = .error failure) : failure.BlamesText := by
  unfold ofText at failed
  cases parsed : parseText text with
  | error other =>
      rw [parsed] at failed
      cases failed
      exact blamesText_of_parseText parsed
  | ok tree =>
      rcases judged_of_parseText parsed with ⟨word, _, _, judged⟩
      rw [parsed] at failed
      change (tree.nodes.mapM readRule >>= fun rules => pure (ofRules rules).simplify) = _ at failed
      cases isRead : tree.nodes.mapM readRule with
      | ok rules =>
          rw [isRead] at failed
          cases failed
      | error other =>
          rw [isRead] at failed judged
          cases failed
          exact NotationError.IsRefusal.blamesText judged

/-- A text is read exactly if it is split into tokens that make up a phrase of the notation, and any
other text is refused because of what is wrong in it. Whatever the text is, the notation has a table, the
source passes over slices of the text only, and so does the reader when it takes a name out of its
quotes. -/
theorem ofText_iff_phrase (text : String) :
    ((Exists fun grammar => ofText text = .ok grammar) ↔
      Exists fun contents => Splits text.toList contents ∧ Phrase .grammar contents) ∧
    (forall failure, ofText text = .error failure -> failure.BlamesText) ∧
    Ebnf.grammar.compile = .ok table ∧
    (forall state, Reached text state ->
      Text.slice? text.toList state.place.offset
        (state.place.advance (skipBlanks false state.rest).1).offset =
          some (skipBlanks false state.rest).1) ∧
    forall tree, parseText text = .ok tree -> forall token, token ∈ tree.leaves ->
      forall quote, (quote = '"' ∨ quote = '\x27') ->
        token.textOrEmpty.toList.head? = some quote ->
        Text.slice? token.textOrEmpty.toList 1 (Text.byteSize token.textOrEmpty.toList - 1) =
          some (unquote token.textOrEmpty).toList := by
  refine ⟨⟨?_, ?_⟩, fun _ => blamesText_of_ofText, compile_grammar.1, fun _ => slice?_blanks, ?_⟩
  · rintro ⟨grammar, read⟩
    exact phrase_of_ofText read
  · rintro ⟨contents, splits, phrase⟩
    exact ofText_of_phrase splits phrase
  · intro tree parsed token member quote isQuote begins
    rcases judged_of_parseText parsed with ⟨word, splits, rfl, _⟩
    rcases splits.matches (List.mem_map_of_mem member) with ⟨piece, matched, isText⟩
    have isText : token.text = some (String.ofList piece) := isText
    have own : token.textOrEmpty.toList = piece := by
      rw [Token.textOrEmpty, isText, Option.getD_some, String.toList_ofList]
    exact slice?_quoted matched own isQuote (own ▸ begins)

end Grammar
end ShiftReduce
