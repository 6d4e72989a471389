import ShiftReduce.Ebnf.Reader
import ShiftReduce.Proofs.Grammar.Normal
import ShiftReduce.Proofs.Parse.Progress
import ShiftReduce.Proofs.Text.Decimal

namespace ShiftReduce

/-!
# The tokens of a printed grammar

The notation can express a grammar if its names can be told from its marks: rules and labels are named
by identifiers, and other names need a quote to stand in.  What is printed of such a grammar splits
into the tokens that one expects, which are written down here without blanks and places.

A printed piece is read as its tokens whatever comes behind it, unless it ends with a name or a
number: then the next character must not continue it.  Pieces that begin with a mark or a blank can
follow those.
-/

/-- The name and the text of a token, whatever its place. -/
def Token.content (token : Token) : String × Option String := (token.name, token.text)

/-! ## Grammars that the notation can express -/

/-- A name that can be written: it is not empty, and one of the two quotes does not occur in it. -/
def Writable (word : String) : Prop :=
  word ≠ "" ∧ ¬ ('\x27' ∈ word.toList ∧ '"' ∈ word.toList)

/-- The symbol itself can be written, whatever is inside it. Bounds are numbers of a machine. -/
def Symbol.Spelled : Symbol -> Prop
  | .name word => Writable word
  | .alternation branches => branches ≠ []
  | .bounded min max _ => min ≤ Ebnf.boundLimit ∧ max ≤ Ebnf.boundLimit
  | _ => True

/-- The production can be written: its effect, its label and its symbols. -/
structure Production.Spelled (production : Production) : Prop where
  emit : production.emit = .report ∨ production.emit = .none ∧ production.label = none
  label : forall label, production.label = some label -> isIdentifier label = true ∧ label ≠ "_"
  symbols : forall symbol, symbol ∈ production.symbols -> symbol.Everywhere Symbol.Spelled

/-- The rule can be written. -/
structure Rule.Spelled (rule : Rule) : Prop where
  name : isIdentifier rule.name = true
  inhabited : rule.productions ≠ []
  productions : forall production, production ∈ rule.productions -> production.Spelled

/-- The notation can express the grammar. -/
def Grammar.Expressible (grammar : Grammar) : Prop :=
  forall rule, rule ∈ grammar.rules -> rule.Spelled

namespace Ebnf

/-! ## The tokens -/

/-- A token that is its own name. -/
def markContent (name : String) : String × Option String := (name, some name)

/-- The token of an identifier. -/
def identContent (word : String) : String × Option String := ("ident", some word)

/-- The token of a number. -/
def numberContent (number : Nat) : String × Option String := ("number", some (toString number))

/-- The token of a name, quoted if it has to be. -/
def nameContent (word : String) : String × Option String :=
  if isIdentifier word then identContent word else ("quoted", some (displayName word))

/-- The tokens of the bounds of a repetition. -/
def boundsContents (min max : Nat) : List (String × Option String) :=
  if max = 0 then [markContent "\x7b", numberContent min, markContent ",", markContent "\x7d"]
  else if min = max then [markContent "\x7b", numberContent min, markContent "\x7d"]
  else [markContent "\x7b", numberContent min, markContent ",", numberContent max,
    markContent "\x7d"]

mutual

/-- The tokens of a symbol. -/
def contents : Symbol -> List (String × Option String)
  | .name word => [nameContent word]
  | .repeat0 body =>
    markContent "(" :: contentsOfSequence body ++ [markContent ")", markContent "*"]
  | .repeat1 body =>
    markContent "(" :: contentsOfSequence body ++ [markContent ")", markContent "+"]
  | .optional body => markContent "[" :: contentsOfSequence body ++ [markContent "]"]
  | .alternation branches => markContent "(" :: contentsOfBranches branches ++ [markContent ")"]
  | .bounded min max body =>
    markContent "(" :: contentsOfSequence body ++ markContent ")" :: boundsContents min max

/-- The tokens of a sequence. -/
def contentsOfSequence : List Symbol -> List (String × Option String)
  | [] => []
  | symbol :: rest => contents symbol ++ contentsOfSequence rest

/-- The tokens of alternatives, with a bar between any two. -/
def contentsOfBranches : List (List Symbol) -> List (String × Option String)
  | [] => []
  | [branch] => contentsOfSequence branch
  | branch :: rest => contentsOfSequence branch ++ markContent "|" :: contentsOfBranches rest

end

/-- The tokens of an alternative with a label. -/
def contentsOfAlternative (branch : Branch) : List (String × Option String) :=
  contentsOfSequence branch.symbols ++
    match branch.label with
    | none => []
    | some word => [markContent "@", identContent word]

/-- The tokens of alternatives with labels, with a bar between any two. -/
def contentsOfAlternatives : List Branch -> List (String × Option String)
  | [] => []
  | [branch] => contentsOfAlternative branch
  | branch :: rest => contentsOfAlternative branch ++ markContent "|" :: contentsOfAlternatives rest

/-- The alternative that a production is printed as. -/
def branchOf (production : Production) : Branch :=
  ⟨production.symbols,
    match production.emit.innermost with
    | .none => some "_"
    | _ => production.label⟩

/-- The tokens of a rule. -/
def contentsOfRule (rule : Rule) : List (String × Option String) :=
  identContent rule.name :: markContent "=" ::
    contentsOfAlternatives (rule.productions.map branchOf) ++ [markContent ";"]

end Ebnf

namespace NotationText

open Ebnf

/-! ## Texts and their tokens -/

/-- The text consists of tokens with these contents, and of blanks between them. -/
inductive Lexes : List Char -> List (String × Option String) -> Prop where
  | nil (text : List Char) (blank : (skipBlanks false text).2 = []) : Lexes text []
  | cons (text lexeme rest : List Char) (name : String) (more : List (String × Option String))
      (here : (skipBlanks false text).2 = lexeme ++ rest)
      (reads : lexeme? (lexeme ++ rest) = some (name, lexeme)) (later : Lexes rest more) :
      Lexes text ((name, some (String.ofList lexeme)) :: more)

/-- A source over the text gives these tokens. -/
theorem Lexes.yields {text : List Char} {contents : List (String × Option String)}
    (lexes : Lexes text contents) (place : Position) :
    Exists fun tokens => tokens.map Token.content = contents ∧
      source.Yields tokens ⟨text, place⟩ := by
  induction lexes generalizing place with
  | nil text blank =>
      refine ⟨[], rfl, fun preference => ?_⟩
      dsimp only [source, next]
      rw [blank]
  | cons text lexeme rest name more here reads _ inductionHypothesis =>
      let before := place.advance (skipBlanks false text).1
      rcases inductionHypothesis (before.advance lexeme) with ⟨tokens, same, yields⟩
      refine ⟨⟨name, some (String.ofList lexeme), before⟩ :: tokens, ?_, fun preference => ?_⟩
      · rw [List.map_cons, same]
        rfl
      · dsimp only [source, next]
        rw [here]
        cases first : lexeme ++ rest with
        | nil =>
            rw [first] at reads
            cases reads
        | cons c others =>
            dsimp only
            rw [← first, reads]
            dsimp only
            rw [List.drop_left]
            exact ⟨rfl, yields⟩

/-- Only what is left behind the blanks matters. -/
theorem Lexes.of_blanks {text other : List Char} {contents : List (String × Option String)}
    (lexes : Lexes text contents) (same : (skipBlanks false other).2 = (skipBlanks false text).2) :
    Lexes other contents := by
  cases lexes with
  | nil _ blank => exact .nil other (same.trans blank)
  | cons _ lexeme rest name more here reads later =>
      exact .cons other lexeme rest name more (same.trans here) reads later

theorem skipBlanks_blank {c : Char} (blank : isBlank c = true) (rest : List Char) :
    (skipBlanks false (c :: rest)).2 = (skipBlanks false rest).2 := by
  simp [skipBlanks, blank]

theorem skipBlanks_visible {c : Char} (visible : isBlank c = false) (notSlash : c ≠ '/')
    (rest : List Char) : (skipBlanks false (c :: rest)).2 = c :: rest := by
  simp [skipBlanks, visible, notSlash]

/-- A token at the beginning of a text. -/
theorem Lexes.lexeme {c : Char} {others rest : List Char} {name : String}
    {more : List (String × Option String)} (visible : isBlank c = false) (notSlash : c ≠ '/')
    (reads : lexeme? (c :: others ++ rest) = some (name, c :: others)) (later : Lexes rest more) :
    Lexes (c :: others ++ rest) ((name, some (String.ofList (c :: others))) :: more) :=
  .cons _ _ _ _ _ (skipBlanks_visible visible notSlash _) reads later

/-! ## Pieces of a text -/

/-- The text does not continue a name or a number that stands in front of it. -/
def Apart (text : List Char) : Prop :=
  forall c, text.head? = some c -> isIdentifierPart c = false

/-- The piece is read as these tokens, whatever comes behind it. -/
def Closed (piece : List Char) (contents : List (String × Option String)) : Prop :=
  forall rest more, Lexes rest more -> Lexes (piece ++ rest) (contents ++ more)

/-- The piece is read as these tokens, if what comes behind it does not continue it. -/
def Open (piece : List Char) (contents : List (String × Option String)) : Prop :=
  forall rest more, Apart rest -> Lexes rest more -> Lexes (piece ++ rest) (contents ++ more)

variable {front back : List Char} {first second : List (String × Option String)}

theorem Closed.open (closed : Closed front first) : Open front first :=
  fun rest more _ => closed rest more

theorem Apart.append (apart : Apart front) {rest : List Char} (behind : Apart rest) :
    Apart (front ++ rest) := by
  cases front with
  | nil => exact behind
  | cons c others => exact apart

theorem Closed.append (left : Closed front first) (right : Closed back second) :
    Closed (front ++ back) (first ++ second) := by
  intro rest more later
  rw [List.append_assoc, List.append_assoc]
  exact left _ _ (right rest more later)

theorem Closed.append_open (left : Closed front first) (right : Open back second) :
    Open (front ++ back) (first ++ second) := by
  intro rest more apart later
  rw [List.append_assoc, List.append_assoc]
  exact left _ _ (right rest more apart later)

theorem Open.append (left : Open front first) (apart : Apart back) (right : Open back second) :
    Open (front ++ back) (first ++ second) := by
  intro rest more behind later
  rw [List.append_assoc, List.append_assoc]
  exact left _ _ (apart.append behind) (right rest more behind later)

/-- A piece that ends with something closed is closed. -/
theorem Open.append_closed (left : Open front first) {c : Char} {others : List Char}
    (apart : Apart (c :: others)) (right : Closed (c :: others) second) :
    Closed (front ++ c :: others) (first ++ second) := by
  intro rest more later
  rw [List.append_assoc, List.append_assoc]
  exact left _ _ apart (right rest more later)

theorem closed_nil : Closed [] [] :=
  fun _ _ later => later

theorem closed_blank {c : Char} (blank : isBlank c = true) : Closed [c] [] :=
  fun rest _ later => later.of_blanks (skipBlanks_blank blank rest)

theorem mark_cases {c : Char} {name : String} (isMark : markName? c = some name) :
    name = c.toString ∧ isBlank c = false ∧ c ≠ '/' ∧ isIdentifierPart c = false ∧
      isIdentifierStart c = false ∧ c.isDigit = false ∧ ¬ (c = '"' ∨ c = '\x27') ∧ c ≠ ':' := by
  have each : (['=', ';', '|', '*', '+', '?', '(', ')', '[', ']', '{', '}', ',', '@'].all fun mark =>
      decide (isBlank mark = false ∧ mark ≠ '/' ∧ isIdentifierPart mark = false ∧
        isIdentifierStart mark = false ∧ mark.isDigit = false ∧ ¬ (mark = '"' ∨ mark = '\x27') ∧
        mark ≠ ':')) = true := by decide
  unfold markName? at isMark
  split at isMark
  next listed =>
    exact ⟨(Option.some.inj isMark).symm,
      of_decide_eq_true (List.all_eq_true.mp each c (List.contains_iff_mem.mp listed))⟩
  · cases isMark

theorem apart_mark {c : Char} {name : String} (isMark : markName? c = some name)
    (others : List Char) : Apart (c :: others) := by
  rcases mark_cases isMark with ⟨_, _, _, outside, _⟩
  intro head isHead
  rw [← Option.some.inj isHead]
  exact outside

theorem lexeme?_mark {c : Char} {name : String} (isMark : markName? c = some name)
    (rest : List Char) : lexeme? (c :: rest) = some (name, [c]) := by
  rcases mark_cases isMark with ⟨_, _, _, _, notStart, notDigit, notQuote, notColon⟩
  have prefixes : [':', ':', '='].isPrefixOf (c :: rest) = false := by
    rw [List.isPrefixOf, beq_eq_false_iff_ne.mpr notColon.symm]
    rfl
  rw [lexeme?, notStart, notDigit, if_neg Bool.false_ne_true, if_neg Bool.false_ne_true,
    if_neg notQuote, prefixes, if_neg Bool.false_ne_true, isMark]
  rfl

theorem closed_mark {c : Char} {name : String} (isMark : markName? c = some name) :
    Closed [c] [markContent name] := by
  rcases mark_cases isMark with ⟨isName, visible, notSlash, _⟩
  intro rest more later
  have text : markContent name = (name, some (String.ofList [c])) := by
    rw [markContent, isName]
    rfl
  rw [text]
  exact .lexeme visible notSlash (lexeme?_mark isMark rest) later

/-! ## Names and numbers -/

private theorem takeWhile_eq {p : Char -> Bool} {word rest : List Char}
    (all : forall c, c ∈ word -> p c = true) (stops : forall c, rest.head? = some c -> p c = false) :
    (word ++ rest).takeWhile p = word := by
  rw [List.takeWhile_append_of_pos all]
  cases rest with
  | nil => exact List.append_nil _
  | cons c others =>
      rw [List.takeWhile_cons_of_neg (by rw [stops c rfl]; exact Bool.false_ne_true), List.append_nil]

theorem isBlank_eq_false {c : Char} (inside : isIdentifierPart c = true) :
    isBlank c = false := by
  cases blank : isBlank c with
  | false => rfl
  | true =>
      simp only [isBlank, Bool.or_eq_true, decide_eq_true_eq] at blank
      rcases blank with (((rfl | rfl) | rfl) | rfl) | rfl <;> exact absurd inside (by decide)

theorem ne_slash {c : Char} (inside : isIdentifierPart c = true) : c ≠ '/' := by
  rintro rfl
  exact absurd inside (by decide)

theorem isIdentifierPart_of_start {c : Char} (start : isIdentifierStart c = true) :
    isIdentifierPart c = true := by
  unfold isIdentifierStart at start
  unfold isIdentifierPart Char.isAlphanum
  rcases Bool.or_eq_true_iff.mp start with letter | underscore
  · rw [letter]
    rfl
  · rw [underscore, Bool.or_true]

theorem open_ident {word : String} (identifier : isIdentifier word = true) :
    Open word.toList [identContent word] := by
  intro rest more apart later
  unfold isIdentifier at identifier
  cases letters : word.toList with
  | nil =>
      rw [letters] at identifier
      cases identifier
  | cons c others =>
      rw [letters] at identifier
      rcases Bool.and_eq_true_iff.mp identifier with ⟨start, parts⟩
      have reads : lexeme? (c :: others ++ rest) = some ("ident", c :: others) := by
        rw [List.cons_append, lexeme?, if_pos start,
          takeWhile_eq (List.all_eq_true.mp parts) apart]
      have inside := isIdentifierPart_of_start start
      have text : identContent word = ("ident", some (String.ofList (c :: others))) := by
        rw [identContent, ← letters, String.ofList_toList]
      rw [text]
      exact .lexeme (isBlank_eq_false inside) (ne_slash inside) reads later

theorem not_start_of_digit {c : Char} (digit : c.isDigit = true) :
    isIdentifierStart c = false := by
  have bound : c.val.toNat ≤ 57 := by
    unfold Char.isDigit at digit
    simp only [Bool.and_eq_true, decide_eq_true_eq] at digit
    exact UInt32.le_iff_toNat_le.mp digit.2
  unfold isIdentifierStart Char.isAlpha Char.isUpper Char.isLower
  simp only [Bool.or_eq_false_iff, Bool.and_eq_false_iff, decide_eq_false_iff_not, ge_iff_le,
    UInt32.le_iff_toNat_le]
  refine ⟨⟨?_, Or.inl ?_⟩, ?_⟩
  · exact fun letter => absurd (Nat.le_trans letter.1 bound) (by decide)
  · exact fun letter => absurd (Nat.le_trans letter bound) (by decide)
  · rintro rfl
    exact absurd bound (by decide)

theorem open_number (number : Nat) : Open (toString number).toList [numberContent number] := by
  intro rest more apart later
  rcases Decimal.exists_digit number with ⟨c, others, letters, digit⟩
  have areDigits : forall d, d ∈ others -> d.isDigit = true := by
    intro d member
    have inside : d ∈ (toString number).toList := letters ▸ List.mem_cons_of_mem c member
    exact Decimal.isDigit_of_mem inside
  have inside : isIdentifierPart c = true := by
    unfold isIdentifierPart Char.isAlphanum
    rw [digit, Bool.or_true, Bool.true_or]
  have stops : forall d, rest.head? = some d -> d.isDigit = false := by
    intro d isHead
    have outside := apart d isHead
    unfold isIdentifierPart Char.isAlphanum at outside
    simp only [Bool.or_eq_false_iff] at outside
    exact outside.1.2
  have reads : lexeme? (c :: others ++ rest) = some ("number", c :: others) := by
    rw [List.cons_append, lexeme?, not_start_of_digit digit, if_neg Bool.false_ne_true,
      if_pos digit, takeWhile_eq areDigits stops]
  have text : numberContent number = ("number", some (String.ofList (c :: others))) := by
    rw [numberContent, ← letters, String.ofList_toList]
  rw [letters, text]
  exact .lexeme (isBlank_eq_false inside) (ne_slash inside) reads later

theorem lexeme?_quoted {quote : Char} (isQuote : quote = '"' ∨ quote = '\x27') {word : List Char}
    (notEmpty : word ≠ []) (outside : quote ∉ word) (rest : List Char) :
    lexeme? (quote :: word ++ [quote] ++ rest) = some ("quoted", quote :: word ++ [quote]) := by
  have inside : (word ++ quote :: rest).takeWhile (· ≠ quote) = word := by
    apply takeWhile_eq
    · exact fun c member => decide_eq_true fun same => outside (same ▸ member)
    · intro c isHead
      rw [← Option.some.inj isHead]
      exact decide_eq_false fun different => different rfl
  have quoted : quotedLexeme? quote (word ++ quote :: rest) = some (quote :: word ++ [quote]) := by
    unfold quotedLexeme?
    dsimp only
    rw [inside, List.drop_left, if_neg (by rwa [List.isEmpty_iff])]
  have facts : isIdentifierStart quote = false ∧ quote.isDigit = false := by
    rcases isQuote with rfl | rfl <;> decide
  rw [List.cons_append, List.cons_append, List.append_assoc, List.singleton_append, lexeme?, facts.1,
    facts.2, if_neg Bool.false_ne_true, if_neg Bool.false_ne_true, if_pos isQuote, quoted]
  rfl

theorem closed_quoted {quote : Char} (isQuote : quote = '"' ∨ quote = '\x27') {word : List Char}
    (notEmpty : word ≠ []) (outside : quote ∉ word) :
    Closed (quote :: word ++ [quote])
      [("quoted", some (String.ofList (quote :: word ++ [quote])))] := by
  intro rest more later
  have visible : isBlank quote = false ∧ quote ≠ '/' := by
    rcases isQuote with rfl | rfl <;> decide
  exact .lexeme visible.1 visible.2 (lexeme?_quoted isQuote notEmpty outside rest) later

theorem open_name {word : String} (writable : Writable word) :
    Open (displayName word).toList [nameContent word] := by
  have notEmpty : word.toList ≠ [] := fun empty => writable.1 (String.toList_eq_nil_iff.mp empty)
  unfold nameContent
  split
  next identifier =>
    rw [displayName, if_pos identifier]
    exact open_ident identifier
  next notIdentifier =>
    rw [displayName, if_neg notIdentifier]
    split
    next apostrophe =>
      have outside : '"' ∉ word.toList := fun quote =>
        writable.2 ⟨List.contains_iff_mem.mp apostrophe, quote⟩
      have letters : ("\"" ++ word ++ "\"").toList = '"' :: word.toList ++ ['"'] := by
        rw [String.toList_append, String.toList_append]
        rfl
      rw [← String.ofList_toList (s := "\"" ++ word ++ "\""), letters, String.toList_ofList]
      exact (closed_quoted (Or.inl rfl) notEmpty outside).open
    next noApostrophe =>
      have outside : '\x27' ∉ word.toList := fun quote =>
        noApostrophe (List.contains_iff_mem.mpr quote)
      have letters : ("\x27" ++ word ++ "\x27").toList = '\x27' :: word.toList ++ ['\x27'] := by
        rw [String.toList_append, String.toList_append]
        rfl
      rw [← String.ofList_toList (s := "\x27" ++ word ++ "\x27"), letters, String.toList_ofList]
      exact (closed_quoted (Or.inr rfl) notEmpty outside).open

/-! ## Printed symbols -/

theorem apart_blank {c : Char} (blank : isBlank c = true) (others : List Char) :
    Apart (c :: others) := by
  intro head isHead
  rw [← Option.some.inj isHead]
  cases inside : isIdentifierPart c with
  | false => rfl
  | true => cases blank.symm.trans (isBlank_eq_false inside)

/-- A piece between two brackets. -/
theorem closed_between (left right : Char) {leftName rightName : String}
    (isLeft : markName? left = some leftName) (isRight : markName? right = some rightName)
    (inside : Open front first) :
    Closed (left :: front ++ [right]) (markContent leftName :: first ++ [markContent rightName]) :=
  ((closed_mark isLeft).append_open inside).append_closed (apart_mark isRight [])
    (closed_mark isRight)

theorem closed_bounds (min max : Nat) :
    Closed (displayBounds min max).toList (boundsContents min max) := by
  have opening : Closed ['\x7b'] [markContent "\x7b"] := closed_mark rfl
  have comma : Closed [','] [markContent ","] := closed_mark rfl
  have closing : Closed ['\x7d'] [markContent "\x7d"] := closed_mark rfl
  unfold displayBounds boundsContents
  split
  · have piece := ((opening.append_open (open_number min)).append_closed (apart_mark rfl [])
      comma).append closing
    simpa [String.toList_append] using piece
  · split
    · have piece := closed_between '\x7b' '\x7d' rfl rfl (open_number min)
      simpa [String.toList_append] using piece
    · have piece := ((((opening.append_open (open_number min)).append_closed (apart_mark rfl [])
        comma).append_open (open_number max)).append_closed (apart_mark rfl []) closing)
      simpa [String.toList_append] using piece

open ShiftReduce.Symbol

mutual

theorem open_symbol : (symbol : Symbol) -> symbol.Everywhere Symbol.Spelled ->
    Open symbol.display.toList (contents symbol)
  | .name word, spelled => open_name (spelled (.name word) (.refl _))
  | .repeat0 body, spelled => by
    have group := closed_between '(' ')' rfl rfl (open_sequence body (everywhere_iff.mp spelled).2)
    have star : Closed ['*'] [markContent "*"] := closed_mark rfl
    simpa [display, contents, String.toList_append] using (group.append star).open
  | .repeat1 body, spelled => by
    have group := closed_between '(' ')' rfl rfl (open_sequence body (everywhere_iff.mp spelled).2)
    have plus : Closed ['+'] [markContent "+"] := closed_mark rfl
    simpa [display, contents, String.toList_append] using (group.append plus).open
  | .optional body, spelled => by
    have group := closed_between '[' ']' rfl rfl (open_sequence body (everywhere_iff.mp spelled).2)
    simpa [display, contents, String.toList_append] using group.open
  | .alternation branches, spelled => by
    have group := closed_between '(' ')' rfl rfl
      (open_branches branches fun branch listed symbol member =>
        (everywhere_iff.mp spelled).2 symbol (List.mem_flatten.mpr ⟨branch, listed, member⟩))
    simpa [display, contents, String.toList_append] using group.open
  | .bounded min max body, spelled => by
    have group := closed_between '(' ')' rfl rfl (open_sequence body (everywhere_iff.mp spelled).2)
    simpa [display, contents, String.toList_append] using (group.append (closed_bounds min max)).open

theorem open_sequence : (symbols : List Symbol) ->
    (forall symbol, symbol ∈ symbols -> symbol.Everywhere Symbol.Spelled) ->
    Open (displaySequence symbols).toList (contentsOfSequence symbols)
  | [], _ => closed_nil.open
  | [symbol], spelled => by
    have only := open_symbol symbol (spelled symbol List.mem_cons_self)
    simpa [displaySequence, contentsOfSequence] using only
  | symbol :: next :: rest, spelled => by
    have first := open_symbol symbol (spelled symbol List.mem_cons_self)
    have later := open_sequence (next :: rest)
      fun other member => spelled other (List.mem_cons_of_mem _ member)
    have blank : Closed [' '] [] := closed_blank rfl
    have piece := first.append (apart_blank rfl _) (blank.append_open later)
    simpa [displaySequence, contentsOfSequence, String.toList_append] using piece

theorem open_branches : (branches : List (List Symbol)) ->
    (forall branch, branch ∈ branches -> forall symbol, symbol ∈ branch ->
      symbol.Everywhere Symbol.Spelled) ->
    Open (displayBranches branches).toList (contentsOfBranches branches)
  | [], _ => closed_nil.open
  | [branch], spelled => by
    have only := open_sequence branch (spelled branch List.mem_cons_self)
    simpa [displayBranches, contentsOfBranches] using only
  | branch :: next :: rest, spelled => by
    have first := open_sequence branch (spelled branch List.mem_cons_self)
    have later := open_branches (next :: rest)
      fun other member => spelled other (List.mem_cons_of_mem _ member)
    have blank : Closed [' '] [] := closed_blank rfl
    have bar : Closed ['|'] [markContent "|"] := closed_mark rfl
    have piece := first.append (apart_blank rfl _)
      (((blank.append bar).append blank).append_open later)
    simpa [displayBranches, contentsOfBranches, String.toList_append] using piece

end

/-! ## Printed rules -/

theorem open_production {production : Production} (spelled : production.Spelled) :
    Open production.display.toList (contentsOfAlternative (branchOf production)) := by
  have body := open_sequence production.symbols spelled.symbols
  have label : production.displayLabel = (branchOf production).label.map ("@" ++ ·) := by
    unfold Production.displayLabel branchOf
    rcases spelled.emit with emit | ⟨emit, _⟩
    · rw [emit]
      cases production.label <;> rfl
    · rw [emit]
      rfl
  have identifier : forall word, (branchOf production).label = some word ->
      isIdentifier word = true := by
    intro word isWord
    unfold branchOf at isWord
    rcases spelled.emit with emit | ⟨emit, _⟩
    · rw [emit] at isWord
      exact (spelled.label word isWord).1
    · rw [emit] at isWord
      rw [← Option.some.inj isWord]
      decide
  unfold Production.display contentsOfAlternative
  dsimp only
  rw [label]
  cases isWord : (branchOf production).label with
  | none =>
      rw [Option.map_none, List.append_nil]
      exact body
  | some word =>
      have sign : Closed ['@'] [markContent "@"] := closed_mark rfl
      have tag := sign.append_open (open_ident (identifier word isWord))
      cases isEmpty : production.symbols with
      | nil =>
          simpa [branchOf, isEmpty, displaySequence, contentsOfSequence, String.toList_append] using tag
      | cons symbol rest =>
          rw [isEmpty] at body
          have blank : Closed [' '] [] := closed_blank rfl
          have piece := body.append (apart_blank rfl _) (blank.append_open tag)
          simpa [branchOf, isEmpty, String.toList_append] using piece

theorem open_productions {productions : List Production}
    (spelled : forall production, production ∈ productions -> production.Spelled) :
    Open ("\n    | ".intercalate (productions.map Production.display)).toList
      (contentsOfAlternatives (productions.map branchOf)) := by
  induction productions with
  | nil => exact closed_nil.open
  | cons production rest inductionHypothesis =>
      have first := open_production (spelled production List.mem_cons_self)
      cases rest with
      | nil => simpa [contentsOfAlternatives] using first
      | cons next others =>
          have later := inductionHypothesis fun other member =>
            spelled other (List.mem_cons_of_mem _ member)
          have line : Closed ['\n'] [] := closed_blank rfl
          have blank : Closed [' '] [] := closed_blank rfl
          have bar : Closed ['|'] [markContent "|"] := closed_mark rfl
          have margin := (((line.append blank).append blank).append blank).append blank
          have piece := first.append (apart_blank rfl _)
            (((margin.append bar).append blank).append_open later)
          rw [List.map_cons, List.map_cons, String.intercalate_cons_cons, ← List.map_cons]
          simpa [contentsOfAlternatives, String.toList_append] using piece

theorem closed_rule {rule : Rule} (spelled : rule.Spelled) :
    Closed (rule.display ++ "\n").toList (contentsOfRule rule) := by
  have blank : Closed [' '] [] := closed_blank rfl
  have line : Closed ['\n'] [] := closed_blank rfl
  have equals : Closed ['='] [markContent "="] := closed_mark rfl
  have semicolon : Closed [';'] [markContent ";"] := closed_mark rfl
  have right := ((blank.append equals).append blank).append_open
    (open_productions spelled.productions)
  have piece := ((open_ident spelled.name).append (apart_blank rfl _) right).append_closed
    (apart_mark rfl []) semicolon
  have notEmpty : rule.productions.isEmpty = false := by
    rw [List.isEmpty_eq_false_iff]
    exact spelled.inhabited
  unfold Rule.display
  rw [displayName, if_pos spelled.name, notEmpty]
  simpa [contentsOfRule, String.toList_append] using piece.append line

/-- What is printed of a grammar splits into its tokens. -/
theorem lexes_display {grammar : Grammar} (expressible : grammar.Expressible) :
    Lexes grammar.display.toList (grammar.rules.flatMap contentsOfRule) := by
  have each : forall rules : List Rule, (forall rule, rule ∈ rules -> rule.Spelled) ->
      Closed (String.join (rules.map fun rule => rule.display ++ "\n")).toList
        (rules.flatMap contentsOfRule) := by
    intro rules
    induction rules with
    | nil => exact fun _ => closed_nil
    | cons rule rest inductionHypothesis =>
        intro spelled
        have later := inductionHypothesis fun other member =>
          spelled other (List.mem_cons_of_mem _ member)
        rw [List.map_cons, String.join_cons, String.toList_append, List.flatMap_cons]
        exact (closed_rule (spelled rule List.mem_cons_self)).append later
  have all := each grammar.rules expressible [] [] (.nil [] rfl)
  rwa [List.append_nil, List.append_nil] at all

end NotationText

end ShiftReduce
