import ShiftReduce.Proofs.Ebnf.Lexing

namespace ShiftReduce
namespace NotationText

/-!
# Splitting a text by patterns

The tokens of the notation are declared by patterns.  A text is split by taking away the longest piece
at its beginning that one of the patterns matches, again and again, until nothing is left; blanks and
comments are pieces like any other, except that they are left out.

The source does the same character by character.  It decides at the first character which pattern can
match, so that the longest piece is as far as this pattern goes.
-/

/-- What the patterns match, with the name of the token that it is.  A piece without a name is left
out. -/
inductive Matches : Option String -> List Char -> Prop where
  | blanks (piece : List Char) (notEmpty : piece ≠ [])
      (blank : forall c, c ∈ piece -> c ∈ [' ', '\t', '\r', '\n', '\x0C']) : Matches none piece
  | comment (line : List Char) (within : '\n' ∉ line) : Matches none ('/' :: '/' :: line)
  | identifier (c : Char) (rest : List Char) (begins : c.isAlpha = true ∨ c = '_')
      (goesOn : forall d, d ∈ rest -> d.isAlphanum = true ∨ d = '_') :
      Matches (some "ident") (c :: rest)
  | number (c : Char) (rest : List Char) (digits : forall d, d ∈ c :: rest -> d.isDigit = true) :
      Matches (some "number") (c :: rest)
  | quoted (quote : Char) (inside : List Char) (isQuote : quote = '"' ∨ quote = '\x27')
      (notEmpty : inside ≠ []) (outside : quote ∉ inside) :
      Matches (some "quoted") (quote :: inside ++ [quote])
  | defines : Matches (some "=") [':', ':', '=']
  | mark (c : Char)
      (isMark : c ∈ ['=', ';', '|', '*', '+', '?', '(', ')', '[', ']', '{', '}', ',', '@']) :
      Matches (some c.toString) [c]

/-- No pattern matches a longer piece at the beginning of the text. -/
def Longest (piece text : List Char) : Prop :=
  forall kind other, Matches kind other -> other <+: text -> other.length ≤ piece.length

/-- The text is split into tokens with these contents. -/
inductive Splits : List Char -> List (String × Option String) -> Prop where
  | nil : Splits [] []
  | blank (piece rest : List Char) (contents : List (String × Option String))
      (matched : Matches none piece) (longest : Longest piece (piece ++ rest))
      (later : Splits rest contents) : Splits (piece ++ rest) contents
  | token (name : String) (piece rest : List Char) (contents : List (String × Option String))
      (matched : Matches (some name) piece) (longest : Longest piece (piece ++ rest))
      (later : Splits rest contents) :
      Splits (piece ++ rest) ((name, some (String.ofList piece)) :: contents)

/-! ## The longest piece -/

/-- The piece at the beginning of a text as the source takes it, a token or what is left out. -/
def piece? : List Char -> Option (Option String × List Char)
  | [] => none
  | c :: rest =>
    if isBlank c then some (none, c :: rest.takeWhile isBlank)
    else if c = '/' ∧ rest.head? = some '/' then some (none, c :: rest.takeWhile (· ≠ '\n'))
    else (lexeme? (c :: rest)).map fun (name, lexeme) => (some name, lexeme)

theorem isBlank_iff {c : Char} :
    isBlank c = true ↔ c ∈ [' ', '\t', '\r', '\n', '\x0C'] := by
  simp [isBlank, or_assoc]

theorem isIdentifierStart_iff {c : Char} :
    isIdentifierStart c = true ↔ c.isAlpha = true ∨ c = '_' := by
  simp [isIdentifierStart]

theorem isIdentifierPart_iff {c : Char} :
    isIdentifierPart c = true ↔ c.isAlphanum = true ∨ c = '_' := by
  simp [isIdentifierPart]

private theorem of_mem_takeWhile {p : Char -> Bool} {text : List Char} {c : Char}
    (member : c ∈ text.takeWhile p) : p c = true :=
  List.all_eq_true.mp List.all_takeWhile c member

/-- A quoted name ends at the next quote. -/
theorem quote_of_quotedLexeme? {quote : Char} {rest lexeme : List Char}
    (found : quotedLexeme? quote rest = some lexeme) :
    Exists fun inside => Exists fun others => rest = inside ++ quote :: others ∧ inside ≠ [] ∧
      quote ∉ inside ∧ lexeme = quote :: inside ++ [quote] := by
  have outside : quote ∉ rest.takeWhile (· ≠ quote) := fun member =>
    of_decide_eq_true (of_mem_takeWhile member) rfl
  have drops : rest.drop (rest.takeWhile (· ≠ quote)).length = rest.dropWhile (· ≠ quote) := by
    have divided : rest.takeWhile (· ≠ quote) ++ rest.dropWhile (· ≠ quote) = rest :=
      List.takeWhile_append_dropWhile
    conv_lhs =>
      arg 2
      rw [← divided]
    exact List.drop_left
  unfold quotedLexeme? at found
  dsimp only at found
  split at found
  · cases found
  next notEmpty =>
    rw [drops] at found
    cases behind : rest.dropWhile (· ≠ quote) with
    | nil =>
        rw [behind] at found
        cases found
    | cons last others =>
        rw [behind] at found
        cases found
        have isQuote : last = quote := by
          have stops := List.head?_dropWhile_not (· ≠ quote) rest
          rw [behind] at stops
          simpa using stops
        refine ⟨_, others, ?_, fun empty => notEmpty (List.isEmpty_iff.mpr empty), outside, rfl⟩
        rw [← isQuote, ← behind, isQuote]
        exact List.takeWhile_append_dropWhile.symm

/-- A token that is read at the beginning of a text is matched there. -/
theorem matches_of_lexeme? {text lexeme : List Char} {name : String}
    (read : lexeme? text = some (name, lexeme)) :
    Matches (some name) lexeme ∧ lexeme <+: text := by
  cases text with
  | nil => cases read
  | cons c rest =>
      rw [lexeme?] at read
      split at read
      next start =>
        cases read
        refine ⟨.identifier c _ (isIdentifierStart_iff.mp start) fun d member => ?_, ?_⟩
        · exact isIdentifierPart_iff.mp (of_mem_takeWhile member)
        · exact List.cons_prefix_cons.mpr ⟨rfl, List.takeWhile_prefix _⟩
      · split at read
        next digit =>
          cases read
          refine ⟨.number c _ fun d member => ?_, ?_⟩
          · rcases List.mem_cons.mp member with rfl | inside
            · exact digit
            · exact of_mem_takeWhile inside
          · exact List.cons_prefix_cons.mpr ⟨rfl, List.takeWhile_prefix _⟩
        · split at read
          next isQuote =>
            rcases Option.map_eq_some_iff.mp read with ⟨quoted, found, same⟩
            cases same
            rcases quote_of_quotedLexeme? found with ⟨inside, others, rfl, notEmpty, outside, rfl⟩
            refine ⟨.quoted c inside isQuote notEmpty outside, others, ?_⟩
            simp
          · split at read
            next begins =>
              cases read
              exact ⟨.defines, List.isPrefixOf_iff_prefix.mp begins⟩
            · rcases Option.map_eq_some_iff.mp read with ⟨mark, isMark, same⟩
              cases same
              unfold markName? at isMark
              split at isMark
              next listed =>
                cases isMark
                refine ⟨.mark c (List.contains_iff_mem.mp listed), ?_⟩
                exact List.cons_prefix_cons.mpr ⟨rfl, List.nil_prefix⟩
              · cases isMark

/-- A token is matched whose first character neither separates tokens nor begins a comment. -/
theorem visible_of_matches {name : String} {piece : List Char} (matched : Matches (some name) piece) :
    Exists fun c => Exists fun rest => piece = c :: rest ∧ isBlank c = false ∧ c ≠ '/' := by
  cases matched with
  | identifier c rest begins =>
      have inside := isIdentifierPart_of_start (isIdentifierStart_iff.mpr begins)
      exact ⟨c, rest, rfl, isBlank_eq_false inside, ne_slash inside⟩
  | number c rest digits =>
      have inside : isIdentifierPart c = true := by
        unfold isIdentifierPart Char.isAlphanum
        rw [digits c List.mem_cons_self, Bool.or_true, Bool.true_or]
      exact ⟨c, rest, rfl, isBlank_eq_false inside, ne_slash inside⟩
  | quoted quote inside isQuote =>
      refine ⟨quote, _, rfl, ?_⟩
      rcases isQuote with rfl | rfl <;> decide
  | defines => exact ⟨':', _, rfl, by decide⟩
  | mark c isMark =>
      have isMark : markName? c = some c.toString := if_pos (List.contains_iff_mem.mpr isMark)
      rcases mark_cases isMark with ⟨_, visible, notSlash, _⟩
      exact ⟨c, [], rfl, visible, notSlash⟩

/-- The source takes tokens that are matched at the beginning of a text as far as they go. -/
theorem lexeme?_of_matches {name : String} {piece : List Char} (matched : Matches (some name) piece)
    (rest : List Char) :
    Exists fun longer => lexeme? (piece ++ rest) = some (name, longer) ∧ piece <+: longer := by
  cases matched with
  | identifier c others begins goesOn =>
      have parts : forall d, d ∈ others -> isIdentifierPart d = true := fun d member =>
        isIdentifierPart_iff.mpr (goesOn d member)
      refine ⟨c :: (others ++ rest).takeWhile isIdentifierPart, ?_, ?_⟩
      · rw [List.cons_append, lexeme?, if_pos (isIdentifierStart_iff.mpr begins)]
      · rw [List.takeWhile_append_of_pos parts]
        exact List.prefix_append (c :: others) _
  | number c others digits =>
      have digit := digits c List.mem_cons_self
      refine ⟨c :: (others ++ rest).takeWhile Char.isDigit, ?_, ?_⟩
      · rw [List.cons_append, lexeme?, not_start_of_digit digit, if_neg Bool.false_ne_true,
          if_pos digit]
      · rw [List.takeWhile_append_of_pos fun d member => digits d (List.mem_cons_of_mem c member)]
        exact List.prefix_append (c :: others) _
  | quoted quote inside isQuote notEmpty outside =>
      exact ⟨_, lexeme?_quoted isQuote notEmpty outside rest, List.prefix_refl _⟩
  | defines => exact ⟨[':', ':', '='], rfl, List.prefix_refl _⟩
  | mark c isMark =>
      have isMark : markName? c = some c.toString := if_pos (List.contains_iff_mem.mpr isMark)
      exact ⟨[c], lexeme?_mark isMark rest, List.prefix_refl _⟩

theorem matches_of_piece? {text piece : List Char} {kind : Option String}
    (read : piece? text = some (kind, piece)) : Matches kind piece ∧ piece <+: text := by
  cases text with
  | nil => cases read
  | cons c rest =>
      rw [piece?] at read
      split at read
      next blank =>
        cases read
        refine ⟨.blanks _ (List.cons_ne_nil _ _) fun d member => isBlank_iff.mp ?_, ?_⟩
        · rcases List.mem_cons.mp member with rfl | inside
          · exact blank
          · exact of_mem_takeWhile inside
        · exact List.cons_prefix_cons.mpr ⟨rfl, List.takeWhile_prefix _⟩
      · split at read
        next slashes =>
          rcases slashes with ⟨rfl, second⟩
          cases read
          rcases List.head?_eq_some_iff.mp second with ⟨others, rfl⟩
          have line : ('/' :: others).takeWhile (· ≠ '\n') = '/' :: others.takeWhile (· ≠ '\n') :=
            List.takeWhile_cons_of_pos (by decide)
          rw [line]
          refine ⟨.comment _ fun member => of_decide_eq_true (of_mem_takeWhile member) rfl, ?_⟩
          exact List.cons_prefix_cons.mpr
            ⟨rfl, List.cons_prefix_cons.mpr ⟨rfl, List.takeWhile_prefix _⟩⟩
        · rcases Option.map_eq_some_iff.mp read with ⟨⟨name, lexeme⟩, found, same⟩
          cases same
          exact matches_of_lexeme? found

/-- At most one kind of pattern matches at the beginning of a text, and the source goes as far as it
does. -/
theorem piece?_of_matches {kind : Option String} {piece : List Char} (matched : Matches kind piece)
    (rest : List Char) :
    Exists fun longer => piece? (piece ++ rest) = some (kind, longer) ∧ piece <+: longer := by
  cases kind with
  | some name =>
      rcases visible_of_matches matched with ⟨c, others, rfl, visible, notSlash⟩
      rcases lexeme?_of_matches matched rest with ⟨longer, read, front⟩
      refine ⟨longer, ?_, front⟩
      rw [List.cons_append] at read
      rw [List.cons_append, piece?, visible, if_neg Bool.false_ne_true,
        if_neg fun slashes => notSlash slashes.1, read]
      rfl
  | none =>
      cases matched with
      | blanks piece notEmpty blank =>
          cases piece with
          | nil => exact (notEmpty rfl).elim
          | cons c others =>
              have all : forall d, d ∈ others -> isBlank d = true := fun d member =>
                isBlank_iff.mpr (blank d (List.mem_cons_of_mem c member))
              refine ⟨c :: (others ++ rest).takeWhile isBlank, ?_, ?_⟩
              · rw [List.cons_append, piece?, if_pos (isBlank_iff.mpr (blank c List.mem_cons_self))]
              · rw [List.takeWhile_append_of_pos all]
                exact List.prefix_append (c :: others) _
      | comment line within =>
          have all : forall d, d ∈ '/' :: line -> decide (d ≠ '\n') = true := by
            intro d member
            refine decide_eq_true ?_
            rintro rfl
            rcases List.mem_cons.mp member with impossible | inside
            · exact absurd impossible (by decide)
            · exact within inside
          refine ⟨'/' :: ('/' :: line ++ rest).takeWhile (· ≠ '\n'), rfl, ?_⟩
          rw [List.takeWhile_append_of_pos all]
          exact List.prefix_append ('/' :: '/' :: line) _

/-- The source takes the longest piece that is matched at the beginning of a text. -/
theorem piece?_eq_some_iff {kind : Option String} {piece rest : List Char} :
    piece? (piece ++ rest) = some (kind, piece) ↔
      Matches kind piece ∧ Longest piece (piece ++ rest) := by
  constructor
  · intro read
    refine ⟨(matches_of_piece? read).1, fun otherKind other matched front => ?_⟩
    rcases front with ⟨behind, same⟩
    rcases piece?_of_matches matched behind with ⟨longer, found, within⟩
    rw [same, read, Option.some.injEq, Prod.mk.injEq] at found
    exact found.2 ▸ within.length_le
  · rintro ⟨matched, longest⟩
    rcases piece?_of_matches matched rest with ⟨longer, found, within⟩
    rcases matches_of_piece? found with ⟨other, front⟩
    rw [found, within.eq_of_length_le (longest kind longer other front)]

/-! ## What is left out -/

theorem skipBlanks_blanks {piece : List Char} (blank : forall c, c ∈ piece -> isBlank c = true)
    (rest : List Char) : (skipBlanks false (piece ++ rest)).2 = (skipBlanks false rest).2 := by
  induction piece with
  | nil => rfl
  | cons c others inductionHypothesis =>
      rw [List.cons_append, skipBlanks_blank (blank c List.mem_cons_self)]
      exact inductionHypothesis fun d member => blank d (List.mem_cons_of_mem c member)

theorem skipBlanks_line {line : List Char} (within : '\n' ∉ line) (rest : List Char) :
    (skipBlanks true (line ++ rest)).2 = (skipBlanks true rest).2 := by
  induction line with
  | nil => rfl
  | cons c others inductionHypothesis =>
      rw [List.mem_cons, not_or] at within
      have inside : c ≠ '\n' := Ne.symm within.1
      rw [List.cons_append, ← inductionHypothesis within.2, skipBlanks]
      simp [inside]

/-- A comment is left out if nothing on its line is behind it. -/
theorem skipBlanks_comment {line rest : List Char} (within : '\n' ∉ line)
    (ends : forall c, rest.head? = some c -> c = '\n') :
    (skipBlanks false ('/' :: '/' :: line ++ rest)).2 = (skipBlanks false rest).2 := by
  have begins : (skipBlanks false ('/' :: '/' :: line ++ rest)).2 =
      (skipBlanks true ('/' :: line ++ rest)).2 := by
    rw [List.cons_append, skipBlanks]
    simp [isBlank]
  have slash : '\n' ∉ '/' :: line := by
    rw [List.mem_cons, not_or]
    exact ⟨by decide, within⟩
  rw [begins, skipBlanks_line slash]
  cases rest with
  | nil => rfl
  | cons c others =>
      rw [ends c rfl, skipBlanks_blank (by decide), skipBlanks]
      simp

/-- The longest piece of blanks or of a comment is left out. -/
theorem skipBlanks_of_matches {piece rest : List Char} (matched : Matches none piece)
    (longest : Longest piece (piece ++ rest)) :
    (skipBlanks false (piece ++ rest)).2 = (skipBlanks false rest).2 := by
  cases matched with
  | blanks _ _ blank => exact skipBlanks_blanks (fun c member => isBlank_iff.mpr (blank c member)) rest
  | comment line within =>
      refine skipBlanks_comment within fun c isHead => ?_
      rcases List.head?_eq_some_iff.mp isHead with ⟨others, rfl⟩
      by_contra inside
      have longer : Matches none ('/' :: '/' :: (line ++ [c])) := by
        refine .comment _ fun member => ?_
        rcases List.mem_append.mp member with before | last
        · exact within before
        · exact inside (List.mem_singleton.mp last).symm
      have bound := longest none _ longer ⟨others, by simp⟩
      rw [List.length_cons, List.length_cons, List.length_append] at bound
      simp at bound

/-- In front of a token nothing is left out. -/
theorem skipBlanks_of_token {name : String} {piece : List Char} (matched : Matches (some name) piece)
    (rest : List Char) : (skipBlanks false (piece ++ rest)).2 = piece ++ rest := by
  rcases visible_of_matches matched with ⟨c, others, rfl, visible, notSlash⟩
  exact skipBlanks_visible visible notSlash (others ++ rest)

/-- What is not left out is a token. -/
theorem piece?_eq_lexeme? {name : String} {text piece : List Char} :
    piece? text = some (some name, piece) ↔ lexeme? text = some (name, piece) := by
  cases text with
  | nil => exact ⟨nofun, nofun⟩
  | cons c rest =>
      rw [piece?]
      constructor
      · intro read
        split at read
        · cases read
        · split at read
          · cases read
          · rcases Option.map_eq_some_iff.mp read with ⟨⟨_, _⟩, found, same⟩
            cases same
            exact found
      · intro read
        rcases matches_of_lexeme? read with ⟨matched, front⟩
        rcases visible_of_matches matched with ⟨d, others, rfl, visible, notSlash⟩
        rcases List.cons_prefix_cons.mp front with ⟨rfl, _⟩
        rw [visible, if_neg Bool.false_ne_true, if_neg fun slashes => notSlash slashes.1, read]
        rfl

theorem skipBlanks_of_piece? {text : List Char}
    (kept : forall piece, piece? text ≠ some (none, piece)) : (skipBlanks false text).2 = text := by
  cases text with
  | nil => rfl
  | cons c rest =>
      have visible : ¬ isBlank c = true := fun blank => kept _ (if_pos blank)
      have noSlashes : ¬ (c = '/' ∧ rest.head? = some '/') := fun slashes =>
        kept _ ((if_neg visible).trans (if_pos slashes))
      rw [skipBlanks]
      simp [visible, noSlashes]

/-! ## The source splits texts -/

theorem Matches.ne_nil {kind : Option String} {piece : List Char} (matched : Matches kind piece) :
    piece ≠ [] := by
  cases matched with
  | blanks _ notEmpty => exact notEmpty
  | comment | identifier | number | quoted | defines | mark => exact List.cons_ne_nil _ _

theorem Splits.lexes {text : List Char} {contents : List (String × Option String)}
    (splits : Splits text contents) : Lexes text contents := by
  induction splits with
  | nil => exact .nil [] rfl
  | blank piece rest contents matched longest _ inductionHypothesis =>
      exact inductionHypothesis.of_blanks (skipBlanks_of_matches matched longest)
  | token name piece rest contents matched longest _ inductionHypothesis =>
      refine .cons _ piece rest name contents (skipBlanks_of_token matched rest) ?_
        inductionHypothesis
      exact piece?_eq_lexeme?.mp (piece?_eq_some_iff.mpr ⟨matched, longest⟩)

theorem Lexes.splits {text : List Char} {contents : List (String × Option String)}
    (lexes : Lexes text contents) : Splits text contents := by
  generalize size : text.length = length
  induction length using Nat.strongRecOn generalizing text contents with
  | ind length inductionHypothesis =>
      have shorter : forall piece rest : List Char, piece ≠ [] -> text = piece ++ rest ->
          rest.length < length := by
        rintro piece rest notEmpty rfl
        have positive := List.length_pos_of_ne_nil notEmpty
        rw [← size, List.length_append]
        omega
      by_cases leaves : Exists fun piece => piece? text = some (none, piece)
      · rcases leaves with ⟨piece, read⟩
        rcases (matches_of_piece? read).2 with ⟨rest, rfl⟩
        rcases piece?_eq_some_iff.mp read with ⟨matched, longest⟩
        have later := lexes.of_blanks (skipBlanks_of_matches matched longest).symm
        exact .blank piece rest contents matched longest
          (inductionHypothesis _ (shorter piece rest matched.ne_nil rfl) later rfl)
      · rw [not_exists] at leaves
        have same := skipBlanks_of_piece? leaves
        cases lexes with
        | nil _ blank =>
            rw [← same, blank]
            exact .nil
        | cons _ lexeme rest name more here reads later =>
            rw [same] at here
            subst here
            rcases piece?_eq_some_iff.mp (piece?_eq_lexeme?.mpr reads) with ⟨matched, longest⟩
            exact .token name lexeme rest more matched longest
              (inductionHypothesis _ (shorter lexeme rest matched.ne_nil rfl) later rfl)

/-- Every token of a text is matched by its pattern. -/
theorem Splits.matches {text : List Char} {contents : List (String × Option String)}
    (splits : Splits text contents) {content : String × Option String}
    (member : content ∈ contents) :
    Exists fun piece => Matches (some content.1) piece ∧ content.2 = some (String.ofList piece) := by
  induction splits with
  | nil => cases member
  | blank _ _ _ _ _ _ inductionHypothesis => exact inductionHypothesis member
  | token name piece rest contents matched _ _ inductionHypothesis =>
      rcases List.mem_cons.mp member with rfl | later
      · exact ⟨piece, matched, rfl⟩
      · exact inductionHypothesis later

end NotationText
end ShiftReduce
