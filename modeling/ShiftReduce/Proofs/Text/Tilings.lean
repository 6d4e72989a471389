import ShiftReduce.Proofs.Text.Slices
import ShiftReduce.Token

namespace ShiftReduce

/-!
# Places in a text, and tokens one behind another

A place is moved on character by character, so it is moved on over two texts as over one, and never
back.  Tokens that stand one behind another tile a text: each has a piece of it, begins where the one
before ended, and is not empty.  From this it follows where each of them stands in the whole text.
-/

namespace Position

theorem advance_append (place : Position) (first second : List Char) :
    place.advance (first ++ second) = (place.advance first).advance second :=
  List.foldl_append

theorem offset_advance (place : Position) (text : List Char) :
    (place.advance text).offset = place.offset + Text.byteSize text := by
  induction text generalizing place with
  | nil => rfl
  | cons c rest inductionHypothesis =>
      have one : (place.step c).offset = place.offset + c.utf8Size := by
        unfold step
        split <;> rfl
      change ((place.step c).advance rest).offset = _
      rw [inductionHypothesis, one, Text.byteSize, Nat.add_assoc]

theorem offset_advance_start (text : List Char) :
    (start.advance text).offset = Text.byteSize text := by
  rw [offset_advance]
  exact Nat.zero_add _

/-- A place that is reached over a text is where its offset is located. -/
theorem locate_advance (before rest : List Char) :
    locate (before ++ rest) (start.advance before).offset = start.advance before := by
  rw [offset_advance_start, locate, Text.takeWithin_byteSize]

/-- Moving on leads to no earlier line, and on the same line to no earlier column. -/
private theorem lines_advance (place : Position) (text : List Char) :
    place.line < (place.advance text).line ∨
      (place.line = (place.advance text).line ∧ place.column ≤ (place.advance text).column) := by
  induction text generalizing place with
  | nil => exact Or.inr ⟨rfl, Nat.le_refl _⟩
  | cons c rest inductionHypothesis =>
      have one : place.line < (place.step c).line ∨
          (place.line = (place.step c).line ∧ place.column ≤ (place.step c).column) := by
        unfold step
        split
        · exact Or.inl (Nat.lt_succ_self _)
        · exact Or.inr ⟨rfl, Nat.le_succ _⟩
      have further := inductionHypothesis (place.step c)
      have moved : place.advance (c :: rest) = (place.step c).advance rest := rfl
      rw [moved]
      omega

/-- A place behind another is not earlier. -/
theorem earlier_advance (place : Position) (text : List Char) :
    place.earlier (place.advance text) = place := by
  have lines := place.lines_advance text
  have offset := place.offset_advance text
  refine if_neg ?_
  unfold compare
  intro earlier
  simp only [Ordering.then_eq_lt, Nat.compare_eq_lt, Nat.compare_eq_eq] at earlier
  omega

end Position

/-- The tokens stand one behind another from a place on, and have this text together. -/
inductive Tiles : Position -> List Token -> List Char -> Prop where
  | nil (place : Position) : Tiles place [] []
  | cons (place : Position) (token : Token) (piece : List Char) (others : List Token)
      (rest : List Char) (own : token.text = some (String.ofList piece)) (inhabited : piece ≠ [])
      (located : token.position = place) (later : Tiles (place.advance piece) others rest) :
      Tiles place (token :: others) (piece ++ rest)

namespace Tiles

variable {place : Position} {tokens others : List Token} {text rest : List Char}

theorem append (first : Tiles place tokens text) (second : Tiles (place.advance text) others rest) :
    Tiles place (tokens ++ others) (text ++ rest) := by
  induction first with
  | nil => exact second
  | cons place token piece later more own inhabited located _ inductionHypothesis =>
      rw [Position.advance_append] at second
      rw [List.cons_append, List.append_assoc]
      exact .cons place token piece _ _ own inhabited located (inductionHypothesis second)

/-- The last token ends where the text does. -/
theorem concat (first : Tiles place tokens text) {token : Token} {piece : List Char}
    (own : token.text = some (String.ofList piece)) (inhabited : piece ≠ [])
    (located : token.position = place.advance text) :
    Tiles place (tokens ++ [token]) (text ++ piece) := by
  have last : Tiles (place.advance text) [token] (piece ++ []) :=
    .cons _ token piece [] [] own inhabited located (.nil _)
  rw [List.append_nil] at last
  exact first.append last

theorem split (tiles : Tiles place (tokens ++ others) text) :
    Exists fun first => Exists fun second => text = first ++ second ∧ Tiles place tokens first ∧
      Tiles (place.advance first) others second := by
  induction tokens generalizing place text with
  | nil => exact ⟨[], text, rfl, .nil place, tiles⟩
  | cons token tokens inductionHypothesis =>
      cases tiles with
      | cons _ _ piece _ rest own inhabited located later =>
          rcases inductionHypothesis later with ⟨first, second, rfl, firstTiles, secondTiles⟩
          refine ⟨piece ++ first, second, (List.append_assoc _ _ _).symm, ?_, ?_⟩
          · exact .cons place token piece _ _ own inhabited located firstTiles
          · rwa [Position.advance_append]

/-- The texts of the tokens, joined, are the text. -/
theorem joined (tiles : Tiles place tokens text) :
    (tokens.flatMap fun token => token.textOrEmpty.toList) = text := by
  induction tiles with
  | nil => rfl
  | cons place token piece others rest own _ _ _ inductionHypothesis =>
      rw [List.flatMap_cons, inductionHypothesis, Token.textOrEmpty, own, Option.getD_some,
        String.toList_ofList]

/-- Each token has a piece of the text, which is not empty, and stands where this begins. -/
theorem of_mem (tiles : Tiles place tokens text) {token : Token} (member : token ∈ tokens) :
    Exists fun before => Exists fun piece => Exists fun after =>
      text = before ++ piece ++ after ∧ token.text = some (String.ofList piece) ∧ piece ≠ [] ∧
      token.position = place.advance before := by
  rcases List.append_of_mem member with ⟨tokensBefore, tokensAfter, rfl⟩
  rcases tiles.split with ⟨before, second, rfl, _, tilesAfter⟩
  cases tilesAfter with
  | cons _ _ piece _ rest own inhabited located later =>
      exact ⟨before, piece, rest, (List.append_assoc _ _ _).symm, own, inhabited, located⟩

end Tiles

end ShiftReduce
