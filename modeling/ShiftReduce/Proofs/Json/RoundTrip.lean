import Mathlib.Data.List.TakeWhile
import ShiftReduce.Proofs.Json.Scalars

namespace ShiftReduce
namespace Json

/-!
# Reading what has been printed

A value of texts, natural numbers and truth values comes back from its indented form.  Its parts are
read one after another, and what follows a part is a comma, a closing bracket or the beginning of a
line, so that numbers end where they should.

The reader's bound is met by the length of the text.  Each level of nesting takes two from the bound
and has two brackets, and each further element takes one and has a comma.
-/

/-! ## White space -/

private theorem skipBlanks_lineStart (depth : Nat) (text : List Char) :
    skipBlanks ((lineStart depth).toList ++ text) = skipBlanks text := by
  apply List.dropWhile_append_of_pos
  intro c member
  simp only [lineStart, String.toList_append, String.toList_ofList, List.mem_append] at member
  rcases member with newline | blank
  · rw [List.mem_singleton.mp newline]
    rfl
  · rw [List.eq_of_mem_replicate blank]
    rfl

private theorem skipBlanks_of_not_blank {c : Char} (visible : isBlank c = false)
    (rest : List Char) : skipBlanks (c :: rest) = c :: rest := by
  unfold skipBlanks
  rw [List.dropWhile_cons, visible]
  rfl

private theorem skipBlanks_skipBlanks (text : List Char) :
    skipBlanks (skipBlanks text) = skipBlanks text := by
  apply List.dropWhile_eq_self_iff.mpr
  intro inside
  exact List.dropWhile_get_zero_not isBlank text inside

private theorem follows_nil : Follows [] := by
  intro c first
  cases first

private theorem follows_lineStart (depth : Nat) (rest : List Char) :
    Follows ((lineStart depth).toList ++ rest) := by
  intro c first
  have newline : c = '\n' := by simpa [lineStart, eq_comm] using first
  exact Or.inl (newline ▸ rfl)

private theorem follows_comma (rest : List Char) : Follows (',' :: rest) := by
  intro c first
  exact Or.inr (Or.inl (Option.some.inj first).symm)

/-! ## Steps of the reader -/

private theorem readValue_skipBlanks (bound : Nat) (text : List Char) :
    readValue bound (skipBlanks text) = readValue bound text := by
  cases bound with
  | zero => rfl
  | succ bound => rw [readValue, readValue, skipBlanks_skipBlanks]

private theorem readElements_skipBlanks (bound : Nat) (text : List Char) :
    readElements bound (skipBlanks text) = readElements bound text := by
  cases bound with
  | zero => rfl
  | succ bound => rw [readElements, readElements, readValue_skipBlanks]

private theorem readEntries_skipBlanks (bound : Nat) (text : List Char) :
    readEntries bound (skipBlanks text) = readEntries bound text := by
  cases bound with
  | zero => rfl
  | succ bound => rw [readEntries, readEntries, skipBlanks_skipBlanks]

private theorem readValue_quote (bound : Nat) (rest : List Char) :
    readValue (bound + 1) ('"' :: rest) =
      (readString rest).map fun (text, rest) => (.string text, rest) := by
  rw [readValue]
  rfl

private theorem readValue_digit (bound : Nat) {c : Char} (digit : c.isDigit = true)
    (rest : List Char) :
    readValue (bound + 1) (c :: rest) =
      (readNumber (c :: rest)).map fun (written, rest) => (.number written, rest) := by
  have visible : isBlank c = false := by
    unfold isBlank
    simp only [Bool.or_eq_false_iff, decide_eq_false_iff_not]
    refine ⟨⟨⟨?_, ?_⟩, ?_⟩, ?_⟩ <;> rintro rfl <;> cases digit
  rw [readValue, skipBlanks_of_not_blank visible]
  split
  case h_8 same => rw [← (List.cons.inj same).1, ← (List.cons.inj same).2]
  -- What does not begin like a number begins with a character that is no digit.
  all_goals
    rename_i same
    cases same <;> cases digit

/-- No value begins with a closing bracket. -/
private theorem readElements_bracket (bound : Nat) (rest : List Char) :
    readElements bound (']' :: rest) = none := by
  cases bound with
  | zero => rfl
  | succ bound =>
      cases bound with
      | zero => rfl
      | succ bound =>
          rw [readElements, readValue]
          rfl

/-- No entry begins with a closing brace. -/
private theorem readEntries_brace (bound : Nat) (rest : List Char) :
    readEntries bound ('}' :: rest) = none := by
  cases bound with
  | zero => rfl
  | succ bound =>
      rw [readEntries]
      rfl

private theorem readValue_array {bound : Nat} {text rest : List Char} {elements : List Json}
    (read : readElements bound text = some (elements, rest)) :
    readValue (bound + 1) ('[' :: text) = some (.array elements, rest) := by
  rw [← readElements_skipBlanks] at read
  rw [readValue_bracket]
  split
  next tail closed =>
    rw [closed, readElements_bracket] at read
    cases read
  · rw [read]
    rfl

private theorem readValue_object {bound : Nat} {text rest : List Char}
    {entries : List (Option String × Json)} (read : readEntries bound text = some (entries, rest)) :
    readValue (bound + 1) ('{' :: text) = some (.object entries, rest) := by
  rw [← readEntries_skipBlanks] at read
  rw [readValue_brace]
  split
  next tail closed =>
    rw [closed, readEntries_brace] at read
    cases read
  · rw [read]
    rfl

/-- The last element stands before the closing bracket. -/
private theorem readElements_last {bound : Nat} {text rest tail : List Char} {element : Json}
    (read : readValue bound text = some (element, rest)) (closed : skipBlanks rest = ']' :: tail) :
    readElements (bound + 1) text = some ([element], tail) := by
  rw [readElements, read]
  dsimp only [Option.bind_eq_bind, Option.bind_some]
  rw [closed]
  rfl

private theorem readElements_cons {bound : Nat} {text rest tail : List Char} {element : Json}
    {elements : List Json} (read : readValue bound text = some (element, ',' :: rest))
    (others : readElements bound rest = some (elements, tail)) :
    readElements (bound + 1) text = some (element :: elements, tail) := by
  rw [readElements, read]
  dsimp only [Option.bind_eq_bind, Option.bind_some]
  rw [skipBlanks_of_not_blank rfl]
  change ((readElements bound rest).bind fun read => some (element :: read.1, read.2)) = _
  rw [others]
  rfl

/-- The last entry stands before the closing brace. -/
private theorem readEntries_last {bound : Nat} {text rest tail : List Char} (key : String)
    {value : Json} (read : readValue bound text = some (value, rest))
    (closed : skipBlanks rest = '}' :: tail) :
    readEntries (bound + 1) ((quote key).toList ++ ':' :: text) =
      some ([(some key, value)], tail) := by
  rcases readString_quote key with ⟨inside, written, readKey⟩
  rw [written, List.cons_append, readEntries_quote bound (readKey _), read, Option.bind_some, closed]
  rfl

private theorem readEntries_cons {bound : Nat} {text rest tail : List Char} (key : String)
    {value : Json} {entries : List (Option String × Json)}
    (read : readValue bound text = some (value, ',' :: rest))
    (others : readEntries bound rest = some (entries, tail)) :
    readEntries (bound + 1) ((quote key).toList ++ ':' :: text) =
      some ((some key, value) :: entries, tail) := by
  rcases readString_quote key with ⟨inside, written, readKey⟩
  rw [written, List.cons_append, readEntries_quote bound (readKey _), read, Option.bind_some,
    skipBlanks_of_not_blank rfl]
  change ((readEntries bound rest).bind fun read => some ((some key, value) :: read.1, read.2)) = _
  rw [others]
  rfl

/-! ## Values -/

/-- A value of texts and natural numbers, in which all keys are texts. -/
inductive Plain : Json -> Prop where
  | null : Plain .null
  | bool (value : Bool) : Plain (.bool value)
  | nat (value : Nat) : Plain (.nat value)
  | text (text : String) : Plain (.text text)
  | array (elements : List Json) (plain : forall element, element ∈ elements -> Plain element) :
      Plain (.array elements)
  | record (entries : List (String × Json))
      (plain : forall entry, entry ∈ entries -> Plain entry.2) : Plain (.record entries)

/-- The value is read from its indented form, whatever follows it. -/
def Returns (json : Json) : Prop :=
  forall (depth bound : Nat) (rest : List Char), Follows rest ->
    (json.indented depth).toList.length < bound ->
    readValue bound ((json.indented depth).toList ++ rest) = some (json, rest)

private theorem returns_null : Returns .null := by
  intro depth bound rest _ enough
  have shown : Json.null.indented depth = "null" := rfl
  have letters : "null".toList = ['n', 'u', 'l', 'l'] := rfl
  cases bound with
  | zero => cases enough
  | succ bound =>
      rw [shown, letters, readValue]
      rfl

private theorem returns_bool (value : Bool) : Returns (.bool value) := by
  intro depth bound rest _ enough
  cases bound with
  | zero => cases enough
  | succ bound =>
      cases value with
      | true =>
          have shown : (Json.bool true).indented depth = "true" := rfl
          have letters : "true".toList = ['t', 'r', 'u', 'e'] := rfl
          rw [shown, letters, readValue]
          rfl
      | false =>
          have shown : (Json.bool false).indented depth = "false" := rfl
          have letters : "false".toList = ['f', 'a', 'l', 's', 'e'] := rfl
          rw [shown, letters, readValue]
          rfl

private theorem returns_text (text : String) : Returns (.text text) := by
  intro depth bound rest _ enough
  rcases readString_quote text with ⟨inside, written, read⟩
  have shown : (Json.text text).indented depth = quote text := rfl
  cases bound with
  | zero => cases enough
  | succ bound =>
      rw [shown, written, List.cons_append, readValue_quote, read]
      rfl

private theorem returns_nat (value : Nat) : Returns (.nat value) := by
  intro depth bound rest follows enough
  have shown : (Json.nat value).indented depth = displayNumber { whole := value } := rfl
  have digits : displayNumber { whole := value } = toString value := by simp [displayNumber]
  have read := readNumber_toString value follows
  rw [shown, digits] at enough ⊢
  cases bound with
  | zero => cases enough
  | succ bound =>
      rcases Decimal.exists_digit value with ⟨c, others, written, digit⟩
      rw [written, List.cons_append] at read ⊢
      rw [readValue_digit bound digit, read]
      rfl

/-- Parts of an array or an object, each but the first on a line of its own. -/
private def lines (depth : Nat) (parts : List String) : List Char :=
  (("," ++ lineStart depth).intercalate parts).toList

private theorem lines_singleton (depth : Nat) (part : String) : lines depth [part] = part.toList := by
  simp [lines]

private theorem lines_cons (depth : Nat) (part next : String) (parts : List String) :
    lines depth (part :: next :: parts) =
      part.toList ++ ',' :: ((lineStart depth).toList ++ lines depth (next :: parts)) := by
  simp [lines, String.intercalate_cons_cons]

private theorem toList_block_nil (left right : String) (depth : Nat) :
    (block left right depth []).toList = left.toList ++ right.toList := by
  simp [block]

private theorem toList_block {opening closing : String} {left right : Char}
    (opens : opening.toList = [left]) (closes : closing.toList = [right]) (depth : Nat)
    {parts : List String} (inhabited : parts ≠ []) :
    (block opening closing depth parts).toList =
      left :: ((lineStart (depth + 1)).toList ++ (lines (depth + 1) parts ++
        ((lineStart depth).toList ++ [right]))) := by
  simp [block, lines, inhabited, opens, closes]

private theorem length_lineStart (depth : Nat) : 0 < (lineStart depth).toList.length := by
  simp [lineStart]

private theorem skipBlanks_closing {c : Char} (visible : isBlank c = false) (depth : Nat)
    (rest : List Char) : skipBlanks ((lineStart depth).toList ++ c :: rest) = c :: rest := by
  rw [skipBlanks_lineStart, skipBlanks_of_not_blank visible]

private theorem readElements_lines (inner outer : Nat) (rest : List Char) {head : Json}
    {elements : List Json} (returns : forall element, element ∈ head :: elements -> Returns element)
    {bound : Nat} (enough : (lines inner (indentedElements inner (head :: elements))).length + 1 <
      bound) :
    readElements bound (lines inner (indentedElements inner (head :: elements)) ++
      ((lineStart outer).toList ++ ']' :: rest)) = some (head :: elements, rest) := by
  induction elements generalizing head bound with
  | nil =>
      cases bound with
      | zero => cases enough
      | succ bound =>
          have first := returns head List.mem_cons_self
          rw [indentedElements, indentedElements, lines_singleton] at enough ⊢
          exact readElements_last (first inner bound _ (follows_lineStart outer _) (by omega))
            (skipBlanks_closing rfl outer rest)
  | cons next others inductionHypothesis =>
      cases bound with
      | zero => cases enough
      | succ bound =>
          have first := returns head List.mem_cons_self
          have later := fun element member => returns element (List.mem_cons_of_mem _ member)
          have regroup : indentedElements inner (head :: next :: others) =
              head.indented inner :: next.indented inner :: indentedElements inner others := by
            rw [indentedElements, indentedElements]
          have tail : next.indented inner :: indentedElements inner others =
              indentedElements inner (next :: others) := by rw [indentedElements]
          rw [regroup, lines_cons, tail] at enough ⊢
          rw [List.length_append, List.length_cons, List.length_append] at enough
          rw [List.append_assoc, List.cons_append, List.append_assoc]
          apply readElements_cons (first inner bound _ (follows_comma _) (by omega))
          rw [← readElements_skipBlanks, skipBlanks_lineStart, readElements_skipBlanks]
          exact inductionHypothesis later (by omega)

/-- The entries of a record, with keys that may or may not be texts. -/
private def keyed (entries : List (String × Json)) : List (Option String × Json) :=
  entries.map fun entry => (some entry.1, entry.2)

private theorem readValue_blank (bound : Nat) (text : List Char) :
    readValue bound (' ' :: text) = readValue bound text := by
  rw [← readValue_skipBlanks, ← readValue_skipBlanks bound text]
  rfl

private theorem readEntries_lines (inner outer : Nat) (rest : List Char) {head : String × Json}
    {entries : List (String × Json)}
    (returns : forall entry, entry ∈ head :: entries -> Returns entry.2) {bound : Nat}
    (enough : (lines inner (indentedEntries inner (keyed (head :: entries)))).length + 1 < bound) :
    readEntries bound (lines inner (indentedEntries inner (keyed (head :: entries))) ++
      ((lineStart outer).toList ++ '}' :: rest)) = some (keyed (head :: entries), rest) := by
  have part : forall entry : String × Json,
      (quote entry.1 ++ ": " ++ entry.2.indented inner).toList =
        (quote entry.1).toList ++ ':' :: ' ' :: (entry.2.indented inner).toList := by
    intro entry
    simp
  induction entries generalizing head bound with
  | nil =>
      cases bound with
      | zero => cases enough
      | succ bound =>
          have first := returns head List.mem_cons_self
          have alone : indentedEntries inner (keyed [head]) =
              [quote head.1 ++ ": " ++ head.2.indented inner] := rfl
          rw [alone, lines_singleton, part] at enough ⊢
          rw [List.length_append, List.length_cons, List.length_cons] at enough
          rw [List.append_assoc, List.cons_append, List.cons_append]
          refine readEntries_last head.1 ?_ (skipBlanks_closing rfl outer rest)
          rw [readValue_blank]
          exact first inner bound _ (follows_lineStart outer _) (by omega)
  | cons next others inductionHypothesis =>
      cases bound with
      | zero => cases enough
      | succ bound =>
          have first := returns head List.mem_cons_self
          have later := fun entry member => returns entry (List.mem_cons_of_mem _ member)
          have regroup : indentedEntries inner (keyed (head :: next :: others)) =
              (quote head.1 ++ ": " ++ head.2.indented inner) ::
                (quote next.1 ++ ": " ++ next.2.indented inner) ::
                  indentedEntries inner (keyed others) := rfl
          have tail : (quote next.1 ++ ": " ++ next.2.indented inner) ::
              indentedEntries inner (keyed others) =
                indentedEntries inner (keyed (next :: others)) := rfl
          rw [regroup, lines_cons, tail, part] at enough ⊢
          simp only [List.length_append, List.length_cons] at enough
          simp only [List.append_assoc, List.cons_append]
          have behind : readEntries bound ((lineStart inner).toList ++ (lines inner
              (indentedEntries inner (keyed (next :: others))) ++
                ((lineStart outer).toList ++ '}' :: rest))) =
              some (keyed (next :: others), rest) := by
            rw [← readEntries_skipBlanks, skipBlanks_lineStart, readEntries_skipBlanks]
            exact inductionHypothesis later (by omega)
          refine readEntries_cons head.1 ?_ behind
          rw [readValue_blank]
          exact first inner bound _ (follows_comma _) (by omega)

private theorem returns_array {elements : List Json}
    (returns : forall element, element ∈ elements -> Returns element) :
    Returns (.array elements) := by
  intro depth bound rest _ enough
  have shown : (Json.array elements).indented depth =
      block "[" "]" depth (indentedElements (depth + 1) elements) := rfl
  rw [shown] at enough ⊢
  cases bound with
  | zero => cases enough
  | succ bound =>
      cases elements with
      | nil =>
          rw [indentedElements, toList_block_nil, readValue]
          rfl
      | cons head others =>
          have inhabited : indentedElements (depth + 1) (head :: others) ≠ [] := by
            simp [indentedElements]
          have letters := @toList_block "[" "]" '[' ']' rfl rfl depth _ inhabited
          rw [letters] at enough ⊢
          have blank := length_lineStart (depth + 1)
          simp only [List.length_cons, List.length_append] at enough
          simp only [List.cons_append, List.append_assoc]
          apply readValue_array
          rw [← readElements_skipBlanks, skipBlanks_lineStart, readElements_skipBlanks]
          exact readElements_lines (depth + 1) depth rest returns (by omega)

private theorem returns_record {entries : List (String × Json)}
    (returns : forall entry, entry ∈ entries -> Returns entry.2) : Returns (.record entries) := by
  intro depth bound rest _ enough
  have shown : (Json.record entries).indented depth =
      block "\x7b" "\x7d" depth (indentedEntries (depth + 1) (keyed entries)) := rfl
  rw [shown] at enough ⊢
  cases bound with
  | zero => cases enough
  | succ bound =>
      cases entries with
      | nil =>
          rw [keyed, List.map_nil, indentedEntries, toList_block_nil, readValue]
          rfl
      | cons head others =>
          have inhabited : indentedEntries (depth + 1) (keyed (head :: others)) ≠ [] := by
            simp [indentedEntries, keyed]
          have letters := @toList_block "\x7b" "\x7d" '{' '}' rfl rfl depth _ inhabited
          rw [letters] at enough ⊢
          have blank := length_lineStart (depth + 1)
          simp only [List.length_cons, List.length_append] at enough
          simp only [List.cons_append, List.append_assoc]
          apply readValue_object
          rw [← readEntries_skipBlanks, skipBlanks_lineStart, readEntries_skipBlanks]
          exact readEntries_lines (depth + 1) depth rest returns (by omega)

/-- A plain value is read from its indented form. -/
theorem Plain.returns {json : Json} (plain : Plain json) : Returns json := by
  induction plain with
  | null => exact returns_null
  | bool value => exact returns_bool value
  | nat value => exact returns_nat value
  | text text => exact returns_text text
  | array elements _ inductionHypothesis => exact returns_array inductionHypothesis
  | record entries _ inductionHypothesis => exact returns_record inductionHypothesis

/-- A plain value is what its indented form writes. -/
theorem ofText?_indented {json : Json} (plain : Plain json) :
    ofText? (json.indented 0) = some json := by
  have read := plain.returns 0 _ [] follows_nil (Nat.lt_succ_self _)
  rw [List.append_nil] at read
  rw [ofText?, read]
  rfl

end Json
end ShiftReduce
