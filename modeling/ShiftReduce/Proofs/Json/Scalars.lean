import ShiftReduce.Json.Printer
import ShiftReduce.Json.Reader
import ShiftReduce.Proofs.Text.Decimal

namespace ShiftReduce
namespace Json

/-!
# Strings and numbers in JSON texts

A string is read back character by character: what was escaped is unescaped, and no character is half
of a surrogate pair.  A number is read back if what follows it cannot belong to it, which is so for
white space, commas and closing brackets.
-/

/-! ## Strings -/

/-- A unit in front of the others. -/
private def consUnit (c : Char) (read : Option (List Nat × List Char)) :
    Option (List Nat × List Char) :=
  read.map fun (units, rest) => (c.toNat :: units, rest)

private theorem stringUnits_letter {letter c : Char} (found : simpleEscape? letter = some c)
    (rest : List Char) :
    stringUnits ('\\' :: letter :: rest) = consUnit c (stringUnits rest) := by
  have different : letter ≠ 'u' := by
    rintro rfl
    cases found
  rw [stringUnits, found]
  · cases stringUnits rest <;> rfl
  · rintro a b c d rest rfl
    exact (different rfl).elim

private theorem stringUnits_plain {c : Char} (quote : c ≠ '"') (backslash : c ≠ '\\')
    (visible : ¬ c.toNat < 0x20) (rest : List Char) :
    stringUnits (c :: rest) = consUnit c (stringUnits rest) := by
  rw [stringUnits, if_neg visible]
  · cases stringUnits rest <;> rfl
  · exact quote
  · rintro a b c d rest rfl
    exact (backslash rfl).elim
  · rintro a rest rfl
    exact (backslash rfl).elim

private theorem digits_of_control : forall number, number < 0x20 ->
    List.replicate (4 - (Nat.toDigits 16 number).length) '0' ++ Nat.toDigits 16 number =
        ['0', '0', Nat.digitChar (number / 16), Nat.digitChar (number % 16)] ∧
      hexUnit? '0' '0' (Nat.digitChar (number / 16)) (Nat.digitChar (number % 16)) =
        some number := by
  decide

/-- A character is written as a letter behind a backslash, by its number, or as it is. -/
private theorem toList_escapeChar (c : Char) :
    (Exists fun letter => (escapeChar c).toList = ['\\', letter] ∧ simpleEscape? letter = some c) ∨
      c.toNat < 0x20 ∧ (escapeChar c).toList =
        ['\\', 'u', '0', '0', Nat.digitChar (c.toNat / 16), Nat.digitChar (c.toNat % 16)] ∨
      c ≠ '"' ∧ c ≠ '\\' ∧ ¬ c.toNat < 0x20 ∧ (escapeChar c).toList = [c] := by
  by_cases special : c ∈ ['"', '\\', '\x08', '\x0C', '\n', '\r', '\t']
  · refine Or.inl ?_
    simp only [List.mem_cons, List.not_mem_nil, or_false] at special
    rcases special with rfl | rfl | rfl | rfl | rfl | rfl | rfl <;> exact ⟨_, rfl, rfl⟩
  · simp only [List.mem_cons, List.not_mem_nil, or_false, not_or] at special
    refine Or.inr ?_
    unfold escapeChar
    simp only [special, if_false]
    by_cases control : c.toNat < 0x20
    · refine Or.inl ⟨control, ?_⟩
      rw [if_pos control, ← (digits_of_control c.toNat control).1]
      simp [padded, Text.hexadecimal]
    · rw [if_neg control]
      exact Or.inr ⟨special.1, special.2.1, control, by simp⟩

private theorem stringUnits_escapeChar (c : Char) (rest : List Char) :
    stringUnits ((escapeChar c).toList ++ rest) = consUnit c (stringUnits rest) := by
  rcases toList_escapeChar c with ⟨letter, written, found⟩ | ⟨control, written⟩ |
    ⟨quote, backslash, visible, written⟩
  · rw [written]
    exact stringUnits_letter found rest
  · have unit := (digits_of_control c.toNat control).2
    rw [written]
    simp only [List.cons_append, List.nil_append]
    rw [stringUnits, unit]
    cases stringUnits rest <;> rfl
  · rw [written]
    exact stringUnits_plain quote backslash visible rest

private theorem stringUnits_escaped (text rest : List Char) :
    stringUnits (text.flatMap (fun c => (escapeChar c).toList) ++ '"' :: rest) =
      some (text.map Char.toNat, rest) := by
  induction text with
  | nil => rw [List.flatMap_nil, List.nil_append, stringUnits, List.map_nil]
  | cons c text inductionHypothesis =>
      rw [List.flatMap_cons, List.append_assoc, stringUnits_escapeChar, inductionHypothesis]
      rfl

/-- A character is no half of a surrogate pair. -/
private theorem whole (c : Char) : isLead c.toNat = false ∧ isTrail c.toNat = false := by
  have valid : c.toNat < 0xD800 ∨ 0xDFFF < c.toNat ∧ c.toNat < 0x110000 := c.valid
  unfold isLead isTrail
  constructor
  · rw [Bool.and_eq_false_iff, decide_eq_false_iff_not, decide_eq_false_iff_not]
    omega
  · rw [Bool.and_eq_false_iff, decide_eq_false_iff_not, decide_eq_false_iff_not]
    omega

private theorem charsOfUnits_map (text : List Char) :
    charsOfUnits (text.map Char.toNat) = some text := by
  induction text with
  | nil => rfl
  | cons c text inductionHypothesis =>
      have ⟨noLead, noTrail⟩ := whole c
      cases text with
      | nil => simp [charsOfUnits, noLead, noTrail, Char.ofNat_toNat]
      | cons next text =>
          rw [List.map_cons, List.map_cons, charsOfUnits, ← List.map_cons, inductionHypothesis]
          simp [noLead, noTrail, Char.ofNat_toNat]

/-- The characters of a string behind its opening quote, up to the closing quote. -/
private theorem toList_quote (text : String) :
    (quote text).toList = '"' :: (text.toList.flatMap (fun c => (escapeChar c).toList) ++ ['"']) := by
  simp [quote, String.toList_join, List.flatMap_map]

theorem readString_quote (text : String) : Exists fun inside => (quote text).toList = '"' :: inside ∧
    forall rest, readString (inside ++ rest) = some (some text, rest) := by
  refine ⟨_, toList_quote text, ?_⟩
  intro rest
  rw [List.append_assoc, List.singleton_append, readString, stringUnits_escaped]
  simp [charsOfUnits_map]

/-! ## Numbers -/

/-- What follows a value begins with white space, a comma or a closing bracket, if there is
anything. -/
def Follows (rest : List Char) : Prop :=
  forall c, c ∈ rest.head? -> isBlank c = true ∨ c = ',' ∨ c = ']' ∨ c = '}'

private theorem not_digit_of_follows {rest : List Char} (follows : Follows rest) {c : Char}
    (first : c ∈ rest.head?) : c.isDigit = false ∧ c ≠ '.' ∧ c ≠ 'e' ∧ c ≠ 'E' := by
  rcases follows c first with blank | rfl | rfl | rfl
  · unfold isBlank at blank
    simp only [Bool.or_eq_true, decide_eq_true_eq] at blank
    rcases blank with ((rfl | rfl) | rfl) | rfl <;> decide
  · decide
  · decide
  · decide

private theorem takeWhile_digits (number : Nat) {rest : List Char} (follows : Follows rest) :
    ((toString number).toList ++ rest).takeWhile Char.isDigit = (toString number).toList ∧
      ((toString number).toList ++ rest).dropWhile Char.isDigit = rest := by
  have digits : forall c, c ∈ (toString number).toList -> c.isDigit = true :=
    fun c => Decimal.isDigit_of_mem
  rw [List.takeWhile_append_of_pos digits, List.dropWhile_append_of_pos digits]
  cases rest with
  | nil => exact ⟨List.append_nil _, rfl⟩
  | cons c rest =>
      have notDigit := (not_digit_of_follows follows rfl).1
      simp [notDigit]

private theorem readWhole_toString (number : Nat) {rest : List Char} (follows : Follows rest) :
    readWhole ((toString number).toList ++ rest) = some (number, rest) := by
  by_cases zero : number = 0
  · subst zero
    have written : (toString (0 : Nat)).toList = ['0'] := rfl
    rw [written, List.singleton_append]
    unfold readWhole
    cases rest with
    | nil => rfl
    | cons next rest =>
        have notDigit := (not_digit_of_follows follows rfl).1
        simp [notDigit]
  · rcases Decimal.exists_digit number with ⟨c, others, written, digit⟩
    have ⟨taken, dropped⟩ := takeWhile_digits number follows
    have value : natOfDigits (c :: others) = number := written ▸ Decimal.value_toString number
    rw [written, List.cons_append] at taken dropped
    unfold readWhole
    rw [written, List.cons_append]
    dsimp only
    rw [if_neg (Decimal.head_ne_zero zero written), if_pos digit, taken, dropped, value]

theorem readNumber_toString (number : Nat) {rest : List Char} (follows : Follows rest) :
    readNumber ((toString number).toList ++ rest) = some ({ whole := number }, rest) := by
  have whole := readWhole_toString number follows
  have noPoint : readFraction rest = some (none, rest) := by
    unfold readFraction
    split
    next tail => exact ((not_digit_of_follows follows rfl).2.1 rfl).elim
    · rfl
  have noExponent : readExponent rest = some (none, rest) := by
    cases rest with
    | nil => rfl
    | cons c rest =>
        have different := (not_digit_of_follows follows rfl).2.2
        unfold readExponent
        exact if_neg (not_or.mpr different)
  rcases Decimal.exists_digit number with ⟨c, others, written, digit⟩
  have noSign : c ≠ '-' := by
    rintro rfl
    cases digit
  rw [written, List.cons_append] at whole ⊢
  unfold readNumber
  dsimp only
  split
  next sign => exact (noSign (List.cons.inj sign).1).elim
  · simp [whole, noPoint, noExponent]

end Json
end ShiftReduce
