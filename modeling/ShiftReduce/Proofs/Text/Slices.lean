import ShiftReduce.Text.Bytes

namespace ShiftReduce
namespace Text

/-!
# Slices of a text

An offset that addresses a place in a text divides it into the part before and the part from there on.
What is cut from a text at an offset is said by this division, and sizes in bytes add up.
-/

variable {text before rest : List Char} {offset : Nat}

theorem byteSize_append (first second : List Char) :
    byteSize (first ++ second) = byteSize first + byteSize second := by
  induction first with
  | nil => exact (Nat.zero_add _).symm
  | cons c rest inductionHypothesis =>
      rw [List.cons_append, byteSize, byteSize, inductionHypothesis, Nat.add_assoc]

/-- Every character takes up room. -/
theorem byteSize_eq_zero_iff : byteSize text = 0 ↔ text = [] := by
  constructor
  · intro empty
    cases text with
    | nil => rfl
    | cons c rest =>
        have positive := c.utf8Size_pos
        rw [byteSize] at empty
        omega
  · rintro rfl
    rfl

/-- The size of a text is that of the string. -/
theorem byteSize_toList (text : String) : byteSize text.toList = text.utf8ByteSize := by
  have size : forall chars : List Char, byteSize chars = (String.ofList chars).utf8ByteSize := by
    intro chars
    induction chars with
    | nil => rfl
    | cons c rest inductionHypothesis =>
        rw [String.ofList_cons, String.utf8ByteSize_append, String.utf8ByteSize_singleton, byteSize,
          inductionHypothesis]
  rw [size, String.ofList_toList]

/-- A text is divided at an offset if the part before has this size. -/
theorem splitAtByte?_eq_some_iff :
    splitAtByte? text offset = some (before, rest) ↔
      text = before ++ rest ∧ byteSize before = offset := by
  induction text generalizing before offset with
  | nil =>
      rw [splitAtByte?]
      constructor
      · intro divided
        split at divided
        next atStart =>
          cases divided
          exact ⟨rfl, atStart.symm⟩
        · cases divided
      · rintro ⟨whole, size⟩
        rcases List.append_eq_nil_iff.mp whole.symm with ⟨rfl, rfl⟩
        exact if_pos size.symm
  | cons c text inductionHypothesis =>
      have positive := c.utf8Size_pos
      rw [splitAtByte?]
      constructor
      · intro divided
        split at divided
        next atStart =>
          cases divided
          exact ⟨rfl, atStart.symm⟩
        · split at divided
          next fits =>
            rcases Option.map_eq_some_iff.mp divided with ⟨⟨inner, others⟩, found, same⟩
            cases same
            rcases inductionHypothesis.mp found with ⟨rfl, size⟩
            refine ⟨rfl, ?_⟩
            rw [byteSize, size]
            omega
          · cases divided
      · rintro ⟨whole, size⟩
        cases before with
        | nil =>
            rw [List.nil_append] at whole
            have atStart : offset = 0 := size.symm
            rw [if_pos atStart, whole]
        | cons first inner =>
            rw [List.cons_append] at whole
            injection whole with same others
            subst same
            rw [byteSize] at size
            have found := inductionHypothesis.mpr ⟨others, rfl⟩
            rw [if_neg (by omega), if_pos (by omega), ← size, Nat.add_sub_cancel_left, found]
            rfl

theorem dropBytes?_eq_some_iff :
    dropBytes? text offset = some rest ↔
      Exists fun before => text = before ++ rest ∧ byteSize before = offset := by
  rw [dropBytes?_eq_map_splitAtByte?, Option.map_eq_some_iff]
  constructor
  · rintro ⟨⟨before, after⟩, divided, rfl⟩
    exact ⟨before, splitAtByte?_eq_some_iff.mp divided⟩
  · rintro ⟨before, parts⟩
    exact ⟨(before, rest), splitAtByte?_eq_some_iff.mpr parts, rfl⟩

theorem takeBytes?_eq_some_iff :
    takeBytes? text offset = some before ↔
      Exists fun rest => text = before ++ rest ∧ byteSize before = offset := by
  rw [takeBytes?, Option.map_eq_some_iff]
  constructor
  · rintro ⟨⟨front, rest⟩, divided, rfl⟩
    exact ⟨rest, splitAtByte?_eq_some_iff.mp divided⟩
  · rintro ⟨rest, parts⟩
    exact ⟨(before, rest), splitAtByte?_eq_some_iff.mpr parts, rfl⟩

/-- Where a slice of this size ends at a character, it is what is taken within the size. -/
theorem takeWithin_byteSize (before rest : List Char) :
    takeWithin (before ++ rest) (byteSize before) = before := by
  induction before with
  | nil =>
      cases rest with
      | nil => rfl
      | cons c rest =>
          have positive := c.utf8Size_pos
          rw [List.nil_append, byteSize, takeWithin, if_neg (by omega)]
  | cons c before inductionHypothesis =>
      rw [List.cons_append, byteSize, takeWithin, if_pos (by omega), Nat.add_sub_cancel_left,
        inductionHypothesis]

/-- What is taken within a size is the beginning of the text. -/
theorem takeWithin_append (text : List Char) (size : Nat) :
    Exists fun rest => text = takeWithin text size ++ rest := by
  induction text generalizing size with
  | nil => exact ⟨[], rfl⟩
  | cons c text inductionHypothesis =>
      rw [takeWithin]
      split
      · rcases inductionHypothesis (size - c.utf8Size) with ⟨rest, split⟩
        exact ⟨rest, congrArg (List.cons c) split⟩
      · exact ⟨c :: text, rfl⟩

/-- The text between two offsets, which are places in it and in order. -/
def slice? (text : List Char) (first last : Nat) : Option (List Char) :=
  if first ≤ last then (dropBytes? text first).bind fun rest => takeBytes? rest (last - first)
  else none

/-- A piece of a text is the slice from where it begins to where it ends. -/
theorem slice?_piece (before piece rest : List Char) :
    slice? (before ++ piece ++ rest) (byteSize before) (byteSize before + byteSize piece) =
      some piece := by
  rw [slice?, if_pos (Nat.le_add_right _ _), Nat.add_sub_cancel_left,
    dropBytes?_eq_some_iff.mpr ⟨before, List.append_assoc before piece rest, rfl⟩, Option.bind_some]
  exact takeBytes?_eq_some_iff.mpr ⟨rest, rfl, rfl⟩

end Text
end ShiftReduce
