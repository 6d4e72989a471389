/-!
Byte offsets into a text.

Offsets count the bytes of the UTF-8 form while texts are read character by character. An offset
inside a character, or past the end, addresses nothing, so the functions that cut a text at an
offset answer `none` there instead of moving the offset.
-/

namespace ShiftReduce
namespace Text

/-- The number of bytes a text takes. -/
def byteSize : List Char -> Nat
  | [] => 0
  | c :: text => c.utf8Size + byteSize text

/-- The text before and from the offset, unless the offset is not a boundary of `text`. -/
def splitAtByte? : List Char -> Nat -> Option (List Char × List Char)
  | [], offset => if offset = 0 then some ([], []) else none
  | c :: text, offset =>
    if offset = 0 then some ([], c :: text)
    else if c.utf8Size ≤ offset then
      (splitAtByte? text (offset - c.utf8Size)).map fun (before, rest) => (c :: before, rest)
    else none

/-- The text from the offset on, unless the offset is not a boundary of `text`. -/
def dropBytes? : List Char -> Nat -> Option (List Char)
  | [], offset => if offset = 0 then some [] else none
  | c :: text, offset =>
    if offset = 0 then some (c :: text)
    else if c.utf8Size ≤ offset then dropBytes? text (offset - c.utf8Size)
    else none

/-- Dropping bytes leaves what splitting at the offset leaves. -/
theorem dropBytes?_eq_map_splitAtByte? (text : List Char) (offset : Nat) :
    dropBytes? text offset = (splitAtByte? text offset).map (·.2) := by
  induction text generalizing offset with
  | nil =>
    unfold dropBytes? splitAtByte?
    split <;> rfl
  | cons c text inner =>
    unfold dropBytes? splitAtByte?
    split
    · rfl
    · split
      · rw [inner, Option.map_map]
        rfl
      · rfl

/-- The first `size` bytes, unless they end inside a character or are not there. -/
def takeBytes? (text : List Char) (size : Nat) : Option (List Char) :=
  (splitAtByte? text size).map (·.1)

/-- The whole characters among the first `size` bytes. -/
def takeWithin : List Char -> Nat -> List Char
  | [], _ => []
  | c :: text, size =>
    if c.utf8Size ≤ size then c :: takeWithin text (size - c.utf8Size) else []

end Text
end ShiftReduce
