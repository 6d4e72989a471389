import Mathlib.Data.List.Basic

namespace ShiftReduce

/-!
# Numbers in decimal digits

Numbers are written in the names of helpers, as the bounds of repetitions and in stored tables.  A
number is written as one or more digits, it is the value of its digits, and no digit is written in
front of those that it needs.
-/

namespace Decimal

theorem toList_toString (number : Nat) : (toString number).toList = Nat.toDigits 10 number := by
  rw [Nat.toString_eq_repr, Nat.toList_repr]

theorem isDigit_of_mem {number : Nat} {c : Char} (member : c ∈ (toString number).toList) :
    c.isDigit = true := by
  rw [toList_toString] at member
  exact Nat.isDigit_of_mem_toDigits (by decide) (by decide) member

theorem exists_digit (number : Nat) :
    Exists fun c => Exists fun others => (toString number).toList = c :: others ∧
      c.isDigit = true := by
  cases written : (toString number).toList with
  | nil =>
      rw [toList_toString] at written
      exact (Nat.toDigits_ne_nil written).elim
  | cons c others => exact ⟨c, others, rfl, isDigit_of_mem (written ▸ List.mem_cons_self)⟩

/-- Reading digits from the left gives the number that was written. -/
theorem value_toString (number : Nat) :
    (toString number).toList.foldl (fun value c => value * 10 + (c.toNat - '0'.toNat)) 0 =
      number := by
  have value := @Nat.ofDigitChars_ten_toDigits number
  rw [toList_toString]
  simpa only [Nat.ofDigitChars, Nat.mul_comm 10] using value

theorem toString_injective {left right : Nat}
    (same : (toString left).toList = (toString right).toList) : left = right := by
  rw [← value_toString left, same, value_toString]

/-- A number that is not zero is not written with a zero in front. -/
theorem head_ne_zero {number : Nat} (positive : number ≠ 0) {c : Char} {others : List Char}
    (written : (toString number).toList = c :: others) : c ≠ '0' := by
  have digits : forall digit, digit < 10 -> digit ≠ 0 -> Nat.digitChar digit ≠ '0' := by decide
  rw [toList_toString] at written
  induction number using Nat.strongRecOn generalizing c others with
  | ind number inductionHypothesis =>
      by_cases small : number < 10
      · rw [Nat.toDigits_of_lt_base small] at written
        rw [← (List.cons.inj written).1]
        exact digits number small positive
      · rw [Nat.toDigits_of_base_le (by decide) (Nat.le_of_not_lt small)] at written
        cases front : Nat.toDigits 10 (number / 10) with
        | nil => exact (Nat.toDigits_ne_nil front).elim
        | cons first rest =>
            rw [front, List.cons_append] at written
            rw [← (List.cons.inj written).1]
            exact inductionHypothesis (number / 10) (by omega) (by omega) front

end Decimal
end ShiftReduce
