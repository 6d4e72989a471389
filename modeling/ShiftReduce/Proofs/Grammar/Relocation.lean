import Mathlib.Logic.Equiv.Defs
import ShiftReduce.Proofs.Grammar.Admissible
import ShiftReduce.Proofs.Grammar.Renaming

namespace ShiftReduce

/-!
# Helpers whose productions have moved

The name of a helper holds the number of the production that its operator stands in.  If the
productions of rules are numbered differently, all names of helpers change with them, also those of
helpers inside of helpers, whose own productions keep their order.

A relocation changes a name exactly in this place.  It permutes all names, and no name is touched that
has not the form of a helper's.
-/

namespace Draft

/-- The name with another number in the place of its production.  The number is that of a rule of the
author's, whose name is in front of the first mark. -/
noncomputable def relocate (places : String -> Equiv.Perm Nat) (name : String) : String :=
  open Classical in
  if found : IsHelperName name then
    let place := found.choose
    if '#' ∈ place.1.toList then helperName (relocate places place.1) place.2.1 place.2.2
    else helperName place.1 (places place.1 place.2.1) place.2.2
  else name
termination_by name.length
decreasing_by
  have same := found.choose_spec
  exact lt_of_lt_of_eq (length_helperName place.1 place.2.1 place.2.2)
    (congrArg String.length same).symm

section Relocate

variable (places : String -> Equiv.Perm Nat)

theorem relocate_of_not {name : String} (other : ¬ IsHelperName name) :
    relocate places name = name := by
  rw [relocate, dif_neg other]

private theorem relocate_helperName (owner : String) (production index : Nat) :
    relocate places (helperName owner production index) =
      if '#' ∈ owner.toList then helperName (relocate places owner) production index
      else helperName owner (places owner production) index := by
  have found := isHelperName_helperName owner production index
  rw [relocate, dif_pos found]
  rcases helperName_injective found.choose_spec with ⟨sameOwner, sameProduction, sameIndex⟩
  dsimp only
  rw [← sameOwner, ← sameProduction, ← sameIndex]

/-- Inside of helpers productions keep their numbers. -/
theorem relocate_nested {owner : String} (marked : '#' ∈ owner.toList) (production index : Nat) :
    relocate places (helperName owner production index) =
      helperName (relocate places owner) production index := by
  rw [relocate_helperName, if_pos marked]

theorem relocate_placed {owner : String} (markless : '#' ∉ owner.toList) (production index : Nat) :
    relocate places (helperName owner production index) =
      helperName owner (places owner production) index := by
  rw [relocate_helperName, if_neg markless]

theorem mark_mem_relocate {name : String} (marked : '#' ∈ name.toList) :
    '#' ∈ (relocate places name).toList := by
  by_cases found : IsHelperName name
  · rcases found with ⟨⟨owner, production, index⟩, rfl⟩
    rw [relocate_helperName]
    split <;> exact mark_mem_helperName _ _ _
  · rwa [relocate_of_not places found]

/-- Moving productions back undoes a relocation. -/
theorem relocate_relocate (others : String -> Equiv.Perm Nat)
    (back : forall owner, others owner = (places owner).symm) (name : String) :
    relocate others (relocate places name) = name := by
  by_cases found : IsHelperName name
  · rcases found with ⟨⟨owner, production, index⟩, rfl⟩
    by_cases marked : '#' ∈ owner.toList
    · rw [relocate_nested places marked, relocate_nested others (mark_mem_relocate places marked),
        relocate_relocate others back owner]
    · rw [relocate_placed places marked, relocate_placed others marked, back,
        Equiv.symm_apply_apply]
  · rw [relocate_of_not places found, relocate_of_not others found]
termination_by name.length
decreasing_by
  have same : name = helperName owner production index := by assumption
  rw [same]
  exact length_helperName owner production index

end Relocate

/-- The permutation of names that belongs to permutations of the productions of rules. -/
noncomputable def relocation (places : String -> Equiv.Perm Nat) : Equiv.Perm String where
  toFun := relocate places
  invFun := relocate fun owner => (places owner).symm
  left_inv := relocate_relocate places _ fun _ => rfl
  right_inv := relocate_relocate _ places fun _ => rfl

end Draft

end ShiftReduce
