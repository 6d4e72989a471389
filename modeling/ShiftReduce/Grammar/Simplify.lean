import ShiftReduce.Grammar.Basic

/-!
The normal form of right-hand sides.

Two shapes carry no meaning of their own: a choice between one branch, which is the branch, and a
choice that is the only symbol of a branch of another choice, whose branches belong to the outer
one. Simplification works from the innermost symbols outwards and removes both in a single pass.
-/

namespace ShiftReduce
namespace Symbol

/-- Puts the branch of every choice between one branch in the place of the choice. -/
def inlineGroups (sequence : List Symbol) : List Symbol :=
  sequence.flatMap fun symbol =>
    match symbol with
    | .alternation [branch] => branch
    | other => [other]

/-- The branches of a branch that is nothing but a choice between several. -/
def soleChoice? : List Symbol -> Option (List (List Symbol))
  | [.alternation (first :: second :: rest)] => some (first :: second :: rest)
  | _ => none

/-- Removes both meaningless shapes from the branches of a choice. -/
def flattenChoices (branches : List (List Symbol)) : List (List Symbol) :=
  branches.flatMap fun branch =>
    let inlined := inlineGroups branch
    match soleChoice? inlined with
    | some inner => inner
    | none => [inlined]

mutual

/-- A symbol with everything inside it simplified. -/
def simplify : Symbol -> Symbol
  | .name word => .name word
  | .repeat0 body => .repeat0 (inlineGroups (simplifyEach body))
  | .repeat1 body => .repeat1 (inlineGroups (simplifyEach body))
  | .optional body => .optional (inlineGroups (simplifyEach body))
  | .alternation branches => .alternation (flattenChoices (simplifyBranches branches))
  | .bounded min max body => .bounded min max (inlineGroups (simplifyEach body))

/-- The symbols of a sequence, each simplified. -/
def simplifyEach : List Symbol -> List Symbol
  | [] => []
  | symbol :: rest => symbol.simplify :: simplifyEach rest

/-- The symbols of several sequences, each simplified. -/
def simplifyBranches : List (List Symbol) -> List (List Symbol)
  | [] => []
  | branch :: rest => simplifyEach branch :: simplifyBranches rest

end

/-- A sequence in normal form. -/
def simplifySequence (sequence : List Symbol) : List Symbol :=
  inlineGroups (simplifyEach sequence)

end Symbol

namespace Production

/-- A production with its right-hand side in normal form. -/
def simplify (production : Production) : Production :=
  { production with symbols := Symbol.simplifySequence production.symbols }

end Production

namespace Rule

/-- A rule with every right-hand side in normal form. -/
def simplify (rule : Rule) : Rule :=
  { rule with productions := rule.productions.map Production.simplify }

end Rule

namespace Grammar

/-- A grammar with every right-hand side in normal form. -/
def simplify (grammar : Grammar) : Grammar :=
  ⟨grammar.rules.map Rule.simplify, by
    rw [List.map_map]
    exact grammar.distinct⟩

end Grammar
end ShiftReduce
