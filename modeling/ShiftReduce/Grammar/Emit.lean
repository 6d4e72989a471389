import ShiftReduce.Text.Escaped

/-!
What happens when a production is reduced.

A grammar's author chooses between silence, a report to whoever runs the parser, and a callback of
the production's own. The three remaining forms belong to helper rules: they gather what a
repetition or a choice has matched, and hand it to the production that the operator was written in.
-/

namespace ShiftReduce

/-- The effect of a reduction. -/
inductive Emit where
  /-- Nothing is reported. -/
  | none
  /-- Reported to the parse. -/
  | report
  /-- Reported to the callback with this identity. -/
  | callback (identity : Nat)
  /-- Adds groups of `group` children to `collector`. More than `max` groups are an error, unless
  `max` is zero. -/
  | repetition (collector : String) (max group : Nat)
  /-- Offers the children of the chosen branch under `collector`. -/
  | choice (collector : String)
  /-- Puts what the helper rules among the children collected in their place, then does `inner`. -/
  | merge (inner : Emit)
deriving DecidableEq, Repr, Inhabited

namespace Emit

/-- The effect below any number of merges. -/
def innermost : Emit -> Emit
  | .merge inner => inner.innermost
  | emit => emit

/-- An effect on one line. The identity of a callback does not show. -/
def describe : Emit -> String
  | .none => "None"
  | .report => "Report"
  | .callback _ => "Callback(..)"
  | .repetition collector max group =>
    "Repetition \x7b collector: " ++ Text.quoted collector ++ ", max: " ++ toString max ++
      ", group: " ++ toString group ++ " \x7d"
  | .choice collector => "Choice \x7b collector: " ++ Text.quoted collector ++ " \x7d"
  | .merge inner => "Merge \x7b inner: " ++ inner.describe ++ " \x7d"

/-- The lines of a record with the given fields, each field a list of lines. -/
def recordLines (name : String) (fields : List (List String)) : List String :=
  let field (lines : List String) : List String :=
    match lines.reverse with
    | [] => []
    | last :: before => ((last ++ ",") :: before).reverse.map ("    " ++ ·)
  (name ++ " \x7b") :: fields.flatMap field ++ ["\x7d"]

/-- An effect with a line for each of its fields. -/
def outlineLines : Emit -> List String
  | .none => ["None"]
  | .report => ["Report"]
  | .callback _ => ["Callback(..)"]
  | .repetition collector max group =>
    recordLines "Repetition"
      [["collector: " ++ Text.quoted collector], ["max: " ++ toString max],
        ["group: " ++ toString group]]
  | .choice collector => recordLines "Choice" [["collector: " ++ Text.quoted collector]]
  | .merge inner =>
    match inner.outlineLines with
    | [] => recordLines "Merge" []
    | first :: rest => recordLines "Merge" [("inner: " ++ first) :: rest]

/-- An effect over several lines. -/
def outline (emit : Emit) : String :=
  "\n".intercalate emit.outlineLines

end Emit
end ShiftReduce
