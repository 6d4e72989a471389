import Mathlib.Data.List.Basic
import ShiftReduce.Pattern.Error

namespace ShiftReduce

/-!
# What a reader takes

A reader of a part of a pattern takes a piece from the front of a text and leaves the rest.  It may look
at what follows the piece, but not far: it gives the same in front of every text that begins in the same
way up to an opening parenthesis.  This is said of each reader here, for patterns in which white space
counts, together with what the piece is made of.  Apart from the character behind a backslash, which can
be any, no part that is not made of others holds a backslash, a bracket or an opening parenthesis.
-/

/-! ## Texts that begin in the same way -/

/-- The texts are the same, or they are up to an opening parenthesis. -/
inductive SameFront : List Char -> List Char -> Prop where
  | same (text : List Char) : SameFront text text
  | behind (left right : List Char) : SameFront ('(' :: left) ('(' :: right)
  | cons (c : Char) (left right : List Char) (later : SameFront left right) :
      SameFront (c :: left) (c :: right)

namespace SameFront

variable {left right : List Char}

theorem symm (front : SameFront left right) : SameFront right left := by
  induction front with
  | same text => exact .same text
  | behind left right => exact .behind right left
  | cons c left right _ inductionHypothesis => exact .cons c right left inductionHypothesis

theorem append (piece : List Char) (front : SameFront left right) :
    SameFront (piece ++ left) (piece ++ right) := by
  induction piece with
  | nil => exact front
  | cons c piece inductionHypothesis => exact .cons c _ _ inductionHypothesis

theorem head?_eq (front : SameFront left right) : left.head? = right.head? := by
  cases front with
  | same => rfl
  | behind => rfl
  | cons => rfl

theorem eq_nil (front : SameFront [] right) : right = [] := by
  cases front with
  | same => rfl

theorem exists_tail {c : Char} (front : SameFront (c :: left) right) :
    Exists fun tail => right = c :: tail ∧ (c ≠ '(' -> SameFront left tail) := by
  cases front with
  | same => exact ⟨left, rfl, fun _ => .same left⟩
  | behind _ tail => exact ⟨tail, rfl, fun different => (different rfl).elim⟩
  | cons _ _ tail later => exact ⟨tail, rfl, fun _ => later⟩

/-- In front of an opening parenthesis, what one text begins with the other one begins with too. -/
theorem exists_rest {piece rest : List Char} (front : SameFront (piece ++ rest) right)
    (closed : '(' ∉ piece) : Exists fun other => right = piece ++ other ∧ SameFront rest other := by
  induction piece generalizing right with
  | nil => exact ⟨right, rfl, front⟩
  | cons c piece inductionHypothesis =>
      rcases front.exists_tail with ⟨tail, rfl, later⟩
      have different : c ≠ '(' := fun same => closed (same ▸ List.mem_cons_self)
      rcases inductionHypothesis (later different) fun member =>
        closed (List.mem_cons_of_mem c member) with ⟨other, rfl, after⟩
      exact ⟨other, rfl, after⟩

end SameFront

/-! ## Pieces -/

/-- The reader takes a piece from a text and gives a value, and it does so in front of every text that
begins like the rest. -/
structure Takes {α : Type} (read : List Char -> Except PatternError (α × List Char))
    (text rest : List Char) (value : α) (taken : List Char) : Prop where
  divides : text = taken ++ rest
  anywhere : forall other, SameFront rest other -> read (taken ++ other) = .ok (value, other)

/-- The piece of a text in front of what is left of it. -/
def pieceOf (text rest : List Char) : List Char := text.take (text.length - rest.length)

theorem pieceOf_eq {text rest taken : List Char} (divides : text = taken ++ rest) :
    pieceOf text rest = taken := by
  rw [pieceOf, divides, List.length_append, Nat.add_sub_cancel, List.take_left]

/-- A reader that goes on with another one takes both pieces. -/
theorem Takes.bind {α β : Type} {read : List Char -> Except PatternError (α × List Char)}
    {next : α × List Char -> Except PatternError (β × List Char)} {text middle rest : List Char}
    {value : α} {result : β} {taken others : List Char}
    (first : Takes read text middle value taken)
    (second : Takes (fun text => next (value, text)) middle rest result others) :
    Takes (fun text => read text >>= next) text rest result (taken ++ others) := by
  refine ⟨by rw [first.divides, second.divides, List.append_assoc], fun other front => ?_⟩
  have begins : SameFront middle (others ++ other) := by
    rw [second.divides]
    exact front.append others
  rw [List.append_assoc, first.anywhere _ begins]
  exact second.anywhere other front

/-- The character opens and closes nothing, and does not keep another one from doing so. -/
def Quiet (c : Char) : Prop := c ∉ ['\\', '[', ']', '(']

instance : DecidablePred Quiet := fun c => inferInstanceAs (Decidable (c ∉ _))

/-- All characters of a text are quiet. -/
def QuietText (text : List Char) : Prop := forall c, c ∈ text -> Quiet c

instance : DecidablePred QuietText := fun text => List.decidableBAll Quiet text

namespace QuietText

theorem single {c : Char} (quiet : Quiet c) : QuietText [c] := List.forall_mem_singleton.mpr quiet

theorem cons {c : Char} {text : List Char} (later : QuietText text) (quiet : Quiet c) :
    QuietText (c :: text) :=
  List.forall_mem_cons.mpr ⟨quiet, later⟩

theorem append {left right : List Char} (quiet : QuietText left) (later : QuietText right) :
    QuietText (left ++ right) :=
  List.forall_mem_append.mpr ⟨quiet, later⟩

end QuietText

/-- A class of characters has no others if it does not have these four. -/
theorem quiet_of_class (members : Char -> Bool) (c : Char) (member : members c = true)
    (others : ['\\', '[', ']', '('].all (fun loud => !members loud) = true) : Quiet c := by
  intro loud
  have outside := List.all_eq_true.mp others c loud
  rw [member] at outside
  cases outside

/-- A reader takes a piece of quiet characters. -/
def TakesQuiet {α : Type} (read : List Char -> Except PatternError (α × List Char))
    (text rest : List Char) (value : α) : Prop :=
  Exists fun taken => Takes read text rest value taken ∧ QuietText taken


namespace TakesQuiet

/-- The reader looks at nothing. -/
theorem none {α : Type} {read : List Char -> Except PatternError (α × List Char)} {text : List Char}
    {value : α} (anywhere : forall other, SameFront text other -> read other = .ok (value, other)) :
    TakesQuiet read text text value :=
  ⟨[], ⟨rfl, anywhere⟩, fun _ impossible => (List.not_mem_nil impossible).elim⟩

theorem bind {α β : Type} {read : List Char -> Except PatternError (α × List Char)}
    {next : α × List Char -> Except PatternError (β × List Char)} {text middle rest : List Char}
    {value : α} {result : β} (first : TakesQuiet read text middle value)
    (second : TakesQuiet (fun text => next (value, text)) middle rest result) :
    TakesQuiet (fun text => read text >>= next) text rest result := by
  rcases first with ⟨taken, takes, quiet⟩
  rcases second with ⟨others, later, quietLater⟩
  exact ⟨taken ++ others, takes.bind later, quiet.append quietLater⟩

/-- Only texts that begin in the same way matter. -/
theorem congr {α : Type} {read other : List Char -> Except PatternError (α × List Char)}
    {text rest : List Char} {value : α} (taken : TakesQuiet other text rest value)
    (same : forall left, SameFront text left -> read left = other left) :
    TakesQuiet read text rest value := by
  rcases taken with ⟨taken, takes, quiet⟩
  refine ⟨taken, ⟨takes.divides, fun left front => ?_⟩, quiet⟩
  rw [same, takes.anywhere left front]
  rw [takes.divides]
  exact front.append taken

/-- A quiet character in front belongs to what is taken. -/
theorem cons {α : Type} {read : List Char -> Except PatternError (α × List Char)}
    {text rest : List Char} {value : α} (c : Char) (quiet : Quiet c)
    (later : TakesQuiet (fun text => read (c :: text)) text rest value) :
    TakesQuiet read (c :: text) rest value := by
  rcases later with ⟨taken, takes, quietLater⟩
  exact ⟨c :: taken, ⟨congrArg (c :: ·) takes.divides, takes.anywhere⟩, quietLater.cons quiet⟩

end TakesQuiet

end ShiftReduce
