import ShiftReduce.Proofs.Pattern.Sets

namespace ShiftReduce

/-!
# Where sets of characters end

A set is read step by step: a step opens a set, closes one, takes an operator or takes a member.  Each
step takes a piece of the text, and the pieces together are the set.

In two kinds of pieces a bracket is a character although it is not behind a backslash.  A set inside
another one may begin with a closing bracket, and a range may end with an opening one.  There is no third:
if no step takes such a piece, the brackets lead from each step to the next with the number of sets that
are open.
-/

/-- Where a step inside of sets leads to. -/
inductive SetStage where
  | inside (stack : List SetFrame) (listed : List SetMember)
  | closed (member : SetMember)

namespace PatternLexeme

/-- One step inside of sets. -/
def setStep (flags : PatternFlags) (stack : List SetFrame) (listed : List SetMember)
    (text : List Char) : Except PatternError (SetStage × List Char) :=
  match skipBlanks flags.verbose text with
  | [] => .error .unclosedSet
  | '[' :: rest =>
    match posixSet? rest with
    | some (negated, ranges, rest) => do
      let members ← foldAndNegate flags negated (.ranges ranges)
      return (.inside stack (⟨members, 0⟩ :: listed), rest)
    | none => do
      let (negated, initial, rest) ← openSet flags.verbose rest
      return (.inside (.opened negated listed :: stack) initial, rest)
  | ']' :: rest =>
    match settleOperator flags (SetMember.ofList listed.reverse) stack with
    | (inner, .opened negated outer :: stack) => do
      let members ← foldAndNegate flags negated inner.members
      let closed : SetMember := ⟨members, inner.depth + 1⟩
      if stack.isEmpty then return (.closed closed, rest)
      else return (.inside stack (closed :: outer), rest)
    | _ => .error .unclosedSet
  | rest =>
    match setOperator? rest with
    | some (operator, rest) =>
      let (left, stack) := settleOperator flags (SetMember.ofList listed.reverse) stack
      return (.inside (.operator operator left :: stack) [], rest)
    | none => do
      let (member, rest) ← setItem flags rest
      return (.inside stack (member :: listed), rest)

section

variable {flags : PatternFlags} {stack : List SetFrame} {listed : List SetMember} {text rest : List Char}

private theorem setStep_open (begins : skipBlanks flags.verbose text = '[' :: rest) :
    setStep flags stack listed text =
      match posixSet? rest with
      | some (negated, ranges, rest) => do
        let members ← foldAndNegate flags negated (.ranges ranges)
        return (.inside stack (⟨members, 0⟩ :: listed), rest)
      | none => do
        let (negated, initial, rest) ← openSet flags.verbose rest
        return (.inside (.opened negated listed :: stack) initial, rest) := by
  rw [setStep, begins]
  rfl

private theorem setStep_close (begins : skipBlanks flags.verbose text = ']' :: rest) :
    setStep flags stack listed text =
      match settleOperator flags (SetMember.ofList listed.reverse) stack with
      | (inner, .opened negated outer :: stack) => do
        let members ← foldAndNegate flags negated inner.members
        let closed : SetMember := ⟨members, inner.depth + 1⟩
        if stack.isEmpty then return (.closed closed, rest)
        else return (.inside stack (closed :: outer), rest)
      | _ => .error .unclosedSet := by
  rw [setStep, begins]
  rfl

private theorem setStep_list (begins : skipBlanks flags.verbose text = rest) (inhabited : rest ≠ [])
    (noOpen : rest.head? ≠ some '[') (noClose : rest.head? ≠ some ']') :
    setStep flags stack listed text =
      match setOperator? rest with
      | some (operator, rest) =>
        let (left, stack) := settleOperator flags (SetMember.ofList listed.reverse) stack
        return (.inside (.operator operator left :: stack) [], rest)
      | none => do
        let (member, rest) ← setItem flags rest
        return (.inside stack (member :: listed), rest) := by
  rw [setStep, begins]
  split
  · exact (inhabited rfl).elim
  · exact (noOpen rfl).elim
  · exact (noClose rfl).elim
  · rfl

/-- Reading a set is stepping until it is closed. -/
theorem readSet_succ (bound : Nat) :
    readSet flags (bound + 1) stack listed text =
      (do
        match ← setStep flags stack listed text with
        | (.inside stack listed, rest) => readSet flags bound stack listed rest
        | (.closed member, rest) => return (member, rest)) := by
  rw [readSet]
  split
  next ends =>
    rw [setStep, ends]
    rfl
  next rest begins =>
    rw [setStep_open begins]
    cases posixSet? rest with
    | none => cases openSet flags.verbose rest <;> rfl
    | some found =>
        rcases found with ⟨negated, ranges, rest⟩
        dsimp only
        cases foldAndNegate flags negated (.ranges ranges) <;> rfl
  next rest begins =>
    rw [setStep_close begins]
    rcases settleOperator flags (SetMember.ofList listed.reverse) stack with ⟨inner, settled⟩
    cases settled with
    | nil => rfl
    | cons frame settled =>
        cases frame with
        | operator operator left => rfl
        | opened negated outer =>
            dsimp only
            cases foldAndNegate flags negated inner.members with
            | error failure => rfl
            | ok members => cases settled <;> rfl
  next nothing noOpen noClose =>
    have headless : forall c, (forall rest, skipBlanks flags.verbose text = c :: rest -> False) ->
        (skipBlanks flags.verbose text).head? ≠ some c := by
      intro c without begins
      rcases List.head?_eq_some_iff.mp begins with ⟨rest, same⟩
      exact without rest same
    rw [setStep_list rfl nothing (headless '[' noOpen) (headless ']' noClose)]
    cases setOperator? (skipBlanks flags.verbose text) with
    | none => cases setItem flags (skipBlanks flags.verbose text) <;> rfl
    | some found => rfl

end

/-- The pieces that the steps of a set take, behind its beginning. -/
def setPieces (flags : PatternFlags) : Nat -> List SetFrame -> List SetMember -> List Char ->
    List (List Char)
  | 0, _, _, _ => []
  | bound + 1, stack, listed, text =>
    match setStep flags stack listed text with
    | .error _ => []
    | .ok (stage, rest) =>
      pieceOf text rest ::
        match stage with
        | .inside stack listed => setPieces flags bound stack listed rest
        | .closed _ => []

/-- The pieces of a set behind its opening bracket, without the beginning. -/
def bracketedPieces (flags : PatternFlags) (text : List Char) : List (List Char) :=
  match openSet flags.verbose text with
  | .error _ => []
  | .ok (negated, initial, inside) =>
    setPieces flags (inside.length + 1) [.opened negated []] initial inside

/-- The step that takes the piece takes no bracket for a character that is not behind a backslash. -/
def Paired (piece : List Char) : Prop :=
  piece ≠ ['[', ']'] ∧ piece ≠ ['[', '^', ']'] ∧ ¬ ['-', '['] <:+ piece

instance : DecidablePred Paired := fun _ => inferInstanceAs (Decidable (_ ∧ _ ∧ _))

/-- What is waiting for its end holds so many sets, and no operator stands outside of them all. -/
inductive Grounded : List SetFrame -> Nat -> Prop where
  | bottom : Grounded [] 0
  | opened (negated : Bool) (outer : List SetMember) (stack : List SetFrame) (depth : Nat)
      (below : Grounded stack depth) : Grounded (.opened negated outer :: stack) (depth + 1)
  | operator (operator : SetOperator) (left : SetMember) (stack : List SetFrame) (depth : Nat)
      (below : Grounded stack (depth + 1)) : Grounded (.operator operator left :: stack) (depth + 1)

private theorem Grounded.settle {flags : PatternFlags} {right left : SetMember}
    {stack settled : List SetFrame} {depth : Nat} (grounded : Grounded stack depth)
    (same : settleOperator flags right stack = (left, settled)) : Grounded settled depth := by
  cases grounded with
  | bottom =>
      cases same
      exact .bottom
  | opened negated outer stack depth below =>
      cases same
      exact .opened negated outer stack depth below
  | operator operator left stack depth below =>
      cases same
      exact below

/-- So many sets are open after the step. -/
inductive Leaves : SetStage -> Nat -> Prop where
  | inside (stack : List SetFrame) (listed : List SetMember) (depth : Nat)
      (grounded : Grounded stack (depth + 1)) : Leaves (.inside stack listed) (depth + 1)
  | closed (member : SetMember) : Leaves (.closed member) 0

private theorem Grounded.leaves {stack : List SetFrame} {depth : Nat} (grounded : Grounded stack depth)
    (member : SetMember) (listed : List SetMember) :
    Leaves (if stack.isEmpty then .closed member else .inside stack listed) depth := by
  cases grounded with
  | bottom => exact .closed member
  | opened negated outer stack depth below =>
      exact .inside _ listed depth (.opened negated outer stack depth below)
  | operator operator left stack depth below =>
      exact .inside _ listed depth (.operator operator left stack depth below)

section

variable {flags : PatternFlags} {stack : List SetFrame} {listed : List SetMember}
  {text rest : List Char} {stage : SetStage} {depth : Nat}

private theorem turns_of_opening {opening : List Char} (begins : SetOpening opening rest)
    (paired : Paired ('[' :: opening)) (depth : Nat) : Turns (depth + 1) opening (depth + 1) := by
  cases begins with
  | plain _ _ quiet => exact .of_quiet depth quiet
  | negated hyphens _ quiet =>
      exact .other depth _ '^' hyphens (by decide) (.of_quiet depth quiet)
  | bracket => exact (paired.1 rfl).elim
  | negatedBracket => exact (paired.2.1 rfl).elim

private theorem exists_setStep_open (terse : flags.verbose = false)
    (grounded : Grounded stack (depth + 1))
    (made : setStep flags stack listed ('[' :: text) = .ok (stage, rest)) :
    Exists fun taken => Takes (setStep flags stack listed) ('[' :: text) rest stage ('[' :: taken) ∧
      Exists fun last => Leaves stage last ∧
        (Paired ('[' :: taken) -> Turns (depth + 1) ('[' :: taken) last) := by
  have begins : forall text, skipBlanks flags.verbose ('[' :: text) = '[' :: text := by
    intro text
    rw [terse, skipBlanks_false]
  have read := made
  rw [setStep_open (begins text), terse] at made
  cases found : posixSet? text with
  | some posix =>
      rcases posix with ⟨negated, ranges, remaining⟩
      rw [found] at made
      rcases of_bind_eq_ok made with ⟨members, known, same⟩
      cases same
      rcases exists_posixSet found with ⟨taken, rfl, quiet, anywhere⟩
      refine ⟨taken ++ [']'], ⟨by simp, fun other _ => ?_⟩, depth + 1,
        .inside stack _ depth grounded, fun _ => ?_⟩
      · rw [List.cons_append, List.append_assoc, List.singleton_append, setStep_open (begins _),
          anywhere]
        dsimp only
        rw [known]
        rfl
      · exact .opens depth _ _ ((Turns.of_quiet (depth + 1) quiet).append
          (.closes (depth + 1) _ [] (.done _)))
  | none =>
      rw [found] at made
      rcases of_bind_eq_ok made with ⟨⟨negated, initial, inside⟩, opened, same⟩
      cases same
      rcases exists_opening opened with ⟨opening, rfl, shape, anywhere⟩
      refine ⟨opening, ⟨rfl, fun other front => ?_⟩, depth + 2,
        .inside _ _ (depth + 1) (.opened negated listed stack _ grounded), fun paired => ?_⟩
      · rw [List.cons_append, setStep_open (begins _),
          posixSet?_eq_none (front.append opening) found, terse]
        dsimp only
        rw [anywhere other front]
        rfl
      · exact .opens depth _ opening (turns_of_opening shape paired (depth + 1))

private theorem exists_setStep_close (terse : flags.verbose = false)
    (grounded : Grounded stack (depth + 1))
    (made : setStep flags stack listed (']' :: text) = .ok (stage, rest)) :
    Takes (setStep flags stack listed) (']' :: text) rest stage [']'] ∧ Leaves stage depth := by
  have begins : forall text, skipBlanks flags.verbose (']' :: text) = ']' :: text := by
    intro text
    rw [terse, skipBlanks_false]
  have divided := made
  rw [setStep_close (begins text)] at made
  cases same : settleOperator flags (SetMember.ofList listed.reverse) stack with
  | mk inner settled =>
      have settledGrounded := grounded.settle same
      rw [same] at made
      cases settledGrounded with
      | operator => cases made
      | opened negated outer below _ belowGrounded =>
          rcases of_bind_eq_ok made with ⟨members, known, _⟩
          have anywhere : forall other, setStep flags stack listed (']' :: other) =
              .ok (if below.isEmpty then .closed ⟨members, inner.depth + 1⟩
                else .inside below (⟨members, inner.depth + 1⟩ :: outer), other) := by
            intro other
            rw [setStep_close (begins other), same]
            dsimp only
            rw [known]
            cases below <;> rfl
          rw [anywhere] at divided
          cases divided
          exact ⟨⟨rfl, fun other _ => anywhere other⟩, belowGrounded.leaves _ _⟩

private theorem exists_setStep_list (terse : flags.verbose = false) (inhabited : text ≠ [])
    (noOpen : text.head? ≠ some '[') (noClose : text.head? ≠ some ']')
    (grounded : Grounded stack (depth + 1))
    (made : setStep flags stack listed text = .ok (stage, rest)) :
    Exists fun taken => Takes (setStep flags stack listed) text rest stage taken ∧ taken ≠ [] ∧
      Leaves stage (depth + 1) ∧ (Paired taken -> Turns (depth + 1) taken (depth + 1)) := by
  have begins : forall text, skipBlanks flags.verbose text = text := by
    intro text
    rw [terse, skipBlanks_false]
  rw [setStep_list (begins text) inhabited noOpen noClose] at made
  have heads : forall taken other, text = taken ++ rest -> taken ≠ [] ->
      taken ++ other ≠ [] ∧ (taken ++ other).head? = text.head? := by
    rintro taken other rfl nonempty
    cases taken with
    | nil => exact (nonempty rfl).elim
    | cons => exact ⟨List.cons_ne_nil _ _, rfl⟩
  cases found : setOperator? text with
  | some operation =>
      rcases operation with ⟨operator, remaining⟩
      rw [found] at made
      rcases exists_setOperator found with ⟨taken, divides, quiet, nonempty, anywhere⟩
      cases same : settleOperator flags (SetMember.ofList listed.reverse) stack with
      | mk left settled =>
          dsimp only at made
          rw [same] at made
          cases made
          refine ⟨taken, ⟨divides, fun other _ => ?_⟩, nonempty,
            .inside _ _ depth (.operator operator left _ depth (grounded.settle same)),
            fun _ => .of_quiet depth quiet⟩
          rcases heads taken other divides nonempty with ⟨inhabited, first⟩
          rw [setStep_list (begins _) inhabited (first ▸ noOpen) (first ▸ noClose), anywhere]
          dsimp only
          rw [same]
          rfl
  | none =>
      rw [found] at made
      rcases of_bind_eq_ok made with ⟨⟨member, remaining⟩, read, same⟩
      cases same
      rcases exists_setItem terse read with ⟨taken, takes, nonempty, turns⟩
      refine ⟨taken, ⟨takes.divides, fun other front => ?_⟩, nonempty, .inside _ _ depth grounded,
        fun paired => turns noOpen noClose paired.2.2 depth⟩
      rcases heads taken other takes.divides nonempty with ⟨inhabited, first⟩
      have still : setOperator? (taken ++ other) = none := by
        refine setOperator?_eq_none ?_ found
        rw [takes.divides]
        exact front.append taken
      rw [setStep_list (begins _) inhabited (first ▸ noOpen) (first ▸ noClose), still]
      dsimp only
      rw [takes.anywhere other front]
      rfl

/-- A step takes a piece, and if the piece is paired, its brackets lead to the number of sets that are
open then. -/
theorem exists_setStep (terse : flags.verbose = false) (grounded : Grounded stack (depth + 1))
    (made : setStep flags stack listed text = .ok (stage, rest)) :
    Exists fun taken => Takes (setStep flags stack listed) text rest stage taken ∧ taken ≠ [] ∧
      Exists fun last => Leaves stage last ∧ (Paired taken -> Turns (depth + 1) taken last) := by
  by_cases opens : text.head? = some '['
  · rcases List.head?_eq_some_iff.mp opens with ⟨text, rfl⟩
    rcases exists_setStep_open terse grounded made with ⟨taken, takes, last, leaves, turns⟩
    exact ⟨'[' :: taken, takes, List.cons_ne_nil _ _, last, leaves, turns⟩
  by_cases closes : text.head? = some ']'
  · rcases List.head?_eq_some_iff.mp closes with ⟨text, rfl⟩
    rcases exists_setStep_close terse grounded made with ⟨takes, leaves⟩
    exact ⟨[']'], takes, List.cons_ne_nil _ _, depth, leaves, fun _ =>
      .closes depth depth [] (.done depth)⟩
  by_cases nothing : text = []
  · rw [nothing, setStep, terse] at made
    cases made
  rcases exists_setStep_list terse nothing opens closes grounded made with
    ⟨taken, takes, nonempty, leaves, turns⟩
  exact ⟨taken, takes, nonempty, depth + 1, leaves, turns⟩

private theorem setPieces_of_inside {bound : Nat} {opened : List SetFrame} {others : List SetMember}
    (step : setStep flags stack listed text = .ok (.inside opened others, rest)) :
    setPieces flags (bound + 1) stack listed text =
      pieceOf text rest :: setPieces flags bound opened others rest := by
  rw [setPieces, step]

private theorem setPieces_of_closed {bound : Nat} {member : SetMember}
    (step : setStep flags stack listed text = .ok (.closed member, rest)) :
    setPieces flags (bound + 1) stack listed text = [pieceOf text rest] := by
  rw [setPieces, step]

private theorem exists_readSet {bound : Nat} {member : SetMember} (terse : flags.verbose = false)
    (grounded : Grounded stack (depth + 1))
    (made : readSet flags bound stack listed text = .ok (member, rest)) :
    Exists fun taken => text = taken ++ rest ∧
      (forall larger other, taken.length ≤ larger -> SameFront rest other ->
        readSet flags larger stack listed (taken ++ other) = .ok (member, other)) ∧
      ((forall piece, piece ∈ setPieces flags bound stack listed text -> Paired piece) ->
        Turns (depth + 1) taken 0) := by
  induction bound generalizing stack listed text depth with
  | zero => cases made
  | succ bound inductionHypothesis =>
      rw [readSet_succ] at made
      rcases of_bind_eq_ok made with ⟨⟨stage, middle⟩, step, later⟩
      rcases exists_setStep terse grounded step with ⟨taken, takes, nonempty, last, leaves, turns⟩
      have piece := pieceOf_eq takes.divides
      have positive : 0 < taken.length := List.length_pos_of_ne_nil nonempty
      cases leaves with
      | closed member =>
          cases later
          refine ⟨taken, takes.divides, fun larger other enough front => ?_, fun paired => ?_⟩
          · obtain ⟨larger, rfl⟩ := Nat.exists_eq_succ_of_ne_zero
              (Nat.ne_of_gt (Nat.lt_of_lt_of_le positive enough))
            rw [readSet_succ, takes.anywhere other front]
            rfl
          · rw [setPieces_of_closed step, piece] at paired
            exact turns (paired taken List.mem_cons_self)
      | inside stack listed depth grounded =>
          rcases inductionHypothesis grounded later with ⟨others, rfl, anywhere, turnsLater⟩
          refine ⟨taken ++ others, ?_, fun larger other enough front => ?_, fun paired => ?_⟩
          · rw [takes.divides, List.append_assoc]
          · rw [List.length_append] at enough
            obtain ⟨larger, rfl⟩ := Nat.exists_eq_succ_of_ne_zero
              (Nat.ne_of_gt (Nat.lt_of_lt_of_le (Nat.add_pos_left positive _) enough))
            rw [List.append_assoc, readSet_succ, takes.anywhere _ (front.append others)]
            exact anywhere larger other (by omega) front
          · rw [setPieces_of_inside step, piece] at paired
            exact (turns (paired taken List.mem_cons_self)).append
              (turnsLater fun piece member => paired piece (List.mem_cons_of_mem taken member))

/-- A set is read in the same way in front of every text that begins like the rest.  If the pieces of its
steps are paired, its brackets lead out of it and not before. -/
theorem exists_bracketed {member : SetMember} (terse : flags.verbose = false)
    (made : bracketed flags text = .ok (member, rest)) :
    Exists fun opening => Exists fun inside =>
      Takes (bracketed flags) text rest member (opening ++ inside) ∧
      SetOpening opening (inside ++ rest) ∧
      ((forall piece, piece ∈ bracketedPieces flags text -> Paired piece) -> Turns 1 inside 0) := by
  rcases of_bind_eq_ok made with ⟨⟨negated, initial, behind⟩, opened, later⟩
  have pieces : bracketedPieces flags text =
      setPieces flags (behind.length + 1) [.opened negated []] initial behind := by
    rw [bracketedPieces, opened]
  rw [terse] at opened
  rcases exists_opening opened with ⟨opening, divides, shape, openedAnywhere⟩
  rcases exists_readSet terse (.opened negated [] [] 0 .bottom) later with
    ⟨inside, rfl, anywhere, turns⟩
  refine ⟨opening, inside, ⟨?_, fun other front => ?_⟩, shape, fun paired => turns (pieces ▸ paired)⟩
  · rw [divides, List.append_assoc]
  · unfold bracketed
    rw [List.append_assoc, terse, openedAnywhere _ (front.append inside)]
    refine anywhere _ other ?_ front
    rw [List.length_append]
    omega

end

end PatternLexeme
end ShiftReduce
