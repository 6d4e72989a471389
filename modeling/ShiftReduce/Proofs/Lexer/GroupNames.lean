import ShiftReduce.Lexer.Matcher
import ShiftReduce.Proofs.Pattern.Steps

namespace ShiftReduce

/-!
# Patterns without group names

The names of groups are found by a scan of the text, which does not read the pattern.  It passes over
what stands behind a backslash and counts brackets to know whether it is in a set.  Reading the pattern
decides what is a group and what is a set, so the scan is compared with the steps of reading: it keeps
what a step takes that opens no group with a name, and of what another step takes it keeps the
parenthesis.

The two agree as long as the brackets of each set lead out of it where it ends.  They need not.  The scan
makes an exception for a bracket at the beginning of a set that is in no other, but not for one at the
beginning of a set in a set, nor for one at the end of a range.
-/

namespace GroupNames

variable {text rest : List Char}

/-! ## Looking through a text -/

private theorem setHeader_plain (unsigned : text.head? ≠ some '^') (listed : text.head? ≠ some ']') :
    setHeader text = ([], text) := by
  cases text with
  | nil => rfl
  | cons c text =>
      have noCaret : c ≠ '^' := fun same => unsigned (congrArg some same)
      have noBracket : c ≠ ']' := fun same => listed (congrArg some same)
      simp [setHeader, noCaret, noBracket]

private theorem setHeader_negated (listed : text.head? ≠ some ']') :
    setHeader ('^' :: text) = (['^'], text) := by
  cases text with
  | nil => rfl
  | cons c text =>
      have noBracket : c ≠ ']' := fun same => listed (congrArg some same)
      simp [setHeader, noBracket]

private theorem setHeader_append (text : List Char) :
    (setHeader text).1 ++ (setHeader text).2 = text := by
  by_cases signed : text.head? = some '^'
  · rcases List.head?_eq_some_iff.mp signed with ⟨text, rfl⟩
    by_cases bracket : text.head? = some ']'
    · rcases List.head?_eq_some_iff.mp bracket with ⟨text, rfl⟩
      rfl
    · rw [setHeader_negated bracket]
      rfl
  · by_cases bracket : text.head? = some ']'
    · rcases List.head?_eq_some_iff.mp bracket with ⟨text, rfl⟩
      rfl
    · rw [setHeader_plain signed bracket]
      rfl

private theorem length_setHeader (text : List Char) : (setHeader text).2.length ≤ text.length := by
  have whole := congrArg List.length (setHeader_append text)
  rw [List.length_append] at whole
  omega

private theorem suffix_of_dropWhile {ends : Char -> Bool} {c : Char}
    (same : text.dropWhile ends = c :: rest) : rest <:+ text :=
  (List.suffix_cons c rest).trans (same ▸ List.dropWhile_suffix _)

private theorem suffix_of_dropHeader? (dropped : dropHeader? text = some rest) : rest <:+ text := by
  unfold dropHeader? at dropped
  split at dropped
  next name =>
    dsimp only at dropped
    split at dropped
    · cases dropped
    next c after same =>
      cases dropped
      exact (suffix_of_dropWhile same).trans ⟨['?', 'P', '<'], rfl⟩
  next name _ =>
    dsimp only at dropped
    split at dropped
    · cases dropped
    next c after same =>
      cases dropped
      exact (suffix_of_dropWhile same).trans ⟨['?', '<'], rfl⟩
  · cases dropped

private theorem length_dropHeader? (text : List Char) :
    ((dropHeader? text).getD text).length ≤ text.length := by
  cases dropped : dropHeader? text with
  | none => exact Nat.le_refl _
  | some rest => exact (suffix_of_dropHeader? dropped).length_le

/-- The bound of a scan does not matter if it is as large as the text. -/
private theorem strip_congr {bound larger : Nat} {depth : SetDepth} {text : List Char}
    (enough : text.length ≤ bound) (more : text.length ≤ larger) :
    strip bound depth text = strip larger depth text := by
  induction bound generalizing larger depth text with
  | zero =>
      rw [List.length_eq_zero_iff.mp (Nat.le_zero.mp enough)]
      cases larger <;> rfl
  | succ bound inductionHypothesis =>
      cases text with
      | nil => cases larger <;> rfl
      | cons c text =>
          obtain ⟨larger, rfl⟩ := Nat.exists_eq_succ_of_ne_zero (Nat.ne_of_gt (Nat.lt_of_lt_of_le
            (Nat.succ_pos text.length) more))
          have later : forall depth rest, rest.length ≤ text.length ->
              strip bound depth rest = strip larger depth rest := fun depth rest shorter =>
            inductionHypothesis (shorter.trans (Nat.le_of_succ_le_succ enough))
              (shorter.trans (Nat.le_of_succ_le_succ more))
          have dropped := length_dropHeader? text
          have inside := length_setHeader text
          unfold strip
          generalize setHeader text = opened at inside ⊢
          rcases opened with ⟨header, remaining⟩
          dsimp only at inside ⊢
          rw [later 1 remaining inside, later (depth + 1) text (Nat.le_refl _),
            later (depth - 1) text (Nat.le_refl _), later depth _ dropped,
            later depth text (Nat.le_refl _)]
          cases text with
          | nil => rfl
          | cons escaped text =>
              dsimp only
              rw [later depth text (Nat.le_succ _)]

/-- The text without the names of groups, from where so many sets are open. -/
def stripped (depth : SetDepth) (text : List Char) : List Char := strip text.length depth text

private theorem strip_eq {bound : Nat} (depth : SetDepth) (enough : text.length ≤ bound) :
    strip bound depth text = stripped depth text :=
  strip_congr enough (Nat.le_refl _)

private theorem stripped_escape (depth : SetDepth) (c : Char) (text : List Char) :
    stripped depth ('\\' :: c :: text) = '\\' :: c :: stripped depth text := by
  have later : strip (text.length + 1) depth text = stripped depth text :=
    strip_eq depth (Nat.le_succ _)
  exact congrArg (fun text => '\\' :: c :: text) later

private theorem stripped_open (depth : SetDepth) (text : List Char) :
    stripped (depth + 1) ('[' :: text) = '[' :: stripped (depth + 2) text := rfl

private theorem stripped_close (depth : SetDepth) (text : List Char) :
    stripped depth (']' :: text) = ']' :: stripped (depth - 1) text := rfl

private theorem stripped_set (text : List Char) :
    stripped 0 ('[' :: text) = '[' :: ((setHeader text).1 ++ stripped 1 (setHeader text).2) := by
  have later := strip_eq 1 (length_setHeader text)
  exact congrArg (fun inside => '[' :: ((setHeader text).1 ++ inside)) later

private theorem stripped_group (text : List Char) :
    stripped 0 ('(' :: text) = '(' :: stripped 0 ((dropHeader? text).getD text) := by
  have later := strip_eq 0 (length_dropHeader? text)
  exact congrArg ('(' :: ·) later

private theorem stripped_other {depth : SetDepth} {c : Char} (plain : c ∉ ['\\', '[', ']'])
    (closed : c ≠ '(' ∨ depth ≠ 0) (text : List Char) :
    stripped depth (c :: text) = c :: stripped depth text := by
  simp only [List.mem_cons, List.not_mem_nil, or_false, not_or] at plain
  have noGroup : ¬ (c = '(' ∧ depth = 0) := fun both => closed.elim (· both.1) (· both.2)
  exact (if_neg plain.1).trans ((if_neg plain.2.1).trans ((if_neg plain.2.2).trans (if_neg noGroup)))

/-- A scan leaves a text as it is up to the first parenthesis behind which it drops something. -/
private theorem sameFront_strip (bound : Nat) (depth : SetDepth) (text : List Char) :
    SameFront text (strip bound depth text) := by
  induction bound generalizing depth text with
  | zero => exact .same text
  | succ bound inductionHypothesis =>
      cases text with
      | nil => exact .same []
      | cons c text =>
          unfold strip
          split
          · cases text with
            | nil => exact .same [c]
            | cons escaped text => exact .cons c _ _ (.cons escaped _ _ (inductionHypothesis depth text))
          split
          · split
            · have inside := (inductionHypothesis 1 (setHeader text).2).append (setHeader text).1
              rw [setHeader_append] at inside
              exact .cons c _ _ inside
            · exact .cons c _ _ (inductionHypothesis _ text)
          split
          · exact .cons c _ _ (inductionHypothesis _ text)
          split
          next opens =>
            rw [opens.1]
            exact .behind _ _
          · exact .cons c _ _ (inductionHypothesis _ text)

theorem sameFront_stripped (depth : SetDepth) (text : List Char) :
    SameFront text (stripped depth text) :=
  sameFront_strip text.length depth text

/-! ## Pieces of a pattern -/

private theorem stripped_of_turns {first last : Nat} {piece : List Char}
    (turns : Turns first piece last) (rest : List Char) :
    stripped first (piece ++ rest) = piece ++ stripped last rest := by
  induction turns with
  | done => rfl
  | escaped depth _ c text _ inductionHypothesis =>
      exact (stripped_escape _ c _).trans (congrArg (fun text => '\\' :: c :: text) inductionHypothesis)
  | opens depth _ text _ inductionHypothesis =>
      exact (stripped_open depth _).trans (congrArg ('[' :: ·) inductionHypothesis)
  | closes depth _ text _ inductionHypothesis =>
      exact (stripped_close _ _).trans (congrArg (']' :: ·) inductionHypothesis)
  | other depth _ c text plain _ inductionHypothesis =>
      exact (stripped_other plain (.inr (Nat.succ_ne_zero depth)) _).trans
        (congrArg (c :: ·) inductionHypothesis)

private theorem stripped_of_quiet {piece : List Char} (depth : SetDepth) (quiet : QuietText piece)
    (rest : List Char) : stripped depth (piece ++ rest) = piece ++ stripped depth rest := by
  induction piece with
  | nil => rfl
  | cons c piece inductionHypothesis =>
      have first : Quiet c := quiet c List.mem_cons_self
      have plain : c ∉ ['\\', '[', ']'] := fun loud => first (List.mem_append_left ['('] loud)
      have closed : c ≠ '(' := fun same => first (by rw [same]; decide)
      exact (stripped_other plain (.inl closed) _).trans
        (congrArg (c :: ·) (inductionHypothesis fun other member =>
          quiet other (List.mem_cons_of_mem c member)))

private theorem stripped_of_opening {opening : List Char}
    (begins : PatternLexeme.SetOpening opening rest) :
    stripped 0 ('[' :: (opening ++ rest)) = '[' :: (opening ++ stripped 1 rest) := by
  rw [stripped_set]
  cases begins with
  | plain _ _ quiet unsigned listed =>
      rw [setHeader_plain unsigned listed]
      exact congrArg ('[' :: ·) (stripped_of_quiet 1 quiet rest)
  | negated hyphens _ quiet listed =>
      rw [List.cons_append, setHeader_negated listed]
      exact congrArg (fun text => '[' :: '^' :: text) (stripped_of_quiet 1 quiet rest)
  | bracket => rfl
  | negatedBracket => rfl

/-- A scan keeps what a step takes that opens no group with a name. -/
theorem stripped_of_stepText {piece : List Char} (step : StepText piece rest) :
    stripped 0 (piece ++ rest) = piece ++ stripped 0 rest := by
  cases step with
  | group _ unmarked =>
      have unnamed : dropHeader? rest = none := by
        unfold dropHeader?
        split
        · exact (unmarked rfl).elim
        · exact (unmarked rfl).elim
        · rfl
      rw [List.singleton_append, stripped_group, unnamed]
      rfl
  | flags c text _ quiet long short =>
      have unnamed : dropHeader? ('?' :: c :: (text ++ rest)) = none := by
        simp [dropHeader?, long, short]
      have whole : QuietText ('?' :: c :: text) := quiet.cons (by decide)
      rw [List.cons_append, stripped_group, List.cons_append, List.cons_append, unnamed]
      exact congrArg ('(' :: ·) (stripped_of_quiet 0 whole rest)
  | set opening inside _ begins turns =>
      rw [List.cons_append, List.append_assoc, stripped_of_opening begins, stripped_of_turns turns,
        List.cons_append, List.append_assoc]
  | escape c text _ quiet =>
      refine (stripped_escape 0 c _).trans ?_
      exact congrArg (fun text => '\\' :: c :: text) (stripped_of_quiet 0 quiet rest)
  | bracket => rfl
  | quiet _ _ quiet => exact stripped_of_quiet 0 quiet rest

/-- A scan keeps only the parenthesis of what opens a group with a name. -/
theorem stripped_of_opensNamed {reading after : PatternReading}
    (opens : reading.OpensNamed text rest after) : stripped 0 ('(' :: text) = '(' :: stripped 0 rest := by
  rcases opens with ⟨mark, name, marks, rfl, unclosed, _⟩
  have inside : forall c, c ∈ name -> decide (c ≠ '>') = true := fun c member =>
    decide_eq_true fun same => unclosed (same ▸ member)
  have closed : (name ++ '>' :: rest).dropWhile (fun c => decide (c ≠ '>')) = '>' :: rest :=
    List.dropWhile_append_of_pos inside
  have dropped : dropHeader? (mark ++ (name ++ '>' :: rest)) = some rest := by
    rcases marks with rfl | rfl
    all_goals
      simp only [dropHeader?, List.cons_append, List.nil_append]
      rw [closed]
  rw [stripped_group, dropped]
  rfl

end GroupNames

/-! ## Steps and runs -/

open GroupNames PatternReading

/-- What a scan makes of the piece that a step takes, and what a reader that has seen no names makes of
that. -/
private structure Unnames (step : PatternStep) : Prop where
  divides : step.text = step.taken ++ step.rest
  header : step.NamesGroup -> step.TakesHeader
  strips : stripped 0 step.text = step.unnamed ++ stripped 0 step.rest
  begins : step.NamesGroup -> step.after.level.parts = []
  again : (step.NamesGroup -> step.rest.head? ≠ some '?') -> Exists fun c => Exists fun text =>
    step.unnamed = c :: text ∧ step.before.nameless.next c (text ++ stripped 0 step.rest) =
      .ok (step.after.nameless, stripped 0 step.rest)

section

variable {reading after : PatternReading} {c : Char} {text rest : List Char}

private theorem unnames_of_opensNamed (terse : reading.flags.verbose = false)
    (opens : reading.OpensNamed text rest after) : Unnames ⟨reading, '(' :: text, after, rest⟩ := by
  have strips := stripped_of_opensNamed opens
  rcases opens with ⟨mark, name, marks, rfl, _, rfl⟩
  let step : PatternStep := ⟨reading, '(' :: (mark ++ (name ++ '>' :: rest)),
    { reading.openNumbered with names := String.ofList name :: reading.names }, rest⟩
  have names : step.NamesGroup := List.cons_ne_self _ _
  have divides : step.text = '(' :: (mark ++ (name ++ ['>'])) ++ rest := by
    simp [step]
  have taken := PatternStep.taken_eq divides
  have unnamed := PatternStep.unnamed_of_names names
  refine ⟨taken.symm ▸ divides, fun _ => ⟨String.ofList name, rfl, ?_⟩, unnamed.symm ▸ strips,
    fun _ => rfl, fun unmarked => ⟨'(', [], unnamed, ?_⟩⟩
  · rcases marks with rfl | rfl
    · exact .inl (taken.trans (by simp))
    · exact .inr (taken.trans (by simp))
  · have still : (stripped 0 rest).head? ≠ some '?' :=
      (sameFront_stripped 0 rest).head?_eq ▸ unmarked names
    exact beginGroup_of_unmarked (show reading.nameless.flags.verbose = false from terse) still

private theorem unnames_of_continues (continues : reading.Continues c text rest after) :
    Unnames ⟨reading, c :: text, after, rest⟩ := by
  rcases continues with ⟨names, piece, step, divides, anywhere⟩
  have taken : PatternStep.taken ⟨reading, c :: text, after, rest⟩ = c :: piece :=
    PatternStep.taken_eq (congrArg (c :: ·) divides)
  have unnamed : PatternStep.unnamed ⟨reading, c :: text, after, rest⟩ = c :: piece :=
    (PatternStep.unnamed_of_continues names).trans taken
  refine ⟨?_, fun named => (named names).elim, ?_, fun named => (named names).elim,
    fun _ => ⟨c, piece, unnamed, anywhere _ (sameFront_stripped 0 rest)⟩⟩
  · rw [taken]
    exact congrArg (c :: ·) divides
  · rw [unnamed]
    exact divides ▸ stripped_of_stepText step

/-- A step is told apart from the others, and what a scan makes of it. -/
private theorem unnames_of_next (terse : reading.flags.verbose = false)
    (paired : PatternStep.Paired ⟨reading, c :: text, after, rest⟩)
    (made : reading.next c text = .ok (after, rest)) : Unnames ⟨reading, c :: text, after, rest⟩ := by
  rcases next_cases terse paired made with ⟨rfl, opens⟩ | continues
  · exact unnames_of_opensNamed terse opens
  · exact unnames_of_continues continues

/-- A group does not begin with the mark of a repetition. -/
private theorem unmarked_of_readWithin {bound : Nat} {part : PatternPart}
    (terse : reading.flags.verbose = false) (empty : reading.level.parts = [])
    (read : reading.readWithin bound text = .ok part) : text.head? ≠ some '?' := by
  intro marked
  rcases List.head?_eq_some_iff.mp marked with ⟨text, rfl⟩
  cases bound with
  | zero => cases read
  | succ bound =>
      rw [readWithin, terse] at read
      rcases of_bind_eq_ok read with ⟨⟨after, rest⟩, step, _⟩
      rcases of_bind_eq_ok step with ⟨repeated, known, _⟩
      rw [repeatLast_of_empty empty] at known
      cases known

/-- A whole run gives back its text, and a scan of the text leaves what gives the same pattern to a reader
that has seen no names. -/
private theorem unnames_of_readWithin {bound : Nat} {part : PatternPart}
    (terse : reading.flags.verbose = false)
    (terseSteps : forall step, step ∈ reading.stepsWithin bound text -> step.Terse)
    (paired : forall step, step ∈ reading.stepsWithin bound text -> step.Paired)
    (read : reading.readWithin bound text = .ok part) :
    text = (reading.stepsWithin bound text).flatMap PatternStep.taken ∧
      (forall step, step ∈ reading.stepsWithin bound text -> step.NamesGroup -> step.TakesHeader) ∧
      stripped 0 text = (reading.stepsWithin bound text).flatMap PatternStep.unnamed ∧
      forall larger, (stripped 0 text).length < larger ->
        reading.nameless.readWithin larger (stripped 0 text) = .ok part := by
  induction bound generalizing reading text with
  | zero => cases read
  | succ bound inductionHypothesis =>
      have first := read
      rw [readWithin, terse, PatternLexeme.skipBlanks_false] at first
      cases text with
      | nil =>
          rw [stepsWithin, terse]
          refine ⟨rfl, fun _ impossible => (List.not_mem_nil impossible).elim, rfl, fun larger enough => ?_⟩
          obtain ⟨larger, rfl⟩ := Nat.exists_eq_succ_of_ne_zero (Nat.ne_of_gt enough)
          rw [readWithin, show reading.nameless.flags.verbose = false from terse]
          exact first
      | cons c text =>
          rcases of_bind_eq_ok first with ⟨⟨after, rest⟩, made, later⟩
          have steps : reading.stepsWithin (bound + 1) (c :: text) =
              ⟨reading, c :: text, after, rest⟩ :: after.stepsWithin bound rest := by
            rw [stepsWithin, terse, PatternLexeme.skipBlanks_false]
            dsimp only
            rw [made]
          rw [steps] at terseSteps paired ⊢
          have terseAfter : after.flags.verbose = false := terseSteps _ List.mem_cons_self
          have unnames := unnames_of_next terse (paired _ List.mem_cons_self) made
          rcases inductionHypothesis terseAfter
            (fun step member => terseSteps step (List.mem_cons_of_mem _ member))
            (fun step member => paired step (List.mem_cons_of_mem _ member)) later with
            ⟨divides, headers, strips, again⟩
          -- What is left of a header is a parenthesis.  In front of a question mark it would begin
          -- something else, but a group in which nothing is repeated has been refused.
          have unmarked : PatternStep.NamesGroup ⟨reading, c :: text, after, rest⟩ ->
              rest.head? ≠ some '?' := fun names =>
            unmarked_of_readWithin terseAfter (unnames.begins names) later
          rcases unnames.again unmarked with ⟨d, piece, unnamed, step⟩
          refine ⟨?_, ?_, ?_, fun larger enough => ?_⟩
          · rw [List.flatMap_cons, ← divides]
            exact unnames.divides
          · exact List.forall_mem_cons.mpr ⟨unnames.header, headers⟩
          · rw [List.flatMap_cons, ← strips]
            exact unnames.strips
          · obtain ⟨larger, rfl⟩ := Nat.exists_eq_succ_of_ne_zero (Nat.ne_of_gt (Nat.zero_lt_of_lt enough))
            have whole : stripped 0 (c :: text) = d :: (piece ++ stripped 0 rest) := by
              rw [unnames.strips, unnamed]
              rfl
            rw [whole, List.length_cons, List.length_append] at enough
            rw [whole, readWithin, show reading.nameless.flags.verbose = false from terse,
              PatternLexeme.skipBlanks_false]
            dsimp only
            rw [step]
            exact again larger (by omega)

end

/-- If brackets are characters only at the beginning of a set that is in no other and behind a backslash,
the names of groups are left out with their headers and nothing else, and what is left is the same
pattern. -/
theorem withoutGroupNames_eq {source : String} {insensitive : Bool} {pattern : Pattern}
    (accepted : Pattern.ofString source insensitive = .ok pattern)
    (terse : forall step, step ∈ Pattern.steps source insensitive -> step.Terse)
    (paired : forall step, step ∈ Pattern.steps source insensitive -> step.Paired) :
    source.toList = (Pattern.steps source insensitive).flatMap PatternStep.taken ∧
      (forall step, step ∈ Pattern.steps source insensitive -> step.NamesGroup -> step.TakesHeader) ∧
      (withoutGroupNames source).toList =
        (Pattern.steps source insensitive).flatMap PatternStep.unnamed ∧
      Pattern.ofString (withoutGroupNames source) insensitive = .ok pattern := by
  rcases of_bind_eq_ok accepted with ⟨part, read, later⟩
  rcases unnames_of_readWithin rfl terse paired read with ⟨divides, headers, strips, again⟩
  have written : (withoutGroupNames source).toList = stripped 0 source.toList := String.toList_ofList
  refine ⟨divides, headers, written.trans strips, ?_⟩
  unfold Pattern.ofString
  rw [written]
  exact (congrArg (· >>= _) (again _ (Nat.lt_succ_self _))).trans later

namespace GroupNames

/-- A pattern with sets in sets, and with brackets, carets and hyphens at the beginning of sets. -/
def manySets : String :=
  "(?P<n>[]^[^-a&&b]\\]]+)\\((?<m>[[:alpha:]-])|[^]-](?i:(?<o>c)|[ -\\]--[b[d]]])"

theorem withoutGroupNames_manySets :
    withoutGroupNames manySets =
        "([]^[^-a&&b]\\]]+)\\(([[:alpha:]-])|[^]-](?i:(c)|[ -\\]--[b[d]]])" ∧
      Exists fun pattern => Pattern.ofString manySets false = .ok pattern ∧
        Pattern.ofString (withoutGroupNames manySets) false = .ok pattern := by
  have facts : (Pattern.ofString manySets false).isOk = true ∧
      (forall step, step ∈ Pattern.steps manySets false -> step.Terse) ∧
      (forall step, step ∈ Pattern.steps manySets false -> step.Paired) ∧
      withoutGroupNames manySets =
        "([]^[^-a&&b]\\]]+)\\(([[:alpha:]-])|[^]-](?i:(c)|[ -\\]--[b[d]]])" := by
    decide +kernel
  rcases facts with ⟨succeeds, terse, paired, written⟩
  cases accepted : Pattern.ofString manySets false with
  | error failure =>
      rw [accepted] at succeeds
      cases succeeds
  | ok pattern =>
      rcases withoutGroupNames_eq accepted terse paired with ⟨_, _, _, same⟩
      exact ⟨written, pattern, rfl, same⟩

/-- The pattern is read, white space counts in it, and the scan does not leave out just the headers of its
named groups. -/
def Mistaken (source : String) : Prop :=
  (Pattern.ofString source false).isOk = true ∧
    (forall step, step ∈ Pattern.steps source false -> step.Terse) ∧
    (withoutGroupNames source).toList ≠ (Pattern.steps source false).flatMap PatternStep.unnamed

instance : DecidablePred Mistaken := fun _ => inferInstanceAs (Decidable (_ ∧ _ ∧ _))

/-- A scan takes the bracket at the beginning of a set in a set for the end of this set.  So it leaves out
a part of the set around it, which then matches less.  And it takes the bracket at the end of a range for
the beginning of a set, and keeps the names behind it. -/
theorem mistaken_brackets :
    (Mistaken "[a[]](?P<n>]" ∧ withoutGroupNames "[a[]](?P<n>]" = "[a[]](]" ∧
      (Pattern.ofString "[a[]](?P<n>]" false).toOption.bind (·.find? ['n']) = some ⟨[], ['n'], []⟩ ∧
      (Pattern.ofString "[a[]](]" false).toOption.bind (·.find? ['n']) = none) ∧
    Mistaken "[!-[](?P<n>b)" ∧ withoutGroupNames "[!-[](?P<n>b)" = "[!-[](?P<n>b)" := by
  decide +kernel

end GroupNames
end ShiftReduce
