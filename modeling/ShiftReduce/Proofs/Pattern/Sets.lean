import ShiftReduce.Pattern.SetReader
import ShiftReduce.Proofs.Pattern.Lexemes

namespace ShiftReduce

/-!
# Where the parts of a set end

Inside of a set stand characters, ranges, classes, operators and further sets.  What each of them takes is
said here, and the beginning of a set is taken apart.

One might find the end of a set without reading it, by counting brackets that are not behind a backslash.
This goes wrong only where a bracket is a character although it is not behind a backslash: at the
beginning of a set, and at the end of a range.
-/

/-! ## Counting brackets -/

/-- Inside of sets, the brackets of a text lead from a number of open sets to another, if those behind a
backslash are left out and all others open or close a set. -/
inductive Turns : Nat -> List Char -> Nat -> Prop where
  | done (depth : Nat) : Turns depth [] depth
  | escaped (depth last : Nat) (c : Char) (text : List Char) (later : Turns (depth + 1) text last) :
      Turns (depth + 1) ('\\' :: c :: text) last
  | opens (depth last : Nat) (text : List Char) (later : Turns (depth + 2) text last) :
      Turns (depth + 1) ('[' :: text) last
  | closes (depth last : Nat) (text : List Char) (later : Turns depth text last) :
      Turns (depth + 1) (']' :: text) last
  | other (depth last : Nat) (c : Char) (text : List Char) (plain : c ∉ ['\\', '[', ']'])
      (later : Turns (depth + 1) text last) : Turns (depth + 1) (c :: text) last

namespace Turns

theorem append {first middle last : Nat} {left right : List Char} (before : Turns first left middle)
    (after : Turns middle right last) : Turns first (left ++ right) last := by
  induction before with
  | done => exact after
  | escaped depth _ c text _ inductionHypothesis => exact .escaped depth _ c _ (inductionHypothesis after)
  | opens depth _ text _ inductionHypothesis => exact .opens depth _ _ (inductionHypothesis after)
  | closes depth _ text _ inductionHypothesis => exact .closes depth _ _ (inductionHypothesis after)
  | other depth _ c text plain _ inductionHypothesis =>
      exact .other depth _ c _ plain (inductionHypothesis after)

theorem single {c : Char} (depth : Nat) (plain : c ∉ ['\\', '[', ']']) :
    Turns (depth + 1) [c] (depth + 1) :=
  .other depth _ c [] plain (.done _)

theorem of_quiet {text : List Char} (depth : Nat) (quiet : QuietText text) :
    Turns (depth + 1) text (depth + 1) := by
  induction text with
  | nil => exact .done _
  | cons c text inductionHypothesis =>
      refine .other depth _ c text (fun loud => ?_) (inductionHypothesis fun other member =>
        quiet other (List.mem_cons_of_mem c member))
      exact quiet c List.mem_cons_self (List.mem_append_left ['('] loud)

end Turns

namespace PatternLexeme

/-! ## Classes and operators -/

private theorem splitAt?_colon {name : List Char} (rest : List Char) (unmarked : ':' ∉ name) :
    splitAt? [':'] (name ++ ':' :: rest) = some (name, rest) := by
  induction name with
  | nil => rfl
  | cons c name inductionHypothesis =>
      have different : ¬ [':'].isPrefixOf (c :: (name ++ ':' :: rest)) = true := by
        intro found
        rcases List.isPrefixOf_iff_prefix.mp found with ⟨others, same⟩
        cases same
        exact unmarked List.mem_cons_self
      rw [List.cons_append, splitAt?, if_neg different,
        inductionHypothesis fun member => unmarked (List.mem_cons_of_mem c member)]
      rfl

/-- A POSIX class behind the caret, which says whether it is negated. -/
private def posixName? (negated : Bool) (text : List Char) :
    Option (Bool × Unicode.Ranges × List Char) :=
  match splitAt? [':'] text with
  | some (name, ']' :: after) =>
    (ClassName.posix? (String.ofList name)).map fun ranges => (negated, ranges, after)
  | _ => none

private theorem posixSet?_caret (text : List Char) :
    posixSet? (':' :: '^' :: text) = posixName? true text := rfl

private theorem posixSet?_of_not_caret {text : List Char} (first : text.head? ≠ some '^') :
    posixSet? (':' :: text) = posixName? false text := by
  cases text with
  | nil => rfl
  | cons c text =>
      have different : c ≠ '^' := fun same => first (congrArg some same)
      simp only [posixSet?, List.cons.injEq, different, false_and, imp_self, implies_true]
      rfl

private theorem exists_posixName {text rest : List Char} {negated found : Bool}
    {ranges : Unicode.Ranges} (read : posixName? negated text = some (found, ranges, rest)) :
    Exists fun name => text = name ++ ':' :: ']' :: rest ∧
      (forall c, c ∈ name -> c.isAlpha = true) ∧ name ≠ [] ∧
      forall other, posixName? negated (name ++ ':' :: ']' :: other) = some (found, ranges, other) := by
  unfold posixName? at read
  split at read
  next name after split =>
    rcases Option.map_eq_some_iff.mp read with ⟨ranges, known, same⟩
    cases same
    have letters := ClassName.isAlpha_of_posix? known
    rw [String.toList_ofList] at letters
    have unmarked : ':' ∉ name := fun member => absurd (letters ':' member) (by decide)
    have text := splitAt?_eq split
    rw [List.append_assoc] at text
    refine ⟨name, text, letters, ?_, fun other => ?_⟩
    · rintro rfl
      cases known
    · unfold posixName?
      rw [splitAt?_colon _ unmarked]
      exact congrArg (Option.map _) known
  · cases read

private theorem quiet_of_isAlpha {name : List Char} (letters : forall c, c ∈ name -> c.isAlpha = true) :
    QuietText name :=
  fun c member => quiet_of_class _ c (letters c member) (by decide)

/-- A POSIX class is quiet up to the bracket that closes it, and is one in front of any rest. -/
theorem exists_posixSet {text rest : List Char} {negated : Bool} {ranges : Unicode.Ranges}
    (found : posixSet? text = some (negated, ranges, rest)) :
    Exists fun taken => text = taken ++ ']' :: rest ∧ QuietText taken ∧
      forall other, posixSet? (taken ++ ']' :: other) = some (negated, ranges, other) := by
  cases text with
  | nil => cases found
  | cons colon text =>
      by_cases isColon : colon = ':'
      · subst isColon
        by_cases caret : text.head? = some '^'
        · rcases List.head?_eq_some_iff.mp caret with ⟨text, rfl⟩
          rw [posixSet?_caret] at found
          rcases exists_posixName found with ⟨name, rfl, letters, _, anywhere⟩
          refine ⟨':' :: '^' :: (name ++ [':']), by simp, ?_, fun other => ?_⟩
          · exact (((quiet_of_isAlpha letters).append (by decide)).cons (by decide)).cons (by decide)
          · rw [← anywhere other, ← posixSet?_caret]
            simp
        · rw [posixSet?_of_not_caret caret] at found
          rcases exists_posixName found with ⟨name, rfl, letters, inhabited, anywhere⟩
          refine ⟨':' :: (name ++ [':']), by simp, ?_, fun other => ?_⟩
          · exact ((quiet_of_isAlpha letters).append (by decide)).cons (by decide)
          · have first : (name ++ ':' :: ']' :: other).head? ≠ some '^' := by
              cases name with
              | nil => exact (inhabited rfl).elim
              | cons c name => simpa using caret
            rw [← anywhere other, ← posixSet?_of_not_caret first]
            simp
      · unfold posixSet? at found
        split at found
        next same => exact (isColon (List.cons.inj same).1).elim
        · cases found

theorem posixSet?_eq_none {text other : List Char} (front : SameFront text other)
    (nothing : posixSet? text = none) : posixSet? other = none := by
  cases found : posixSet? other with
  | none => rfl
  | some result =>
      rcases result with ⟨negated, ranges, rest⟩
      rcases exists_posixSet found with ⟨taken, rfl, quiet, anywhere⟩
      -- A class has no parenthesis, so it would stand at the beginning of the first text too.
      rw [List.append_cons] at front
      have closed : '(' ∉ taken ++ [']'] := by
        intro member
        rcases List.mem_append.mp member with inside | last
        · exact quiet '(' inside (by decide)
        · exact absurd last (by decide)
      rcases front.symm.exists_rest closed with ⟨others, rfl, _⟩
      rw [← List.append_cons, anywhere] at nothing
      cases nothing

theorem exists_setOperator {text rest : List Char} {operator : SetOperator}
    (found : setOperator? text = some (operator, rest)) :
    Exists fun taken => text = taken ++ rest ∧ QuietText taken ∧ taken ≠ [] ∧
      forall other, setOperator? (taken ++ other) = some (operator, other) := by
  unfold setOperator? at found
  split at found
  case h_4 => cases found
  all_goals
    cases found
    exact ⟨[_, _], rfl, by decide, List.cons_ne_nil _ _, fun other => rfl⟩

theorem setOperator?_eq_none {text other : List Char} (front : SameFront text other)
    (nothing : setOperator? text = none) : setOperator? other = none := by
  cases found : setOperator? other with
  | none => rfl
  | some result =>
      rcases result with ⟨operator, rest⟩
      rcases exists_setOperator found with ⟨taken, rfl, quiet, _, anywhere⟩
      rcases front.symm.exists_rest fun member => quiet '(' member (by decide) with ⟨others, rfl, _⟩
      rw [anywhere] at nothing
      cases nothing

/-! ## Members -/

/-- A character, or a backslash with any character and a quiet piece behind it. -/
inductive AtomText : List Char -> Prop where
  | escaped (c : Char) (text : List Char) (quiet : QuietText text) : AtomText ('\\' :: c :: text)
  | plain (c : Char) (unescaped : c ≠ '\\') : AtomText [c]

private theorem AtomText.ne_nil {text : List Char} (atom : AtomText text) : text ≠ [] := by
  cases atom <;> exact List.cons_ne_nil _ _

private theorem AtomText.turns {text : List Char} (atom : AtomText text) (opens : text ≠ ['['])
    (closes : text ≠ [']']) (depth : Nat) : Turns (depth + 1) text (depth + 1) := by
  cases atom with
  | escaped c text quiet => exact .escaped depth _ c text (.of_quiet depth quiet)
  | plain c unescaped =>
      refine .single depth fun special => ?_
      rcases List.mem_cons.mp special with rfl | special
      · exact unescaped rfl
      rcases List.mem_cons.mp special with rfl | special
      · exact opens rfl
      · exact closes (congrArg (fun c => [c]) (List.mem_singleton.mp special))

private theorem exists_setAtom {flags : PatternFlags} {text rest : List Char} {atom : Atom}
    (terse : flags.verbose = false) (made : setAtom flags text = .ok (atom, rest)) :
    Exists fun taken => Takes (setAtom flags) text rest atom taken ∧ AtomText taken := by
  cases text with
  | nil => cases made
  | cons c text =>
      by_cases escaped : c = '\\'
      · subst escaped
        have behind : forall text, setAtom flags ('\\' :: text) = escape false text := by
          intro text
          rw [← terse]
          rfl
        rw [behind] at made
        rcases exists_escape made with ⟨c, taken, takes, quiet⟩
        refine ⟨'\\' :: c :: taken, ⟨congrArg ('\\' :: ·) takes.divides, fun other front => ?_⟩,
          .escaped c taken quiet⟩
        exact (behind _).trans (takes.anywhere other front)
      · have itself : forall text, setAtom flags (c :: text) = .ok (.literal c false, text) := by
          intro text
          unfold setAtom
          split
          next impossible => cases impossible
          next same => exact (escaped (List.cons.inj same).1).elim
          next same =>
            cases same
            rfl
        rw [itself] at made
        cases made
        exact ⟨[c], ⟨rfl, fun other _ => itself other⟩, .plain c escaped⟩

/-- A member, once its first atom has been read. -/
private theorem setItem_of_atom {flags : PatternFlags} {text tail : List Char} {first : Atom} {c : Char}
    (terse : flags.verbose = false) (read : setAtom flags text = .ok (first, c :: tail)) :
    setItem flags text =
      if c ≠ '-' ∨ tail.head? = some ']' ∨ tail.head? = some '-' then do
        return (← setMember flags first, c :: tail)
      else do
        let (second, rest) ← setAtom flags tail
        return (← setRange flags first second, rest) := by
  unfold setItem
  rw [read, terse]
  rfl

/-- The brackets of a member are characters of it, so none of them can open or close a set.  An opening
one without a backslash is the end of a range. -/
theorem exists_setItem {flags : PatternFlags} {text rest : List Char} {member : SetMember}
    (terse : flags.verbose = false) (made : setItem flags text = .ok (member, rest)) :
    Exists fun taken => Takes (setItem flags) text rest member taken ∧ taken ≠ [] ∧
      (text.head? ≠ some '[' -> text.head? ≠ some ']' -> ¬ ['-', '['] <:+ taken ->
        forall depth, Turns (depth + 1) taken (depth + 1)) := by
  have read := made
  rcases of_bind_eq_ok made with ⟨⟨first, middle⟩, atomRead, later⟩
  rcases exists_setAtom terse atomRead with ⟨taken, takes, atom⟩
  have divides := takes.divides
  cases middle with
  | nil =>
      rw [terse] at later
      cases later
  | cons c tail =>
      have firstTurns : text.head? ≠ some '[' -> text.head? ≠ some ']' ->
          forall depth, Turns (depth + 1) taken (depth + 1) := by
        intro noOpen noClose
        refine atom.turns ?_ ?_
        · rintro rfl
          exact noOpen (congrArg List.head? divides)
        · rintro rfl
          exact noClose (congrArg List.head? divides)
      rw [setItem_of_atom terse atomRead] at read
      split at read
      next single =>
        rcases of_bind_eq_ok read with ⟨found, known, same⟩
        cases same
        refine ⟨taken, ⟨divides, fun other front => ?_⟩, atom.ne_nil, fun noOpen noClose _ =>
          firstTurns noOpen noClose⟩
        -- Behind a hyphen one more character is looked at, which is the same in both texts.
        rcases front.exists_tail with ⟨others, rfl, beyond⟩
        have still : c ≠ '-' ∨ others.head? = some ']' ∨ others.head? = some '-' := by
          by_cases hyphen : c = '-'
          · rwa [← (beyond (hyphen ▸ by decide)).head?_eq]
          · exact .inl hyphen
        rw [setItem_of_atom terse (takes.anywhere _ front), if_pos still, known]
        rfl
      next range =>
        rcases of_bind_eq_ok read with ⟨⟨second, last⟩, secondRead, ranged⟩
        rcases of_bind_eq_ok ranged with ⟨found, known, same⟩
        cases same
        rcases exists_setAtom terse secondRead with ⟨others, takesSecond, secondAtom⟩
        have hyphen : c = '-' := not_not.mp fun different => range (.inl different)
        subst hyphen
        have divided := takesSecond.divides
        subst divided
        have secondHead : forall other, (others ++ other).head? = (others ++ rest).head? := by
          intro other
          cases others with
          | nil => exact (secondAtom.ne_nil rfl).elim
          | cons => rfl
        refine ⟨taken ++ '-' :: others, ⟨?_, fun other front => ?_⟩, by simp, ?_⟩
        · rw [divides, List.append_assoc, List.cons_append]
        · have begins : SameFront ('-' :: (others ++ rest)) ('-' :: (others ++ other)) :=
            .cons _ _ _ (front.append others)
          rw [List.append_assoc, List.cons_append, setItem_of_atom terse (takes.anywhere _ begins),
            secondHead, if_neg range, takesSecond.anywhere other front]
          exact congrArg (· >>= fun member => pure (member, other)) known
        · intro noOpen noClose unpaired depth
          refine (firstTurns noOpen noClose depth).append (.other depth _ '-' _ (by decide) ?_)
          refine secondAtom.turns ?_ ?_ depth
          · rintro rfl
            exact unpaired (List.suffix_append taken ['-', '['])
          · rintro rfl
            exact range (.inr (.inl rfl))

/-! ## The beginning of a set -/

/-- What stands between the bracket that opens a set and the rest: a caret or none, and then a bracket
that is a character, or hyphens. -/
inductive SetOpening : List Char -> List Char -> Prop where
  | plain (hyphens rest : List Char) (quiet : QuietText hyphens)
      (unsigned : (hyphens ++ rest).head? ≠ some '^') (listed : (hyphens ++ rest).head? ≠ some ']') :
      SetOpening hyphens rest
  | negated (hyphens rest : List Char) (quiet : QuietText hyphens)
      (listed : (hyphens ++ rest).head? ≠ some ']') : SetOpening ('^' :: hyphens) rest
  | bracket (rest : List Char) : SetOpening [']'] rest
  | negatedBracket (rest : List Char) : SetOpening ['^', ']'] rest

private theorem leadingHyphens_replicate {count bound : Nat} {rest : List Char}
    (ends : rest.head? ≠ some '-') (enough : count < bound) :
    leadingHyphens false bound (List.replicate count '-' ++ rest) = (count, rest) := by
  induction count generalizing bound with
  | zero =>
      obtain ⟨bound, rfl⟩ := Nat.exists_eq_succ_of_ne_zero (Nat.ne_of_gt enough)
      rw [List.replicate_zero, List.nil_append, leadingHyphens]
      exact fun tail same => ends (congrArg List.head? same)
  | succ count inductionHypothesis =>
      obtain ⟨bound, rfl⟩ := Nat.exists_eq_succ_of_ne_zero (Nat.ne_of_gt (Nat.zero_lt_of_lt enough))
      rw [List.replicate_succ, List.cons_append, leadingHyphens, skipBlanks_false,
        inductionHypothesis (Nat.lt_of_succ_lt_succ enough)]

private theorem exists_hyphens (text : List Char) : Exists fun count => Exists fun rest =>
    text = List.replicate count '-' ++ rest ∧ rest.head? ≠ some '-' := by
  induction text with
  | nil => exact ⟨0, [], rfl, nofun⟩
  | cons c text inductionHypothesis =>
      by_cases hyphen : c = '-'
      · rcases inductionHypothesis with ⟨count, rest, rfl, ends⟩
        exact ⟨count + 1, rest, by rw [hyphen]; rfl, ends⟩
      · exact ⟨0, c :: text, rfl, fun same => hyphen (Option.some.inj same)⟩

/-- The beginning of a set behind its caret. -/
private def openListed (negated : Bool) (text : List Char) :
    Except PatternError (Bool × List SetMember × List Char) :=
  let (count, rest) := leadingHyphens false (text.length + 1) text
  match rest with
  | [] => .error .unclosedSet
  | ']' :: tail =>
    if count = 0 then
      match tail with
      | [] => .error .unclosedSet
      | rest => .ok (negated, [⟨.single ']', 0⟩], rest)
    else .ok (negated, List.replicate count ⟨.single '-', 0⟩, ']' :: tail)
  | rest => .ok (negated, List.replicate count ⟨.single '-', 0⟩, rest)

private theorem openSet_caret (text : List Char) :
    openSet false ('^' :: text) = openListed true text := rfl

private theorem openSet_of_not_caret {text : List Char} (unsigned : text.head? ≠ some '^') :
    openSet false text = openListed false text := by
  cases text with
  | nil => rfl
  | cons c text =>
      have different : c ≠ '^' := fun same => unsigned (congrArg some same)
      simp only [openSet, skipBlanks_false, List.cons.injEq, different, false_and, imp_self,
        implies_true]
      rfl

private theorem openListed_hyphens {negated : Bool} {count : Nat} {c : Char} {tail : List Char}
    (ends : c ≠ '-') (listed : c = ']' -> count ≠ 0) :
    openListed negated (List.replicate count '-' ++ c :: tail) =
      .ok (negated, List.replicate count ⟨.single '-', 0⟩, c :: tail) := by
  have counted : leadingHyphens false ((List.replicate count '-' ++ c :: tail).length + 1)
      (List.replicate count '-' ++ c :: tail) = (count, c :: tail) := by
    refine leadingHyphens_replicate (fun same => ends (Option.some.inj same)) ?_
    rw [List.length_append, List.length_replicate]
    exact Nat.lt_succ_of_le (Nat.le_add_right count _)
  unfold openListed
  rw [counted]
  by_cases bracket : c = ']'
  · subst bracket
    exact if_neg (listed rfl)
  · simp [bracket]

private theorem exists_listed {negated found : Bool} {initial : List SetMember}
    {text rest : List Char} (made : openListed negated text = .ok (found, initial, rest)) :
    Exists fun taken => text = taken ++ rest ∧
      (forall other, SameFront rest other ->
        openListed negated (taken ++ other) = .ok (found, initial, other)) ∧
      (taken = [']'] ∨ QuietText taken ∧ text.head? ≠ some ']') := by
  rcases exists_hyphens text with ⟨count, remaining, rfl, ends⟩
  cases remaining with
  | nil =>
      unfold openListed at made
      rw [leadingHyphens_replicate ends (by simp)] at made
      cases made
  | cons c tail =>
      have noHyphen : c ≠ '-' := fun same => ends (congrArg some same)
      by_cases listed : c = ']' -> count ≠ 0
      · rw [openListed_hyphens noHyphen listed] at made
        cases made
        refine ⟨List.replicate count '-', rfl, fun other front => ?_, .inr ⟨?_, ?_⟩⟩
        · rcases front.exists_tail with ⟨others, rfl, _⟩
          exact openListed_hyphens noHyphen listed
        · intro c member
          rw [List.eq_of_mem_replicate member]
          decide
        · cases count with
          | zero => exact fun same => listed (Option.some.inj same) rfl
          | succ count => exact fun same => absurd (Option.some.inj same) (by decide)
      · rcases Classical.not_imp.mp listed with ⟨rfl, uncounted⟩
        have first : count = 0 := not_not.mp uncounted
        subst first
        cases tail with
        | nil => cases made
        | cons d tail =>
            cases made
            refine ⟨[']'], rfl, fun other front => ?_, .inl rfl⟩
            rcases front.exists_tail with ⟨others, rfl, _⟩
            rfl

/-- Where the beginning of a set ends, in front of any text that begins like the rest. -/
theorem exists_opening {negated : Bool} {initial : List SetMember} {text rest : List Char}
    (made : openSet false text = .ok (negated, initial, rest)) :
    Exists fun opening => text = opening ++ rest ∧ SetOpening opening rest ∧
      forall other, SameFront rest other ->
        openSet false (opening ++ other) = .ok (negated, initial, other) := by
  by_cases caret : text.head? = some '^'
  · rcases List.head?_eq_some_iff.mp caret with ⟨text, rfl⟩
    rw [openSet_caret] at made
    rcases exists_listed made with ⟨taken, rfl, anywhere, bracket | ⟨quiet, noBracket⟩⟩
    · subst bracket
      exact ⟨['^', ']'], rfl, .negatedBracket rest, anywhere⟩
    · exact ⟨'^' :: taken, rfl, .negated taken rest quiet noBracket, anywhere⟩
  · rw [openSet_of_not_caret caret] at made
    rcases exists_listed made with ⟨taken, rfl, anywhere, bracket | ⟨quiet, noBracket⟩⟩
    · subst bracket
      refine ⟨[']'], rfl, .bracket rest, fun other front => ?_⟩
      have unsigned : ([']'] ++ other).head? ≠ some '^' := fun same =>
        absurd (Option.some.inj same) (by decide)
      rw [openSet_of_not_caret unsigned, anywhere other front]
    · refine ⟨taken, rfl, .plain taken rest quiet caret noBracket, fun other front => ?_⟩
      rw [openSet_of_not_caret, anywhere other front]
      rwa [← (front.append taken).head?_eq]

end PatternLexeme
end ShiftReduce
