import ShiftReduce.Pattern.Reader
import ShiftReduce.Proofs.Pattern.SetSteps

namespace ShiftReduce

/-!
# Steps of reading a pattern

A pattern is read part by part, and each step takes a piece of the text.  Nothing of what a step does
depends on the names of the groups before it, apart from the refusal of a name that is there already.  So
the same pieces lead to the same parts for a reader that has seen no names, and a step that opens a named
group does what opening an unnamed one does.
-/

/-- A step of reading a pattern: how far the pattern had been read and the text there, and how far it has
been read then and the rest. -/
structure PatternStep where
  before : PatternReading
  text : List Char
  after : PatternReading
  rest : List Char

namespace PatternStep

/-- The piece of the text that the step takes. -/
def taken (step : PatternStep) : List Char := pieceOf step.text step.rest

/-- The step opens a group that has a name. -/
def NamesGroup (step : PatternStep) : Prop := step.after.names ≠ step.before.names

instance : DecidablePred NamesGroup := fun _ => inferInstanceAs (Decidable (_ ≠ _))

/-- The step adds a name and takes it with its header, `(?P<name>` or `(?<name>`. -/
def TakesHeader (step : PatternStep) : Prop :=
  Exists fun name : String => step.after.names = name :: step.before.names ∧
    (step.taken = ("(?P<" ++ name ++ ">").toList ∨ step.taken = ("(?<" ++ name ++ ">").toList)

/-- The piece of the step, or only a parenthesis if it opens a group that has a name. -/
def unnamed (step : PatternStep) : List Char :=
  if step.NamesGroup then ['('] else step.taken

theorem taken_eq {step : PatternStep} {taken : List Char} (divides : step.text = taken ++ step.rest) :
    step.taken = taken :=
  pieceOf_eq divides

theorem unnamed_of_names {step : PatternStep} (names : step.NamesGroup) : step.unnamed = ['('] :=
  if_pos names

theorem unnamed_of_continues {step : PatternStep} (names : step.after.names = step.before.names) :
    step.unnamed = step.taken :=
  if_neg (not_not.mpr names)

/-- The pieces of a set that the step takes, without its beginning. -/
def setPieces (step : PatternStep) : List (List Char) :=
  match step.text with
  | '[' :: text => PatternLexeme.bracketedPieces step.before.flags text
  | _ => []

/-- The step takes no set in which a bracket is a character, except at the beginning of the set or behind
a backslash. -/
def Paired (step : PatternStep) : Prop :=
  forall piece, piece ∈ step.setPieces -> PatternLexeme.Paired piece

instance : DecidablePred Paired := fun step =>
  inferInstanceAs (Decidable (forall piece, piece ∈ step.setPieces -> PatternLexeme.Paired piece))

/-- White space counts after the step. -/
def Terse (step : PatternStep) : Prop := step.after.flags.verbose = false

instance : DecidablePred Terse := fun _ => inferInstanceAs (Decidable (_ = _))

end PatternStep

namespace PatternReading

open PatternLexeme

/-- The steps of reading a pattern, at most `bound` of them. -/
def stepsWithin : Nat -> PatternReading -> List Char -> List PatternStep
  | 0, _, _ => []
  | bound + 1, reading, text =>
    match skipBlanks reading.flags.verbose text with
    | [] => []
    | c :: text =>
      match reading.next c text with
      | .error _ => []
      | .ok (after, rest) => ⟨reading, c :: text, after, rest⟩ :: stepsWithin bound after rest

/-- How far a pattern has been read before the first step. -/
def start (insensitive : Bool) : PatternReading := ⟨[], .empty, { insensitive }, 0, []⟩

/-- What has been read, without the names of the groups. -/
def nameless (reading : PatternReading) : PatternReading := { reading with names := [] }

end PatternReading

/-- The steps of reading a pattern. -/
def Pattern.steps (source : String) (insensitive : Bool) : List PatternStep :=
  (PatternReading.start insensitive).stepsWithin (source.toList.length + 1) source.toList

/-- What a step takes that opens no group with a name, in front of what is left. -/
inductive StepText : List Char -> List Char -> Prop where
  | group (rest : List Char) (unmarked : rest.head? ≠ some '?') : StepText ['('] rest
  | flags (c : Char) (text rest : List Char) (quiet : QuietText (c :: text)) (unnamed : c ≠ 'P')
      (unnamedShort : c ≠ '<') : StepText ('(' :: '?' :: c :: text) rest
  | set (opening inside rest : List Char) (begins : PatternLexeme.SetOpening opening (inside ++ rest))
      (turns : Turns 1 inside 0) : StepText ('[' :: (opening ++ inside)) rest
  | escape (c : Char) (text rest : List Char) (quiet : QuietText text) :
      StepText ('\\' :: c :: text) rest
  | bracket (rest : List Char) : StepText [']'] rest
  | quiet (text rest : List Char) (quiet : QuietText text) : StepText text rest

namespace PatternReading

open PatternLexeme

variable {reading after : PatternReading} {text rest : List Char}

/-! ## Parts and groups -/

private theorem closeGroup_nameless (made : reading.closeGroup = .ok after) :
    after.names = reading.names ∧ reading.nameless.closeGroup = .ok after.nameless := by
  rcases reading with ⟨stack, level, flags, groups, names⟩
  cases stack with
  | nil => cases made
  | cons group stack =>
      cases made
      exact ⟨rfl, rfl⟩

private theorem repeatLast_nameless {min : Nat} {max : Option Nat} {lazy : Bool}
    (made : reading.repeatLast min max lazy = .ok after) :
    after.names = reading.names ∧ reading.nameless.repeatLast min max lazy = .ok after.nameless := by
  rcases reading with ⟨stack, ⟨branches, parts⟩, flags, groups, names⟩
  cases parts with
  | nil => cases made
  | cons part parts =>
      unfold repeatLast at made ⊢
      dsimp only at made
      split at made
      next repeatable =>
        cases made
        exact ⟨rfl, if_pos repeatable⟩
      · cases made

/-- Nothing can be repeated where a group or a branch begins. -/
theorem repeatLast_of_empty {min : Nat} {max : Option Nat} {lazy : Bool}
    (empty : reading.level.parts = []) : reading.repeatLast min max lazy = .error .missingOperand := by
  unfold repeatLast
  rw [empty]

/-! ## Repetitions -/

/-- The part before is repeated, with the mark that follows. -/
private def repeatMarked (reading : PatternReading) (min : Nat) (max : Option Nat)
    (text : List Char) : Except PatternError (PatternReading × List Char) := do
  return (← reading.repeatLast min max (lazyMark text).1, (lazyMark text).2)

private theorem lazyMark_of_unmarked (unmarked : text.head? ≠ some '?') :
    lazyMark text = (false, text) := by
  unfold lazyMark
  split
  · exact (unmarked rfl).elim
  · rfl

private theorem takesQuiet_repeatMarked {min : Nat} {max : Option Nat}
    (made : repeatMarked reading min max text = .ok (after, rest)) :
    after.names = reading.names ∧
      TakesQuiet (repeatMarked reading.nameless min max) text rest after.nameless := by
  rcases of_bind_eq_ok made with ⟨repeated, known, same⟩
  cases same
  rcases repeatLast_nameless known with ⟨names, nameless⟩
  refine ⟨names, ?_⟩
  by_cases marked : text.head? = some '?'
  · rcases List.head?_eq_some_iff.mp marked with ⟨text, rfl⟩
    refine .cons '?' (by decide) (.none fun other _ => ?_)
    exact congrArg (· >>= fun reading => pure (reading, other)) nameless
  · rw [lazyMark_of_unmarked marked] at nameless ⊢
    refine .none fun other front => ?_
    rw [front.head?_eq] at marked
    unfold repeatMarked
    rw [lazyMark_of_unmarked marked]
    exact congrArg (· >>= fun reading => pure (reading, other)) nameless

/-- The end of a repetition with bounds, behind its closing brace. -/
private def closeBounds (reading : PatternReading) (min : Nat) (max : Option Nat)
    (text : List Char) : Except PatternError (PatternReading × List Char) := do
  let (lazy, rest) := lazyMark text
  match max with
  | some limit => if limit < min then .error .repetitionBounds
  | none => pure ()
  return (← reading.repeatLast min max lazy, rest)

/-- A repetition with bounds, behind the comma. -/
private def boundsBehindComma (reading : PatternReading) (low : Nat) (text : List Char) :
    Except PatternError (PatternReading × List Char) :=
  match text with
  | '}' :: rest => closeBounds reading low none rest
  | text => do
    let (high, rest) ← decimal false text
    match high, rest with
    | some high, '}' :: rest => closeBounds reading low (some high) rest
    | _, _ => .error .repetitionBounds

/-- A repetition with bounds, behind the first number. -/
private def boundsBehind (reading : PatternReading) (low : Option Nat) (text : List Char) :
    Except PatternError (PatternReading × List Char) :=
  match low with
  | none => .error .repetitionBounds
  | some low =>
    match text with
    | '}' :: rest => closeBounds reading low (some low) rest
    | ',' :: rest => boundsBehindComma reading low rest
    | _ => .error .repetitionBounds

private theorem readBounds_of_terse (terse : reading.flags.verbose = false) (text : List Char) :
    reading.readBounds text = (do
      let (low, rest) ← decimal false text
      boundsBehind reading low rest) := by
  unfold readBounds
  rw [terse]
  rfl

private theorem takesQuiet_closeBounds {min : Nat} {max : Option Nat}
    (made : closeBounds reading min max text = .ok (after, rest)) :
    after.names = reading.names ∧
      TakesQuiet (closeBounds reading.nameless min max) text rest after.nameless := by
  have bounded : forall limit, max = some limit -> ¬ limit < min := by
    rintro limit rfl few
    have failed : closeBounds reading min (some limit) text = .error .repetitionBounds := if_pos few
    rw [failed] at made
    cases made
  have closes : forall (reading : PatternReading) (text : List Char),
      closeBounds reading min max text = repeatMarked reading min max text := by
    intro reading text
    cases max with
    | none => rfl
    | some limit => exact if_neg (bounded limit rfl)
  rw [closes] at made
  rw [funext (closes reading.nameless)]
  exact takesQuiet_repeatMarked made

private theorem takesQuiet_boundsBehindComma {low : Nat}
    (made : boundsBehindComma reading low text = .ok (after, rest)) :
    after.names = reading.names ∧
      TakesQuiet (boundsBehindComma reading.nameless low) text rest after.nameless := by
  by_cases closes : text.head? = some '}'
  · rcases List.head?_eq_some_iff.mp closes with ⟨text, rfl⟩
    have closed : closeBounds reading low none text = .ok (after, rest) := made
    rcases takesQuiet_closeBounds closed with ⟨names, taken⟩
    exact ⟨names, .cons '}' (by decide) taken⟩
  · have numbered : forall (reading : PatternReading) other, SameFront text other ->
        boundsBehindComma reading low other = (do
          let (high, rest) ← decimal false other
          match high, rest with
          | some high, '}' :: rest => closeBounds reading low (some high) rest
          | _, _ => .error .repetitionBounds) := by
      intro reading other front
      rw [front.head?_eq] at closes
      unfold boundsBehindComma
      split
      · exact (closes rfl).elim
      · rfl
    rw [numbered reading text (.same text)] at made
    rcases of_bind_eq_ok made with ⟨⟨high, middle⟩, read, later⟩
    dsimp only at later
    split at later
    next high middle =>
      rcases takesQuiet_closeBounds later with ⟨names, taken⟩
      refine ⟨names, TakesQuiet.congr ?_ (numbered reading.nameless)⟩
      exact (takesQuiet_decimal read).bind (.cons '}' (by decide) taken)
    · cases later

private theorem takesQuiet_readBounds (terse : reading.flags.verbose = false)
    (made : reading.readBounds text = .ok (after, rest)) :
    after.names = reading.names ∧
      TakesQuiet reading.nameless.readBounds text rest after.nameless := by
  rw [readBounds_of_terse terse] at made
  rcases of_bind_eq_ok made with ⟨⟨low, middle⟩, read, later⟩
  have behind : after.names = reading.names ∧
      TakesQuiet (boundsBehind reading.nameless low) middle rest after.nameless := by
    cases low with
    | none => cases later
    | some low =>
        unfold boundsBehind at later
        dsimp only at later
        split at later
        next middle =>
          rcases takesQuiet_closeBounds later with ⟨names, taken⟩
          exact ⟨names, .cons '}' (by decide) taken⟩
        next middle =>
          rcases takesQuiet_boundsBehindComma later with ⟨names, taken⟩
          exact ⟨names, .cons ',' (by decide) taken⟩
        · cases later
  have still : reading.nameless.flags.verbose = false := terse
  exact ⟨behind.1, ((takesQuiet_decimal read).bind behind.2).congr fun other _ =>
    readBounds_of_terse still other⟩

/-! ## Opening parentheses -/

/-- What stands behind the parenthesis of a group that has a name, and what opening it does. -/
def OpensNamed (reading : PatternReading) (text rest : List Char) (after : PatternReading) : Prop :=
  Exists fun mark => Exists fun name => (mark = ['?', 'P', '<'] ∨ mark = ['?', '<']) ∧
    text = mark ++ (name ++ '>' :: rest) ∧ '>' ∉ name ∧
    after = { reading.openNumbered with names := String.ofList name :: reading.names }

/-- A group that is opened by its name. -/
private def openNamed (reading : PatternReading) (text : List Char) :
    Except PatternError (PatternReading × List Char) := do
  let (letters, rest) ← groupName true text
  let name := String.ofList letters
  if name ∈ reading.names then .error (.duplicateGroupName name)
  else return ({ reading.openNumbered with names := name :: reading.names }, rest)

/-- What follows a question mark that is not the mark of a name, with the flags there. -/
private def openFlags (reading : PatternReading) (text : List Char) :
    Except PatternError (PatternReading × List Char) := do
  let (flags, unchanged, fin, rest) ← readFlags reading.flags [] false false text
  if fin = ':' then return (reading.openGroup none flags, rest)
  else if unchanged then .error .missingOperand
  else return ({ reading with flags }.add .modes, rest)

private theorem exists_openNamed (made : reading.openNamed text = .ok (after, rest)) :
    Exists fun name => text = name ++ '>' :: rest ∧ '>' ∉ name ∧
      after = { reading.openNumbered with names := String.ofList name :: reading.names } := by
  rcases of_bind_eq_ok made with ⟨⟨name, remaining⟩, read, later⟩
  dsimp only at later
  split at later
  · cases later
  · cases later
    rcases groupName_eq read with ⟨same, unclosed⟩
    exact ⟨name, same, unclosed, rfl⟩

private theorem exists_openFlags (made : reading.openFlags text = .ok (after, rest)) :
    after.names = reading.names ∧ Exists fun taken => text = taken ++ rest ∧ QuietText taken ∧
      forall other, reading.nameless.openFlags (taken ++ other) = .ok (after.nameless, other) := by
  rcases of_bind_eq_ok made with ⟨⟨flags, unchanged, fin, remaining⟩, read, later⟩
  rcases exists_readFlags read with ⟨taken, divides, quiet, anywhere⟩
  have opened : forall other, reading.nameless.openFlags (taken ++ other) =
      if fin = ':' then .ok (reading.nameless.openGroup none flags, other)
      else if unchanged then .error .missingOperand
      else .ok ({ reading.nameless with flags }.add .modes, other) := by
    intro other
    unfold openFlags
    rw [show reading.nameless.flags = reading.flags from rfl, anywhere]
    rfl
  dsimp only at later
  split at later
  next colon =>
    cases later
    exact ⟨rfl, taken, divides, quiet, fun other => (opened other).trans (if_pos colon)⟩
  next parenthesis =>
    split at later
    · cases later
    next changed =>
      cases later
      exact ⟨rfl, taken, divides, quiet, fun other =>
        (opened other).trans ((if_neg parenthesis).trans (if_neg changed))⟩

theorem beginGroup_of_unmarked (terse : reading.flags.verbose = false)
    (unmarked : text.head? ≠ some '?') : reading.beginGroup text = .ok (reading.openNumbered, text) := by
  unfold beginGroup
  rw [terse, skipBlanks_false]
  split
  case h_8 => rfl
  all_goals exact (unmarked rfl).elim

private theorem beginGroup_flags (terse : reading.flags.verbose = false) {c : Char}
    (others : c ∉ ['=', '!', '<', 'P']) (text : List Char) :
    reading.beginGroup ('?' :: c :: text) = reading.openFlags (c :: text) := by
  unfold beginGroup
  rw [terse, skipBlanks_false]
  split
  case h_7 same =>
    cases same
    rfl
  case h_8 noMark => exact (noMark (c :: text) rfl).elim
  all_goals
    next same =>
      cases same
      exact absurd (by decide) others

private theorem beginGroup_cases (terse : reading.flags.verbose = false)
    (made : reading.beginGroup text = .ok (after, rest)) :
    (text.head? ≠ some '?' ∧ after = reading.openNumbered ∧ rest = text) ∨
      OpensNamed reading text rest after ∨
      Exists fun c => Exists fun flags => text = '?' :: c :: flags ∧ c ∉ ['=', '!', '<', 'P'] ∧
        reading.openFlags (c :: flags) = .ok (after, rest) := by
  unfold beginGroup at made
  rw [terse, skipBlanks_false] at made
  split at made
  case h_5 name =>
    rcases exists_openNamed made with ⟨letters, rfl, unclosed, opened⟩
    exact .inr (.inl ⟨['?', 'P', '<'], letters, .inl rfl, rfl, unclosed, opened⟩)
  case h_6 name _ _ =>
    rcases exists_openNamed made with ⟨letters, rfl, unclosed, opened⟩
    exact .inr (.inl ⟨['?', '<'], letters, .inr rfl, rfl, unclosed, opened⟩)
  case h_7 flags noEquals noMark _ _ noLong noShort =>
    have opened : reading.openFlags flags = .ok (after, rest) := made
    cases flags with
    | nil => cases opened
    | cons c flags =>
        refine .inr (.inr ⟨c, flags, rfl, fun member => ?_, opened⟩)
        rcases List.mem_cons.mp member with rfl | member
        · exact noEquals flags rfl
        rcases List.mem_cons.mp member with rfl | member
        · exact noMark flags rfl
        rcases List.mem_cons.mp member with rfl | member
        · exact noShort flags rfl
        · cases List.mem_singleton.mp member
          cases opened
  case h_8 noMark =>
    cases made
    refine .inl ⟨fun marked => ?_, rfl, rfl⟩
    rcases List.head?_eq_some_iff.mp marked with ⟨flags, rfl⟩
    exact noMark flags rfl
  all_goals cases made

/-! ## One step -/

/-- The step opens no group with a name.  What it takes leads a reader that has seen no names to the same
place, in front of every text that begins like the rest. -/
def Continues (reading : PatternReading) (c : Char) (text rest : List Char) (after : PatternReading) :
    Prop :=
  after.names = reading.names ∧ Exists fun taken => StepText (c :: taken) rest ∧
    Takes (reading.nameless.next c) text rest after.nameless taken

/-- A step that takes a quiet piece behind a quiet character. -/
private theorem Continues.of_quiet {c : Char} (quiet : Quiet c) (names : after.names = reading.names)
    (taken : TakesQuiet (reading.nameless.next c) text rest after.nameless) :
    Continues reading c text rest after := by
  rcases taken with ⟨taken, takes, others⟩
  exact ⟨names, taken, .quiet _ rest (others.cons quiet), takes⟩

private theorem continues_repeat {c : Char} {min : Nat} {max : Option Nat} (quiet : Quiet c)
    (operates : forall reading : PatternReading, reading.next c = reading.repeatMarked min max)
    (made : reading.next c text = .ok (after, rest)) : Continues reading c text rest after := by
  rw [operates] at made
  rcases takesQuiet_repeatMarked made with ⟨names, taken⟩
  exact .of_quiet quiet names (operates reading.nameless ▸ taken)

/-- A step that looks at nothing behind its character. -/
private theorem continues_single {c : Char} (quiet : Quiet c)
    (names : after.names = reading.names)
    (nameless : forall other, reading.nameless.next c other = .ok (after.nameless, other)) :
    Continues reading c text text after :=
  .of_quiet quiet names (.none fun other _ => nameless other)

private theorem next_open (terse : reading.flags.verbose = false)
    (made : reading.next '(' text = .ok (after, rest)) :
    OpensNamed reading text rest after ∨ Continues reading '(' text rest after := by
  have still : reading.nameless.flags.verbose = false := terse
  rcases beginGroup_cases terse made with ⟨unmarked, rfl, rfl⟩ | named | ⟨c, flags, rfl, others, opened⟩
  · refine .inr ⟨rfl, [], .group rest unmarked, rfl, fun other front => ?_⟩
    rw [front.head?_eq] at unmarked
    exact beginGroup_of_unmarked still unmarked
  · exact .inl named
  · rcases exists_openFlags opened with ⟨names, taken, divides, quiet, anywhere⟩
    cases taken with
    | nil =>
        -- Without a text, there are no flags to be read.
        have impossible := anywhere []
        cases impossible
    | cons first taken =>
        cases divides
        refine .inr ⟨names, '?' :: c :: taken, ?_, rfl, fun other _ => ?_⟩
        · refine .flags c taken rest quiet ?_ ?_
          · rintro rfl
            exact others (by decide)
          · rintro rfl
            exact others (by decide)
        · exact (beginGroup_flags still others _).trans (anywhere other)

private theorem next_close (made : reading.next ')' text = .ok (after, rest)) :
    Continues reading ')' text rest after := by
  rcases of_bind_eq_ok made with ⟨closed, known, same⟩
  cases same
  rcases closeGroup_nameless known with ⟨names, nameless⟩
  refine continues_single (by decide) names fun other => ?_
  exact congrArg (· >>= fun reading => pure (reading, other)) nameless

private theorem next_set (terse : reading.flags.verbose = false)
    (paired : forall piece, piece ∈ bracketedPieces reading.flags text -> Paired piece)
    (made : reading.next '[' text = .ok (after, rest)) : Continues reading '[' text rest after := by
  rcases of_bind_eq_ok made with ⟨⟨member, remaining⟩, read, same⟩
  cases same
  rcases exists_bracketed terse read with ⟨opening, inside, takes, begins, turns⟩
  refine ⟨rfl, opening ++ inside, .set opening inside rest begins (turns paired), takes.divides,
    fun other front => ?_⟩
  exact congrArg (· >>= fun found =>
    pure (reading.nameless.add ⟨.one found.1.members, found.1.depth, true⟩, found.2))
    (takes.anywhere other front)

private theorem next_escape (terse : reading.flags.verbose = false)
    (made : reading.next '\\' text = .ok (after, rest)) : Continues reading '\\' text rest after := by
  rcases of_bind_eq_ok made with ⟨⟨atom, remaining⟩, read, later⟩
  rcases of_bind_eq_ok later with ⟨expr, known, same⟩
  cases same
  rw [terse] at read
  rcases exists_escape read with ⟨c, taken, takes, quiet⟩
  refine ⟨rfl, c :: taken, .escape c taken rest quiet, takes.divides, fun other front => ?_⟩
  have still : escape reading.nameless.flags.verbose (c :: taken ++ other) = .ok (atom, other) := by
    rw [show reading.nameless.flags.verbose = false from terse]
    exact takes.anywhere other front
  refine (congrArg (· >>= fun found => do
    return (reading.nameless.addExpr (← exprOfAtom reading.flags found.1), found.2)) still).trans ?_
  exact congrArg (· >>= fun expr => pure (reading.nameless.addExpr expr, other)) known

private theorem next_dot (made : reading.next '.' text = .ok (after, rest)) :
    Continues reading '.' text rest after := by
  rcases of_bind_eq_ok made with ⟨members, known, same⟩
  cases same
  refine continues_single (by decide) rfl fun other => ?_
  exact congrArg (· >>= fun members => pure (reading.nameless.addExpr (.one members), other)) known

/-- The characters that a pattern does not match by themselves. -/
private def operators : List Char :=
  ['(', ')', '|', '[', '?', '*', '+', '{', '\\', '.', '^', '$']

private theorem next_of_literal {c : Char} (literal : c ∉ operators) (reading : PatternReading)
    (text : List Char) :
    reading.next c text = (do
      let expr ← exprOfAtom reading.flags (.literal c false)
      return (reading.addExpr expr, text)) := by
  unfold next
  split
  case h_13 => rfl
  all_goals exact absurd (by decide) literal

private theorem next_literal {c : Char} (literal : c ∉ operators)
    (made : reading.next c text = .ok (after, rest)) : Continues reading c text rest after := by
  rw [next_of_literal literal] at made
  rcases of_bind_eq_ok made with ⟨expr, known, same⟩
  cases same
  have nameless : forall other,
      reading.nameless.next c other = .ok ((reading.addExpr expr).nameless, other) := by
    intro other
    rw [next_of_literal literal]
    exact congrArg (· >>= fun expr => pure (reading.nameless.addExpr expr, other)) known
  refine ⟨rfl, [], ?_, rfl, fun other _ => nameless other⟩
  by_cases bracket : c = ']'
  · rw [bracket]
    exact .bracket text
  · refine .quiet [c] text (.single fun loud => ?_)
    rcases List.mem_cons.mp loud with rfl | loud
    · exact literal (by decide)
    rcases List.mem_cons.mp loud with rfl | loud
    · exact literal (by decide)
    rcases List.mem_cons.mp loud with rfl | loud
    · exact bracket rfl
    · exact literal (List.mem_singleton.mp loud ▸ by decide)

/-- A step opens a group by its name, or what it takes leads a reader that has seen no names to the same
place. -/
theorem next_cases {c : Char} (terse : reading.flags.verbose = false)
    (paired : PatternStep.Paired ⟨reading, c :: text, after, rest⟩)
    (made : reading.next c text = .ok (after, rest)) :
    (c = '(' ∧ OpensNamed reading text rest after) ∨ Continues reading c text rest after := by
  by_cases literal : c ∉ operators
  · exact .inr (next_literal literal made)
  have operator := not_not.mp literal
  simp only [operators, List.mem_cons, List.not_mem_nil, or_false] at operator
  rcases operator with rfl | rfl | rfl | rfl | rfl | rfl | rfl | rfl | rfl | rfl | rfl | rfl
  · exact (next_open terse made).imp_left fun named => ⟨rfl, named⟩
  · exact .inr (next_close made)
  · cases made
    exact .inr (continues_single (by decide) rfl fun _ => rfl)
  · exact .inr (next_set terse paired made)
  · exact .inr (continues_repeat (by decide) (fun _ => rfl) made)
  · exact .inr (continues_repeat (by decide) (fun _ => rfl) made)
  · exact .inr (continues_repeat (by decide) (fun _ => rfl) made)
  · rcases takesQuiet_readBounds terse made with ⟨names, taken⟩
    exact .inr (.of_quiet (by decide) names taken)
  · exact .inr (next_escape terse made)
  · exact .inr (next_dot made)
  · cases made
    exact .inr (continues_single (by decide) rfl fun _ => rfl)
  · cases made
    exact .inr (continues_single (by decide) rfl fun _ => rfl)

end PatternReading
end ShiftReduce
