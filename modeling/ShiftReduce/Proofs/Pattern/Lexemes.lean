import Mathlib.Data.List.TakeWhile
import ShiftReduce.Pattern.Lexeme
import ShiftReduce.Proofs.Fallible
import ShiftReduce.Proofs.Pattern.ClassNames

namespace ShiftReduce
namespace PatternLexeme

/-!
# Where escapes, numbers and flags end

Each of the smallest parts of a pattern is a quiet piece of its text, apart from the character behind a
backslash, and is read in the same way wherever it stands.  White space counts everywhere here.

The bounds of the readers are met by the length of what they take, so they do not matter.
-/

theorem skipBlanks_false (text : List Char) : skipBlanks false text = text := rfl

/-! ## Characters by number -/

private theorem quiet_of_hexDigit? {c : Char} {digit : Nat} (known : hexDigit? c = some digit) :
    Quiet c :=
  quiet_of_class (fun c => (hexDigit? c).isSome) c (by rw [known]; rfl) (by decide)

private theorem takesQuiet_fixedHex {count value code : Nat} {text rest : List Char}
    (made : fixedHex false count value text = .ok (code, rest)) :
    TakesQuiet (fixedHex false count value) text rest code := by
  induction count generalizing value text with
  | zero =>
      cases made
      exact .none fun _ _ => rfl
  | succ count inductionHypothesis =>
      cases text with
      | nil => cases made
      | cons c text =>
          rw [fixedHex] at made
          split at made
          · cases made
          next digit known =>
            refine .cons c (quiet_of_hexDigit? known) ?_
            simp only [fixedHex, known]
            exact inductionHypothesis made

private theorem exists_bracedHex {bound count value code : Nat} {text rest : List Char}
    (made : bracedHex false bound count value text = .ok (code, rest)) :
    Exists fun taken => text = taken ++ rest ∧ QuietText taken ∧
      forall larger other, taken.length ≤ larger ->
        bracedHex false larger count value (taken ++ other) = .ok (code, other) := by
  induction bound generalizing count value text with
  | zero => cases made
  | succ bound inductionHypothesis =>
      rw [bracedHex, skipBlanks_false] at made
      split at made
      · cases made
      · split at made
        · cases made
        next counted =>
          cases made
          refine ⟨['}'], rfl, by decide, fun larger other enough => ?_⟩
          obtain ⟨larger, rfl⟩ := Nat.exists_eq_succ_of_ne_zero (Nat.ne_of_gt enough)
          exact if_neg counted
      next c text notBrace =>
        split at made
        · cases made
        next digit known =>
          rcases inductionHypothesis made with ⟨taken, rfl, quiet, anywhere⟩
          refine ⟨c :: taken, rfl, quiet.cons (quiet_of_hexDigit? known), ?_⟩
          intro larger other enough
          obtain ⟨larger, rfl⟩ := Nat.exists_eq_succ_of_ne_zero
            (Nat.ne_of_gt (Nat.lt_of_lt_of_le (Nat.succ_pos _) enough))
          rw [List.cons_append, bracedHex, skipBlanks_false]
          simp only [known]
          exact anywhere larger other (Nat.le_of_succ_le_succ enough)

private theorem hexEscape_of_unbraced (letter : Char) {text : List Char}
    (unbraced : text.head? ≠ some '{') :
    hexEscape false letter text =
      (fixedHex false (if letter = 'x' then 2 else if letter = 'u' then 4 else 8) 0 text >>=
        fun found => character found.1 >>= fun c => .ok (.literal c (letter = 'x'), found.2)) := by
  unfold hexEscape
  dsimp only
  rw [skipBlanks_false]
  split
  · exact (unbraced rfl).elim
  · rfl

/-- A character by its number, in braces or with a fixed number of digits. -/
private theorem takesQuiet_hexEscape {letter : Char} {atom : Atom} {text rest : List Char}
    (made : hexEscape false letter text = .ok (atom, rest)) :
    TakesQuiet (hexEscape false letter) text rest atom := by
  by_cases braced : text.head? = some '{'
  · rcases List.head?_eq_some_iff.mp braced with ⟨inside, rfl⟩
    rcases of_bind_eq_ok made with ⟨⟨code, middle⟩, digits, remaining⟩
    rcases of_bind_eq_ok remaining with ⟨c, known, same⟩
    cases same
    rcases exists_bracedHex digits with ⟨taken, same, quiet, anywhere⟩
    refine ⟨'{' :: taken, ⟨congrArg ('{' :: ·) same, fun other _ => ?_⟩,
      quiet.cons (by decide)⟩
    have enough : taken.length ≤ (taken ++ other).length + 1 := by
      rw [List.length_append]
      omega
    change (bracedHex false ((taken ++ other).length + 1) 0 0 (taken ++ other) >>= _) = _
    rw [anywhere _ other enough]
    change (character code >>= _) = _
    rw [known]
    rfl
  · rw [hexEscape_of_unbraced letter braced] at made
    rcases of_bind_eq_ok made with ⟨⟨code, middle⟩, digits, remaining⟩
    rcases of_bind_eq_ok remaining with ⟨c, known, same⟩
    cases same
    refine TakesQuiet.congr ?_ fun other front =>
      hexEscape_of_unbraced letter (front.head?_eq ▸ braced)
    refine (takesQuiet_fixedHex digits).bind (.none fun other _ => ?_)
    change (character code >>= _) = _
    rw [known]
    rfl

/-! ## Classes by name -/

private theorem exists_bracedName {bound : Nat} {name text rest : List Char}
    (made : bracedName false bound text = .ok (name, rest)) :
    text = name ++ '}' :: rest ∧ forall larger other, name.length < larger ->
      bracedName false larger (name ++ '}' :: other) = .ok (name, other) := by
  induction bound generalizing name text with
  | zero => cases made
  | succ bound inductionHypothesis =>
      rw [bracedName, skipBlanks_false] at made
      split at made
      · cases made
      · cases made
        refine ⟨rfl, fun larger other enough => ?_⟩
        obtain ⟨larger, rfl⟩ := Nat.exists_eq_succ_of_ne_zero (Nat.ne_of_gt enough)
        rfl
      next c text notBrace =>
        rcases of_bind_eq_ok made with ⟨⟨later, middle⟩, remaining, same⟩
        cases same
        rcases inductionHypothesis remaining with ⟨rfl, anywhere⟩
        refine ⟨rfl, fun larger other enough => ?_⟩
        obtain ⟨larger, rfl⟩ := Nat.exists_eq_succ_of_ne_zero
          (Nat.ne_of_gt (Nat.lt_of_le_of_lt (Nat.zero_le _) enough))
        rw [List.cons_append, bracedName, skipBlanks_false]
        simp only [anywhere larger other (Nat.lt_of_succ_lt_succ enough)]
        rfl

theorem splitAt?_eq {mark text before after : List Char}
    (split : splitAt? mark text = some (before, after)) : text = before ++ mark ++ after := by
  induction text generalizing before with
  | nil => cases split
  | cons c text inductionHypothesis =>
      rw [splitAt?] at split
      split at split
      next found =>
        cases split
        rcases List.isPrefixOf_iff_prefix.mp found with ⟨others, same⟩
        rw [List.nil_append, ← same, List.drop_left]
      · rcases Option.map_eq_some_iff.mp split with ⟨⟨front, back⟩, later, same⟩
        cases same
        rw [inductionHypothesis later]
        rfl

private theorem quiet_namedClass {negated : Bool} {name : List Char} {atom : Atom}
    (made : namedClass negated name = .ok atom) : QuietText name := by
  have valued : forall (mark : List Char) (parts : List Char × List Char) members,
      QuietText mark -> splitAt? mark name = some parts ->
      ClassName.lookupValue (String.ofList parts.1) (String.ofList parts.2) = .ok members ->
      QuietText name := by
    intro mark parts members quietMark split found
    have quiet := ClassName.quiet_of_lookupValue found
    rw [String.toList_ofList, String.toList_ofList] at quiet
    rw [splitAt?_eq split]
    exact (quiet.1.append quietMark).append quiet.2
  unfold namedClass at made
  dsimp only at made
  split at made
  next parts split =>
    rcases of_bind_eq_ok made with ⟨members, found, _⟩
    exact valued _ parts members (by decide) split found
  · split at made
    next parts split =>
      rcases of_bind_eq_ok made with ⟨members, found, _⟩
      rcases Option.or_eq_some_iff.mp split with colon | ⟨_, equals⟩
      · exact valued _ parts members (by decide) colon found
      · exact valued _ parts members (by decide) equals found
    · rcases of_bind_eq_ok made with ⟨members, found, _⟩
      have quiet := ClassName.quiet_of_lookup found
      rwa [String.toList_ofList] at quiet

/-- A class by its Unicode name, in braces or with one letter. -/
private theorem takesQuiet_propertyEscape {negated : Bool} {atom : Atom} {text rest : List Char}
    (made : propertyEscape false negated text = .ok (atom, rest)) :
    TakesQuiet (propertyEscape false negated) text rest atom := by
  unfold propertyEscape at made
  rw [skipBlanks_false] at made
  split at made
  · cases made
  next inside =>
    rcases of_bind_eq_ok made with ⟨⟨name, middle⟩, braced, remaining⟩
    rcases of_bind_eq_ok remaining with ⟨found, known, same⟩
    cases same
    rcases exists_bracedName braced with ⟨rfl, anywhere⟩
    refine ⟨'{' :: (name ++ ['}']), ⟨by simp [skipBlanks_false], fun other _ => ?_⟩, ?_⟩
    · have enough : name.length < (name ++ '}' :: other).length + 1 := by
        rw [List.length_append]
        omega
      rw [List.cons_append, List.append_assoc, List.singleton_append]
      change (bracedName false ((name ++ '}' :: other).length + 1) (name ++ '}' :: other) >>= _) = _
      rw [anywhere _ other enough]
      change (namedClass negated name >>= _) = _
      rw [known]
      rfl
    · exact ((quiet_namedClass known).append (by decide)).cons (by decide)
  · cases made
  next c inside notBrace notBackslash =>
    rcases of_bind_eq_ok made with ⟨found, known, same⟩
    cases same
    have quiet := ClassName.quiet_of_lookup known c (by simp)
    refine ⟨[c], ⟨rfl, fun other _ => ?_⟩, .single quiet⟩
    unfold propertyEscape
    rw [skipBlanks_false, List.singleton_append]
    split
    case h_4 same =>
      cases same
      rw [known]
      rfl
    case h_1 same => cases same
    case h_2 same =>
      cases same
      exact (notBrace rfl).elim
    case h_3 same =>
      cases same
      exact (notBackslash rfl).elim

/-! ## Word boundaries -/

private theorem boundaryName_eq {text name rest : List Char}
    (read : boundaryName false text = (name, rest)) :
    text = name ++ rest ∧ (forall c, c ∈ name -> (c.isAlpha || c = '-') = true) := by
  induction text generalizing name with
  | nil =>
      cases read
      exact ⟨rfl, fun _ impossible => (List.not_mem_nil impossible).elim⟩
  | cons c text inductionHypothesis =>
      rw [boundaryName] at read
      split at read
      next letter =>
        cases read
        rcases inductionHypothesis rfl with ⟨same, letters⟩
        exact ⟨congrArg (c :: ·) same, List.forall_mem_cons.mpr ⟨letter, letters⟩⟩
      · rw [if_neg (fun both => Bool.false_ne_true both.1)] at read
        cases read
        exact ⟨rfl, fun _ impossible => (List.not_mem_nil impossible).elim⟩

private theorem boundaryName_append {name : List Char}
    (letters : forall c, c ∈ name -> (c.isAlpha || c = '-') = true) (rest : List Char) :
    boundaryName false (name ++ '}' :: rest) = (name, '}' :: rest) := by
  induction name with
  | nil => rfl
  | cons c name inductionHypothesis =>
      rw [List.cons_append, boundaryName, if_pos (letters c List.mem_cons_self),
        inductionHypothesis fun other member => letters other (List.mem_cons_of_mem c member)]

private theorem boundaryEscape_of_unbraced {text : List Char} (unbraced : text.head? ≠ some '{') :
    boundaryEscape false text = .ok (.assertion .boundary, text) := by
  unfold boundaryEscape
  split
  · exact (unbraced rfl).elim
  · rfl

private theorem boundaryEscape_letter {c : Char} (letter : (c.isAlpha || c = '-') = true)
    (inside : List Char) :
    boundaryEscape false ('{' :: c :: inside) =
      match boundaryName false (c :: inside) with
      | (name, '}' :: rest) =>
        match String.ofList name with
        | "start" => .ok (.assertion .wordStart, rest)
        | "end" => .ok (.assertion .wordEnd, rest)
        | "start-half" => .ok (.assertion .wordStartHalf, rest)
        | "end-half" => .ok (.assertion .wordEndHalf, rest)
        | _ => .error .escape
      | _ => .error .escape := if_pos letter

/-- A boundary that is named in braces is the same whatever follows. -/
private theorem exists_boundary {c : Char} {inside : List Char} {atom : Atom} {rest : List Char}
    (letter : (c.isAlpha || c = '-') = true)
    (made : boundaryEscape false ('{' :: c :: inside) = .ok (atom, rest)) :
    Exists fun name => c :: inside = name ++ '}' :: rest ∧ QuietText name ∧
      forall other, boundaryEscape false ('{' :: (name ++ '}' :: other)) = .ok (atom, other) := by
  rw [boundaryEscape_letter letter] at made
  split at made
  next name others read =>
    rcases boundaryName_eq read with ⟨same, letters⟩
    have quiet : QuietText name := fun other member =>
      quiet_of_class (fun c => c.isAlpha || c = '-') other (letters other member)
        (by decide)
    have opened : forall other, boundaryEscape false ('{' :: (name ++ '}' :: other)) =
        match String.ofList name with
        | "start" => .ok (.assertion .wordStart, other)
        | "end" => .ok (.assertion .wordEnd, other)
        | "start-half" => .ok (.assertion .wordStartHalf, other)
        | "end-half" => .ok (.assertion .wordEndHalf, other)
        | _ => .error .escape := by
      intro other
      cases name with
      | nil =>
          cases same
          cases letter
      | cons first name =>
          rw [List.cons_append, boundaryEscape_letter (letters first List.mem_cons_self),
            ← List.cons_append, boundaryName_append letters]
          rfl
    split at made
    case h_5 => cases made
    all_goals
      next named =>
        cases made
        refine ⟨name, same, quiet, fun other => ?_⟩
        rw [opened, named]
        rfl
  · cases made

/-- A word boundary, which has a name in braces or nothing. -/
private theorem takesQuiet_boundaryEscape {atom : Atom} {text rest : List Char}
    (made : boundaryEscape false text = .ok (atom, rest)) :
    TakesQuiet (boundaryEscape false) text rest atom := by
  by_cases braced : text.head? = some '{'
  · rcases List.head?_eq_some_iff.mp braced with ⟨inside, rfl⟩
    cases inside with
    | nil => cases made
    | cons c inside =>
        by_cases letter : (c.isAlpha || c = '-') = true
        · rcases exists_boundary letter made with ⟨name, same, quiet, anywhere⟩
          refine ⟨'{' :: (name ++ ['}']), ⟨?_, fun other _ => ?_⟩, ?_⟩
          · rw [same, List.cons_append, List.append_assoc, List.singleton_append]
          · rw [List.cons_append, List.append_assoc, List.singleton_append]
            exact anywhere other
          · exact (quiet.append (by decide)).cons (by decide)
        · -- The braces are left for a repetition.
          have unnamed : forall others, boundaryEscape false ('{' :: c :: others) =
              .ok (.assertion .boundary, '{' :: c :: others) := fun others => if_neg letter
          rw [unnamed] at made
          cases made
          refine .none fun other front => ?_
          rcases front.exists_tail with ⟨tail, rfl, later⟩
          rcases (later (by decide)).exists_tail with ⟨others, rfl, _⟩
          exact unnamed others
  · rw [boundaryEscape_of_unbraced braced] at made
    cases made
    refine .none fun other front => boundaryEscape_of_unbraced ?_
    rwa [← front.head?_eq]

/-- What is taken behind a backslash is a character of any kind and then a quiet piece. -/
theorem exists_escape {atom : Atom} {text rest : List Char}
    (made : escape false text = .ok (atom, rest)) :
    Exists fun c => Exists fun taken =>
      Takes (escape false) text rest atom (c :: taken) ∧ QuietText taken := by
  cases text with
  | nil => cases made
  | cons c text =>
      have quietly : TakesQuiet (fun text => escape false (c :: text)) text rest atom := by
        unfold escape at made
        dsimp only at made
        split at made
        next number => exact (takesQuiet_hexEscape made).congr fun _ _ => if_pos number
        next noNumber =>
          split at made
          next property =>
            exact (takesQuiet_propertyEscape made).congr fun _ _ =>
              (if_neg noNumber).trans (if_pos property)
          next noProperty =>
            split at made
            next boundary =>
              exact (takesQuiet_boundaryEscape made).congr fun _ _ =>
                (if_neg noNumber).trans ((if_neg noProperty).trans (if_pos boundary))
            next noBoundary =>
              split at made
              next known =>
                cases made
                refine .none fun other _ => ?_
                refine (if_neg noNumber).trans ((if_neg noProperty).trans
                  ((if_neg noBoundary).trans ?_))
                rw [known]
              · cases made
      rcases quietly with ⟨taken, takes, quiet⟩
      exact ⟨c, taken, ⟨congrArg (c :: ·) takes.divides, takes.anywhere⟩, quiet⟩

/-! ## Numbers -/

private theorem exists_digits {value count total number : Nat} {text rest : List Char}
    (read : digits false value count text = (total, number, rest)) :
    Exists fun taken => text = taken ++ rest ∧ QuietText taken ∧
      forall other, SameFront rest other ->
        digits false value count (taken ++ other) = (total, number, other) := by
  induction text generalizing value count with
  | nil =>
      cases read
      refine ⟨[], rfl, by decide, fun other front => ?_⟩
      rw [front.eq_nil]
      rfl
  | cons c text inductionHypothesis =>
      rw [digits] at read
      split at read
      next digit =>
        rcases inductionHypothesis read with ⟨taken, same, quiet, anywhere⟩
        refine ⟨c :: taken, congrArg (c :: ·) same,
          quiet.cons (quiet_of_class _ c digit (by decide)), ?_⟩
        intro other front
        rw [List.cons_append, digits, if_pos digit]
        exact anywhere other front
      next noDigit =>
        rw [if_neg (fun both => Bool.false_ne_true both.1)] at read
        cases read
        refine ⟨[], rfl, by decide, fun other front => ?_⟩
        rcases front.exists_tail with ⟨tail, rfl, _⟩
        rw [List.nil_append, digits, if_neg noDigit, if_neg (fun both => Bool.false_ne_true both.1)]

private theorem dropWhile_append_of_front {members : Char -> Bool} {text other : List Char}
    (front : SameFront (text.dropWhile members) other) :
    (text.takeWhile members ++ other).dropWhile members = other := by
  rw [List.dropWhile_append_of_pos fun c member => List.mem_takeWhile_imp member]
  cases other with
  | nil => rfl
  | cons c other =>
      have outside := List.head?_dropWhile_not members text
      rw [front.head?_eq] at outside
      exact List.dropWhile_cons_of_neg (Bool.eq_false_iff.mp outside)

private theorem quiet_spaces (text : List Char) : QuietText (text.takeWhile Unicode.isWhitespace) :=
  fun c member => quiet_of_class _ c (List.mem_takeWhile_imp member) (by decide)

/-- What a number is read as, once its digits have been found. -/
private theorem decimal_of_digits {text rest : List Char} {total number : Nat}
    (read : digits false 0 0 (text.dropWhile Unicode.isWhitespace) = (total, number, rest)) :
    decimal false text =
      if number = 0 then .ok (none, rest.dropWhile Unicode.isWhitespace)
      else if boundLimit < total then .error .repetitionBounds
      else .ok (some total, rest.dropWhile Unicode.isWhitespace) := by
  unfold decimal
  rw [read]
  rfl

/-- A number with white space around it. -/
theorem takesQuiet_decimal {value : Option Nat} {text rest : List Char}
    (made : decimal false text = .ok (value, rest)) :
    TakesQuiet (decimal false) text rest value := by
  cases read : digits false 0 0 (text.dropWhile Unicode.isWhitespace) with
  | mk total remaining =>
      rcases remaining with ⟨number, middle⟩
      rw [decimal_of_digits read] at made
      rcases exists_digits read with ⟨taken, same, quiet, anywhere⟩
      have ends : rest = middle.dropWhile Unicode.isWhitespace ∧
          forall other : List Char, (if number = 0 then Except.ok (none, other)
            else if boundLimit < total then .error PatternError.repetitionBounds
            else .ok (some total, other)) = .ok (value, other) := by
        split at made
        next uncounted =>
          cases made
          exact ⟨rfl, fun other => if_pos uncounted⟩
        next counted =>
          split at made
          · cases made
          next small =>
            cases made
            exact ⟨rfl, fun other => (if_neg counted).trans (if_neg small)⟩
      rcases ends with ⟨rfl, value⟩
      refine ⟨text.takeWhile Unicode.isWhitespace ++ (taken ++ middle.takeWhile Unicode.isWhitespace),
        ⟨?_, fun other front => ?_⟩, ?_⟩
      · rw [List.append_assoc, List.append_assoc, List.takeWhile_append_dropWhile, ← same,
          List.takeWhile_append_dropWhile]
      · have later : SameFront middle (middle.takeWhile Unicode.isWhitespace ++ other) := by
          have all := front.append (middle.takeWhile Unicode.isWhitespace)
          rwa [List.takeWhile_append_dropWhile] at all
        have whole : SameFront (text.dropWhile Unicode.isWhitespace)
            (taken ++ (middle.takeWhile Unicode.isWhitespace ++ other)) := by
          rw [same]
          exact later.append taken
        have again := anywhere _ later
        rw [← dropWhile_append_of_front whole, ← List.append_assoc taken] at again
        rw [List.append_assoc, decimal_of_digits again, dropWhile_append_of_front front]
        exact value other
      · exact (quiet_spaces text).append (quiet.append (quiet_spaces middle))

/-! ## Groups -/

private theorem quiet_of_set? {flags changed : PatternFlags} {c : Char} {value : Bool}
    (known : flags.set? c value = some changed) : Quiet c := by
  unfold PatternFlags.set? at known
  split at known
  case h_8 => cases known
  all_goals decide

/-- Flags are letters and signs up to a colon or a closing parenthesis. -/
theorem exists_readFlags {flags changed : PatternFlags} {seen : List Char}
    {negated dangling unchanged : Bool} {text rest : List Char} {fin : Char}
    (made : readFlags flags seen negated dangling text = .ok (changed, unchanged, fin, rest)) :
    Exists fun taken => text = taken ++ rest ∧ QuietText taken ∧
      forall other, readFlags flags seen negated dangling (taken ++ other) =
        .ok (changed, unchanged, fin, other) := by
  induction text generalizing flags seen negated dangling with
  | nil => cases made
  | cons c text inductionHypothesis =>
      rw [readFlags] at made
      split at made
      next ends =>
        split at made
        · cases made
        next complete =>
          cases made
          refine ⟨[fin], rfl, .single ?_, fun other => ?_⟩
          · rcases ends with rfl | rfl <;> decide
          · rw [List.singleton_append, readFlags, if_pos ends, if_neg complete]
      next goesOn =>
        split at made
        next minus =>
          split at made
          · cases made
          next first =>
            rcases inductionHypothesis made with ⟨taken, rfl, quiet, anywhere⟩
            refine ⟨c :: taken, rfl, quiet.cons (minus ▸ by decide), ?_⟩
            intro other
            rw [List.cons_append, readFlags, if_neg goesOn, if_pos minus, if_neg first]
            exact anywhere other
        next noMinus =>
          split at made
          · cases made
          next unseen =>
            split at made
            next others known =>
              rcases inductionHypothesis made with ⟨taken, rfl, quiet, anywhere⟩
              refine ⟨c :: taken, rfl, quiet.cons (quiet_of_set? known), ?_⟩
              intro other
              rw [List.cons_append, readFlags, if_neg goesOn, if_neg noMinus, if_neg unseen, known]
              exact anywhere other
            · cases made

/-- The name of a group ends with the first angle bracket behind it. -/
theorem groupName_eq {first : Bool} {name text rest : List Char}
    (made : groupName first text = .ok (name, rest)) :
    text = name ++ '>' :: rest ∧ '>' ∉ name := by
  induction text generalizing first name with
  | nil => cases made
  | cons c text inductionHypothesis =>
      rw [groupName] at made
      split at made
      next ends =>
        split at made
        · cases made
        · cases made
          exact ⟨congrArg (· :: rest) ends, List.not_mem_nil⟩
      next goesOn =>
        split at made
        · rcases of_bind_eq_ok made with ⟨⟨others, middle⟩, later, same⟩
          cases same
          rcases inductionHypothesis later with ⟨rfl, unclosed⟩
          refine ⟨rfl, fun member => ?_⟩
          rcases List.mem_cons.mp member with here | inside
          · exact goesOn here.symm
          · exact unclosed inside
        · cases made

end PatternLexeme
end ShiftReduce
