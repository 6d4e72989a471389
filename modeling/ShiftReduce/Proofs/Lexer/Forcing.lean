import ShiftReduce.Proofs.Lexer.Sessions

namespace ShiftReduce

/-!
# Tokens that are read again by name

A token that has been read can be put back and asked for by its name.  The stream then returns to where
the token begins, and the text there is the one that the matcher has seen.  But the matcher has looked
at every declaration, while a request by name looks at the first declaration of the name.

A name can be declared more than once.  So it is the first declaration that matters: the request gives
the same token exactly if the first declaration of its name reads the same piece of the text.  The
matcher should have answered with what a declaration of the name reads, and with the longest that any
declaration does, and where unions report what they should and no groups are lost it has.  Then this is
all if there is no other declaration of the name, and if the first one reads something else, it reads a
shorter piece or nothing.
-/

/-- The first declaration of the name has a pattern that matches the beginning of a text, and the match
is the piece, which is not empty. -/
inductive TokenSpec.FirstReads (spec : TokenSpec) (insensitive : Bool) (text : List Char)
    (name : String) (piece : List Char) : Prop where
  | first (candidate : Matcher.Candidate) (named : candidate.name = name)
      (reads : spec.Reads insensitive text candidate piece)
      (unnamed : forall (earlier : Nat) (tokenDef : TokenDef), earlier < candidate.index ->
        spec.defs[earlier]? = some tokenDef -> tokenDef.name ≠ name) :
      FirstReads spec insensitive text name piece

/-- A declaration of the name reads the piece, and no declaration reads more. -/
inductive TokenSpec.ReadsLongest (spec : TokenSpec) (insensitive : Bool) (text : List Char)
    (name : String) (piece : List Char) : Prop where
  | own (candidate : Matcher.Candidate) (named : candidate.name = name)
      (reads : spec.Reads insensitive text candidate piece)
      (longest : forall other otherPiece, spec.Reads insensitive text other otherPiece ->
        other.size ≤ candidate.size) :
      ReadsLongest spec insensitive text name piece

/-- What a name is declared by, if it is declared once, is the first declaration of that name. -/
theorem TokenSpec.Reads.first {spec : TokenSpec} {insensitive : Bool} {text piece : List Char}
    {candidate : Matcher.Candidate} (reads : spec.Reads insensitive text candidate piece)
    (once : (spec.defs.map TokenDef.name).count candidate.name = 1) :
    spec.FirstReads insensitive text candidate.name piece := by
  refine .first candidate rfl reads ?_
  intro earlier tokenDef before declared same
  rcases reads with ⟨index, own, entry, found, ownDeclared, made, matched, inhabited⟩
  rw [← List.take_append_drop index spec.defs, List.map_append, List.count_append] at once
  have inFront : own.name ∈ (spec.defs.take index).map TokenDef.name := by
    refine List.mem_map.mpr ⟨tokenDef, List.mem_of_getElem? (i := earlier) ?_, same⟩
    rw [List.getElem?_take_of_lt before, declared]
  have behind : own.name ∈ (spec.defs.drop index).map TokenDef.name := by
    refine List.mem_map.mpr ⟨own, List.mem_of_getElem? (i := 0) ?_, rfl⟩
    rw [List.getElem?_drop, Nat.add_zero, ownDeclared]
  have front := List.count_pos_iff.mpr inFront
  have back := List.count_pos_iff.mpr behind
  dsimp only at once
  omega

theorem TokenSpec.ReadsLongest.first {spec : TokenSpec} {insensitive : Bool} {text piece : List Char}
    {name : String} (longest : spec.ReadsLongest insensitive text name piece)
    (once : (spec.defs.map TokenDef.name).count name = 1) :
    spec.FirstReads insensitive text name piece := by
  rcases longest with ⟨candidate, rfl, reads, _⟩
  exact reads.first once

namespace Matcher

variable {matcher : Matcher} {text : List Char}

/-- What is found under a name is the first entry of that name. -/
theorem entry?_eq_some_iff {name : String} {entry : MatcherEntry} :
    matcher.entry? name = some entry ↔ entry.name = name ∧ Exists fun index : Nat =>
      matcher.entries[index]? = some entry ∧ forall (earlier : Nat) (other : MatcherEntry),
        earlier < index -> matcher.entries[earlier]? = some other -> other.name ≠ name := by
  unfold entry?
  rw [List.find?_eq_some_iff_getElem]
  simp only [beq_iff_eq, Bool.not_eq_true', beq_eq_false_iff_ne]
  refine and_congr_right fun _ => ⟨?_, ?_⟩
  · rintro ⟨index, inside, same, before⟩
    refine ⟨index, List.getElem?_eq_some_iff.mpr ⟨inside, same⟩, ?_⟩
    intro earlier other less listed
    rcases List.getElem?_eq_some_iff.mp listed with ⟨_, rfl⟩
    exact before earlier less
  · rintro ⟨index, listed, before⟩
    rcases List.getElem?_eq_some_iff.mp listed with ⟨inside, same⟩
    exact ⟨index, inside, same, fun earlier less =>
      before earlier _ less (List.getElem?_eq_getElem (Nat.lt_trans less inside))⟩

/-- The entry under a name reads what the first declaration of that name reads. -/
theorem firstReads_iff {spec : TokenSpec} {insensitive : Bool}
    (made : ofSpec spec insensitive = .ok matcher) {name : String} {piece : List Char} :
    spec.FirstReads insensitive text name piece ↔ Exists fun entry => Exists fun found =>
      matcher.entry? name = some entry ∧ entry.single.find? text = some found ∧
        found.matched = piece ∧ piece ≠ [] := by
  have each := (ofSpec_eq_ok made).1
  rw [List.forall₂_iff_get] at each
  rcases each with ⟨length, each⟩
  -- A declaration and its entry stand at the same place and have the same name.
  have names : forall index : Nat, (spec.defs[index]?).map TokenDef.name =
      (matcher.entries[index]?).map MatcherEntry.name := by
    intro index
    by_cases inside : index < spec.defs.length
    · rw [List.getElem?_eq_getElem inside, List.getElem?_eq_getElem (length ▸ inside)]
      exact congrArg some (name_of_entryOf (each index inside (length ▸ inside))).symm
    · rw [List.getElem?_eq_none (Nat.not_lt.mp inside),
        List.getElem?_eq_none (Nat.not_lt.mp (length ▸ inside))]
      rfl
  constructor
  · rintro ⟨candidate, named, reads, unnamed⟩
    rcases (reads_iff made).mpr reads with ⟨index, entry, found, listed, matched, inhabited⟩
    refine ⟨entry, found, entry?_eq_some_iff.mpr ⟨named, index, listed, ?_⟩, matched, rfl, inhabited⟩
    intro earlier other less otherListed same
    have there := names earlier
    rw [otherListed, Option.map_some] at there
    rcases Option.map_eq_some_iff.mp there with ⟨tokenDef, declared, equal⟩
    exact unnamed earlier tokenDef less declared (equal.trans same)
  · rintro ⟨entry, found, known, matched, rfl, inhabited⟩
    rcases entry?_eq_some_iff.mp known with ⟨rfl, index, listed, before⟩
    refine .first _ rfl ((reads_iff made).mp (.own index entry found listed matched inhabited)) ?_
    intro earlier tokenDef less declared same
    have there := names earlier
    rw [declared, Option.map_some] at there
    rcases Option.map_eq_some_iff.mp there.symm with ⟨other, otherListed, equal⟩
    exact before earlier other less otherListed (equal.trans same)

/-- The matcher answers with a reading, and no reading is longer. -/
theorem reads_of_longest (reports : matcher.Reports text) (counts : matcher.CountsGroups)
    (paired : matcher.unions.length = matcher.entries.length) {preference : Preference}
    {candidate : Candidate} (longest : matcher.longest text preference = .ok (some candidate)) :
    (Exists fun piece => matcher.Reads text candidate piece) ∧
      forall other piece, matcher.Reads text other piece -> other.size ≤ candidate.size := by
  rcases best_longest reports counts paired preference with ⟨answer, same, best⟩
  rw [longest] at same
  cases same
  rcases best with ⟨reads, _, most⟩
  refine ⟨reads, fun other piece otherReads => ?_⟩
  have inside : other.index < matcher.entries.length := by
    rcases otherReads with ⟨index, entry, found, listed, _, _⟩
    exact (List.getElem?_eq_some_iff.mp listed).1
  rcases Prod.Lex.toLex_le_toLex.mp (most other piece otherReads inside) with less | ⟨same, _⟩
  · exact Nat.le_of_lt less
  · exact Nat.le_of_eq same

/-- What is read is a beginning of the text. -/
theorem Reads.isPrefix (anchored : matcher.BeginsAt text) {candidate : Candidate} {piece : List Char}
    (reads : matcher.Reads text candidate piece) : piece <+: text := by
  rcases reads with ⟨index, entry, found, listed, matched, inhabited⟩
  rcases Pattern.prefix_of_find? matched
    (anchored entry found (List.mem_of_getElem? listed) matched) with ⟨rest, whole⟩
  exact ⟨rest, whole.symm⟩

theorem Reads.size_eq {candidate : Candidate} {piece : List Char}
    (reads : matcher.Reads text candidate piece) : candidate.size = Text.byteSize piece := by
  rcases reads
  rfl

/-- A reading that is not longer than another is a beginning of it. -/
theorem Reads.isPrefix_of_le (anchored : matcher.BeginsAt text) {first second : Candidate}
    {piece other : List Char} (reads : matcher.Reads text first piece)
    (otherReads : matcher.Reads text second other) (shorter : first.size ≤ second.size) :
    piece <+: other := by
  rw [reads.size_eq, otherReads.size_eq] at shorter
  rcases List.prefix_or_prefix_of_prefix (reads.isPrefix anchored) (otherReads.isPrefix anchored) with
    before | ⟨more, rfl⟩
  · exact before
  · rw [Text.byteSize_append] at shorter
    have nothing : more = [] := Text.byteSize_eq_zero_iff.mp (by omega)
    exact ⟨[], by rw [List.append_nil, nothing, List.append_nil]⟩

end Matcher

namespace TokenStream

variable {stream : TokenStream} {text : List Char}

/-- A token that was read is put back in front of where it was read. -/
theorem rewind_putBack (fresh : stream.backlog = []) (place : Position) {token : Token}
    (here : token.position = stream.place) :
    ({ stream with place }.putBack token).rewind = stream := by
  unfold putBack rewind
  dsimp only
  rw [fresh, List.foldl_nil, here, ← fresh]

/-- The place behind a piece of the text that is read where the stream stands. -/
def past (stream : TokenStream) (piece : List Char) : TokenStream :=
  { stream with place := stream.place.advance piece }

/-- What is read from the text is what the matcher answers with. -/
theorem token_of_next (fresh : stream.backlog = []) (left : stream.rest? = some text)
    {preference : Preference} {token : Token} {after : TokenStream}
    (read : stream.next preference = (.ok (some token), after)) :
    Exists fun candidate => stream.matcher.longest text preference = .ok (some candidate) ∧
      token = ⟨candidate.name, some (String.ofList (Text.takeWithin text candidate.size)),
        stream.place⟩ ∧
      after = stream.past (Text.takeWithin text candidate.size) := by
  unfold next at read
  rw [fresh, left] at read
  dsimp only at read
  cases text with
  | nil => cases read
  | cons c rest =>
      dsimp only at read
      split at read
      · cases read
      · cases read
      next candidate longest =>
        cases read
        exact ⟨candidate, longest, rfl, rfl⟩

/-- A request by name reads what the first declaration of the name reads. -/
theorem expectToken_of_firstReads {spec : TokenSpec} {insensitive : Bool}
    (made : Matcher.ofSpec spec insensitive = .ok stream.matcher)
    (left : stream.rewind.rest? = some text) (anchored : stream.matcher.BeginsAt text)
    {name : String} {piece : List Char} (reads : spec.FirstReads insensitive text name piece) :
    stream.expectToken name = (some ⟨name, some (String.ofList piece), stream.rewind.place⟩,
      stream.rewind.past piece) := by
  rcases (Matcher.firstReads_iff made).mp reads with
    ⟨entry, found, known, matched, rfl, inhabited⟩
  rcases Matcher.entry?_eq_some_iff.mp known with ⟨rfl, index, listed, _⟩
  have own : stream.matcher.Reads text _ found.matched :=
    .own index entry found listed matched inhabited
  have size : ¬ Text.byteSize found.matched = 0 :=
    fun none => inhabited (Text.byteSize_eq_zero_iff.mp none)
  unfold expectToken
  dsimp only
  rw [matcher_rewind, known, left]
  dsimp only
  rw [matched]
  dsimp only
  rw [if_neg size, consume, own.takeWithin anchored]
  rfl

/-- Where the first declaration of the name reads nothing, a request by name has no answer. -/
theorem expectToken_of_silent {spec : TokenSpec} {insensitive : Bool}
    (made : Matcher.ofSpec spec insensitive = .ok stream.matcher)
    (left : stream.rewind.rest? = some text) {name : String}
    (silent : forall piece, ¬ spec.FirstReads insensitive text name piece) :
    stream.expectToken name = (none, stream.rewind) := by
  unfold expectToken
  dsimp only
  rw [matcher_rewind, left]
  split
  next entry rest known same =>
    cases same
    split
    next found matched =>
      by_cases inhabited : found.matched = []
      · rw [if_pos (Text.byteSize_eq_zero_iff.mpr inhabited)]
      · exact (silent found.matched ((Matcher.firstReads_iff made).mpr
          ⟨entry, found, known, matched, rfl, inhabited⟩)).elim
    · rfl
  · rfl

/-- A token that has been read from the text, with any preference, is put back and asked for by its
name.  The answer is this token, and the stream is where the token had left it, exactly if the first
declaration of the name reads the text of the token.  Where unions report what they should and no groups
are lost, a declaration of the name reads this text and none reads more.  If it is so, the answer is
this token if the name is declared only once, and in any case it begins where the token does and has a
beginning of its text, or there is none and the stream is back where the token begins. -/
theorem forced_iff_first {spec : TokenSpec} {insensitive : Bool} {matcher : Matcher}
    (made : Matcher.ofSpec spec insensitive = .ok matcher) {stream after : TokenStream}
    (ofMatcher : stream.matcher = matcher) (fresh : stream.backlog = [])
    (left : stream.rest? = some text) (anchored : matcher.BeginsAt text) {preference : Preference}
    {token : Token} (read : stream.next preference = (.ok (some token), after)) :
    ((after.putBack token).expectToken token.name = (some token, after) ↔
      spec.FirstReads insensitive text token.name token.textOrEmpty.toList) ∧
    (matcher.Reports text -> matcher.CountsGroups ->
      spec.ReadsLongest insensitive text token.name token.textOrEmpty.toList) ∧
    (spec.ReadsLongest insensitive text token.name token.textOrEmpty.toList ->
      ((spec.defs.map TokenDef.name).count token.name = 1 ->
        (after.putBack token).expectToken token.name = (some token, after)) ∧
      ((Exists fun piece => piece <+: token.textOrEmpty.toList ∧
          (after.putBack token).expectToken token.name =
            (some ⟨token.name, some (String.ofList piece), token.position⟩, stream.past piece)) ∨
        (after.putBack token).expectToken token.name = (none, stream))) := by
  subst ofMatcher
  rcases token_of_next fresh left read with ⟨candidate, longest, rfl, rfl⟩
  generalize isPiece : Text.takeWithin text candidate.size = piece
  have back : ((stream.past piece).putBack
      ⟨candidate.name, some (String.ofList piece), stream.place⟩).rewind = stream :=
    rewind_putBack fresh _ rfl
  generalize asked : (stream.past piece).putBack _ = again at back ⊢
  have sameMatcher : again.matcher = stream.matcher := by
    rw [← back, matcher_rewind]
  have whole : again.rewind.rest? = some text := by
    rw [back, left]
  have answers : forall other, spec.FirstReads insensitive text candidate.name other ->
      again.expectToken candidate.name =
        (some ⟨candidate.name, some (String.ofList other), stream.place⟩, stream.past other) := by
    intro other first
    rw [← sameMatcher] at made anchored
    have answer := expectToken_of_firstReads made whole anchored first
    rwa [back] at answer
  have shown : (Token.textOrEmpty ⟨candidate.name, some (String.ofList piece), stream.place⟩).toList =
      piece := String.toList_ofList
  rw [shown]
  refine ⟨⟨fun same => ?_, answers piece⟩, fun reports counts => ?_, ?_⟩
  · by_contra other
    by_cases reading : Exists fun other => spec.FirstReads insensitive text candidate.name other
    · rcases reading with ⟨different, first⟩
      rw [answers different first, Prod.mk.injEq, Option.some.injEq, Token.mk.injEq,
        Option.some.injEq] at same
      have equal := congrArg String.toList same.1.2.1
      rw [String.toList_ofList, String.toList_ofList] at equal
      exact other (equal ▸ first)
    · have silent := expectToken_of_silent (sameMatcher ▸ made) whole fun piece first =>
        reading ⟨piece, first⟩
      rw [silent] at same
      cases same
  · rcases Matcher.reads_of_longest reports counts (Matcher.ofSpec_eq_ok made).2 longest with
      ⟨⟨own, reads⟩, most⟩
    have same : own = piece := (reads.takeWithin anchored).symm.trans isPiece
    subst same
    exact .own candidate rfl ((Matcher.reads_iff made).mp reads) fun other otherPiece otherReads =>
      most other otherPiece ((Matcher.reads_iff made).mpr otherReads)
  · intro longestRead
    refine ⟨fun once => answers piece (longestRead.first once), ?_⟩
    rcases longestRead with ⟨_, _, reads, most⟩
    by_cases reading : Exists fun other => spec.FirstReads insensitive text candidate.name other
    · rcases reading with ⟨other, first⟩
      have answer := answers other first
      rcases first with ⟨shorter, _, otherReads, _⟩
      have less := most shorter other otherReads
      have inFront := ((Matcher.reads_iff made).mpr otherReads).isPrefix_of_le anchored
        ((Matcher.reads_iff made).mpr reads) less
      exact Or.inl ⟨other, inFront, answer⟩
    · have silent := expectToken_of_silent (sameMatcher ▸ made) whole fun piece first =>
        reading ⟨piece, first⟩
      rw [back] at silent
      exact Or.inr silent

/-! ## A name that is declared twice -/

/-- The keyword is read again by its name, where a word of the same length is declared before it. -/
theorem forced_iff_first_conditional :
    Matcher.ofSpec .conditional false = .ok .conditional ∧
    (TokenSpec.conditional.defs.map TokenDef.name).count "if" = 1 ∧
    Exists fun after => (Matcher.conditional.stream "if x").next .nothing =
      (.ok (some ⟨"if", some "if", .start⟩), after) ∧
      (after.putBack ⟨"if", some "if", .start⟩).expectToken "if" =
        (some ⟨"if", some "if", .start⟩, after) := by
  have once : (TokenSpec.conditional.defs.map TokenDef.name).count "if" = 1 := by decide
  have read : ((Matcher.conditional.stream "if x").next .nothing).1 =
      .ok (some ⟨"if", some "if", .start⟩) := by decide +kernel
  have left : (Matcher.conditional.stream "if x").rest? = some "if x".toList := by decide +kernel
  have fresh : (Matcher.conditional.stream "if x").backlog = [] := rfl
  have forced := forced_iff_first Matcher.ofSpec_conditional rfl fresh left
    Matcher.reports_conditional.anchored (Prod.ext read rfl)
  exact ⟨Matcher.ofSpec_conditional, once, _, Prod.ext read rfl,
    (forced.2.2 (forced.2.1 Matcher.reports_conditional Matcher.countsGroups_conditional)).1 once⟩

end TokenStream

/-- One name for two patterns. -/
def TokenSpec.twice : TokenSpec :=
  ⟨[⟨"a", .regex "x"⟩, ⟨"a", .regex "xy"⟩]⟩

/-- The matcher for them. -/
def Matcher.twice : Matcher :=
  (ofSpec .twice false).toOption.getD default

/-- The token that is read by the second pattern is cut short when it is read again by its name. -/
theorem TokenStream.cut_short_twice :
    Matcher.ofSpec .twice false = .ok .twice ∧ Matcher.twice.Reports "xy".toList ∧
    Matcher.twice.CountsGroups ∧
    Exists fun after => (Matcher.twice.stream "xy").next .nothing =
      (.ok (some ⟨"a", some "xy", .start⟩), after) ∧
      ((after.putBack ⟨"a", some "xy", .start⟩).expectToken "a").1 =
        some ⟨"a", some "x", .start⟩ ∧
      ((after.putBack ⟨"a", some "xy", .start⟩).expectToken "a").2.position ≠ after.position := by
  have read : ((Matcher.twice.stream "xy").next .nothing).1 =
      .ok (some ⟨"a", some "xy", .start⟩) := by decide +kernel
  exact ⟨eq_ok_of_isOk (by decide +kernel),
    Matcher.reports_of_each (by decide +kernel) (by decide +kernel),
    by unfold Matcher.CountsGroups; decide +kernel, _, Prod.ext read rfl, by decide +kernel,
    by decide +kernel⟩

end ShiftReduce
